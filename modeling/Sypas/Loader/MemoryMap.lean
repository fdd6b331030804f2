import Sypas.BootProto
import Sypas.Loader.Elf

/-!
# The firmware memory-map translator (`bootloader/uefi/memory_map.c`)

The raw firmware map lives in memory: it is sorted in place, by whole records of
the firmware's stride, and then read descriptor by descriptor. The output array
is the list of its entries. The segment-splitting loop is unbounded in the
source, so it takes a fuel argument, and `none` is a run that has not ended.

## Main definitions

- `Sypas.sortDescriptors` — the in-place insertion sort
- `Sypas.append` — append a range to the output, coalescing
- `Sypas.splitLoop` — the segment-splitting loop over one descriptor
- `Sypas.sypasTranslateMemoryMap` — the translator
-/

namespace Sypas

open Ram Prog

/-- The fields of `EFI_MEMORY_DESCRIPTOR` that are read. -/
structure EfiMemoryDescriptor where
  type : UInt32
  physicalStart : UInt64
  numberOfPages : UInt64
deriving DecidableEq, Repr

def EfiMemoryDescriptor.at (mem : ℕ → UInt8) (a : ℕ) : EfiMemoryDescriptor where
  type := u32At mem a
  physicalStart := u64At mem (a + 8)
  numberOfPages := u64At mem (a + 24)

def efiLoaderCode : UInt32 := 1
def efiLoaderData : UInt32 := 2
def efiBootServicesCode : UInt32 := 3
def efiBootServicesData : UInt32 := 4
def efiRuntimeServicesCode : UInt32 := 5
def efiRuntimeServicesData : UInt32 := 6
def efiConventionalMemory : UInt32 := 7
def efiACPIReclaimMemory : UInt32 := 9
def efiACPIMemoryNVS : UInt32 := 10
def efiMemoryMappedIO : UInt32 := 11
def efiMemoryMappedIOPortSpace : UInt32 := 12

def sizeofEfiMemoryDescriptor : UInt64 := 40
def maxEfiDescriptorSize : UInt64 := 4096

/-- `sypas_map_status_t`. -/
inductive MapStatus where
  | ok
  | errDescriptorSize
  | errDescriptorAlignment
  | errZeroLength
  | errAddressAlignment
  | errAddressOverflow
  | errRangeOverlap
  | errOutputFull
  | errOutputOverflow
  | errKernelNotTagged
deriving DecidableEq, Repr

def sypasMapStatusStr : MapStatus → String
  | .ok => "ok"
  | .errDescriptorSize => "bad memory-map descriptor size"
  | .errDescriptorAlignment => "unaligned memory-map descriptor"
  | .errZeroLength => "zero-length memory-map range"
  | .errAddressAlignment => "unaligned memory-map range"
  | .errAddressOverflow => "memory-map address overflow"
  | .errRangeOverlap => "overlapping memory-map ranges"
  | .errOutputFull => "translated memory map is full"
  | .errOutputOverflow => "translated memory-map overflow"
  | .errKernelNotTagged => "kernel ranges absent from loader map"

/-- `sypas_map_diagnostic_t`. -/
structure MapDiagnostic where
  descriptorIndex : UInt64
  base : UInt64
  «end» : UInt64
  previousEnd : UInt64
deriving DecidableEq, Repr

/-! ## Sorting -/

/-- `PhysicalStart` of a record held in the temporary buffer. -/
def recordStart (record : List UInt8) : UInt64 := u64At (fun k => record.getD k 0) 8

/-- The inner loop of `sort_descriptors`: move larger records up, from record
    `j - 1` down, and return the free place. -/
def shiftUp (bytes stride : ℕ) (key : UInt64) : ℕ → StateM Ram ℕ
  | 0 => pure 0
  | j + 1 => do
    let start ← read64 (bytes + j * stride + 8)
    if start ≤ key then pure (j + 1)
    else do
      copyUp (bytes + (j + 1) * stride) (bytes + j * stride) stride
      shiftUp bytes stride key j

/-- `sort_descriptors`. -/
def sortDescriptors (map count stride : ℕ) : StateM Ram Unit :=
  forRange 1 count fun i => do
    let temporary ← loadBytes (map + i * stride) stride
    let j ← shiftUp map stride (recordStart temporary) i
    storeBytes (map + j * stride) temporary

/-! ## Types and output -/

def efiToSypasMemtype (type : UInt32) : UInt32 :=
  if type = efiConventionalMemory then sypasMemUsable
  else if type = efiLoaderCode ∨ type = efiLoaderData then sypasMemLoader
  else if type = efiBootServicesCode ∨ type = efiBootServicesData ∨
      type = efiRuntimeServicesCode ∨ type = efiRuntimeServicesData then sypasMemFirmware
  else if type = efiACPIReclaimMemory then sypasMemAcpiReclaim
  else if type = efiACPIMemoryNVS then sypasMemAcpiNvs
  else if type = efiMemoryMappedIO ∨ type = efiMemoryMappedIOPortSpace then sypasMemMmio
  else sypasMemReserved

/-- The tail of `append`: a new entry, if the array has room. -/
def appendNew (out : List MemmapEntry) (cap base length : UInt64) (type : UInt32) :
    Except MapStatus (List MemmapEntry) :=
  if out.length = cap.toNat then .error .errOutputFull
  else .ok (out ++ [{ base, length, type, reserved := 0 }])

/-- `append`; `*count` is the length of the list. -/
def append (out : List MemmapEntry) (cap base «end» : UInt64) (type : UInt32) :
    Except MapStatus (List MemmapEntry) :=
  if base = «end» then .ok out
  else match out.getLast? with
    | none => appendNew out cap base («end» - base) type
    | some previous =>
      match addOk previous.base previous.length with
      | none => .error .errOutputOverflow
      | some previousEnd =>
        if previousEnd > base then .error .errOutputOverflow
        else if previous.type = type ∧ previousEnd = base then
          match addOk previous.length («end» - base) with
          | none => .error .errOutputOverflow
          | some combined => .ok (out.dropLast ++ [{ previous with length := combined }])
        else appendNew out cap base («end» - base) type

/-- `next_kernel_segment`: among the segments that meet `[cursor, end)`, the first
    with the least page base. -/
def nextKernelSegment (segs : List ElfSegment) (cursor «end» : UInt64) : Option ElfSegment :=
  segs.foldl (fun best segment =>
    if segment.pageEnd ≤ cursor ∨ segment.pageBase ≥ «end» then best
    else match best with
      | none => some segment
      | some b => if segment.pageBase < b.pageBase then some segment else best) none

/-! ## The translation -/

/-- The sum of the plan's segment sizes, after the sanity guard on each. -/
def expectedKernelBytes : List ElfSegment → UInt64 → Except MapStatus UInt64
  | [], expected => .ok expected
  | segment :: rest, expected =>
    if segment.pageBase &&& (pageSize - 1) ≠ 0 ∨ segment.pageEnd &&& (pageSize - 1) ≠ 0 ∨
        segment.pageBase ≥ segment.pageEnd then .error .errAddressOverflow
    else match addOk expected (segment.pageEnd - segment.pageBase) with
      | none => .error .errAddressOverflow
      | some bytes => expectedKernelBytes rest bytes

/-- The walk's position inside one descriptor, with the output so far and
    `tagged_kernel_bytes`. -/
structure SplitState where
  cursor : UInt64
  out : List MemmapEntry
  tagged : UInt64

/-- The body of the segment-splitting loop. -/
def splitSegment (cap «end» : UInt64) (type : UInt32) (segment : ElfSegment) (st : SplitState) :
    Except MapStatus SplitState := do
  let lo := if segment.pageBase > st.cursor then segment.pageBase else st.cursor
  let hi := if segment.pageEnd < «end» then segment.pageEnd else «end»
  let out ← append st.out cap st.cursor lo type
  let out ← append out cap lo hi sypasMemKernel
  match addOk st.tagged (hi - lo) with
  | none => .error .errOutputOverflow
  | some tagged => .ok { cursor := hi, out, tagged }

/-- The segment-splitting loop; `none` when `fuel` iterations do not end it. -/
def splitLoop (segs : List ElfSegment) (cap «end» : UInt64) (type : UInt32) :
    ℕ → SplitState → Option (Except MapStatus SplitState)
  | 0, _ => none
  | fuel + 1, st =>
    match nextKernelSegment segs st.cursor «end» with
    | none => some (.ok st)
    | some segment =>
      match splitSegment cap «end» type segment st with
      | .error status => some (.error status)
      | .ok st => splitLoop segs cap «end» type fuel st

/-- The checks on one descriptor, at address `a` and index `i`: its end, or the
    status and diagnostic returned. -/
def checkDescriptor (a i : ℕ) (previousEnd : UInt64) (d : EfiMemoryDescriptor) :
    Except (MapStatus × MapDiagnostic) UInt64 :=
  if a % 8 ≠ 0 then .error (.errDescriptorAlignment, ⟨0, 0, 0, 0⟩)
  else if d.numberOfPages = 0 then .error (.errZeroLength, ⟨0, 0, 0, 0⟩)
  else if d.physicalStart &&& (pageSize - 1) ≠ 0 then .error (.errAddressAlignment, ⟨0, 0, 0, 0⟩)
  else match mulOk d.numberOfPages pageSize with
    | none => .error (.errAddressOverflow, ⟨0, 0, 0, 0⟩)
    | some length =>
      match addOk d.physicalStart length with
      | none => .error (.errAddressOverflow, ⟨0, 0, 0, 0⟩)
      | some «end» =>
        if i ≠ 0 ∧ d.physicalStart < previousEnd then
          .error (.errRangeOverlap, ⟨UInt64.ofNat i, d.physicalStart, «end», previousEnd⟩)
        else .ok «end»

/-- The rest of the descriptor loop's body: split a LOADER range around the plan's
    segments, then append what is left of it. -/
def coverDescriptor (fuel : ℕ) (segs : List ElfSegment) (cap «end» : UInt64) (type : UInt32)
    (st : SplitState) : Option (Except MapStatus SplitState) :=
  let close (st : SplitState) : Except MapStatus SplitState := do
    let out ← append st.out cap st.cursor «end» type
    .ok { st with cursor := «end», out }
  if type = sypasMemLoader then
    match splitLoop segs cap «end» type fuel st with
    | none => none
    | some (.error status) => some (.error status)
    | some (.ok st) => some (close st)
  else some (close st)

/-- The body of the descriptor loop. In the state it takes and leaves, the cursor
    is `previous_end`. -/
def translateDescriptor (fuel : ℕ) (segs : List ElfSegment) (cap : UInt64) (a i : ℕ)
    (d : EfiMemoryDescriptor) (st : SplitState) :
    Option (Except (MapStatus × MapDiagnostic) SplitState) :=
  match checkDescriptor a i st.cursor d with
  | .error e => some (.error e)
  | .ok «end» =>
    match coverDescriptor fuel segs cap «end» (efiToSypasMemtype d.type)
        { st with cursor := d.physicalStart } with
    | none => none
    | some (.error status) => some (.error (status, ⟨0, 0, 0, 0⟩))
    | some (.ok st) => some (.ok st)

/-- The descriptor loop from index `i` on, with `n` descriptors left. -/
def translateLoop (fuel : ℕ) (segs : List ElfSegment) (cap : UInt64) (map stride : ℕ) :
    (n i : ℕ) → SplitState → StateM Ram (Option (Except (MapStatus × MapDiagnostic) SplitState))
  | 0, _, st => pure (some (.ok st))
  | n + 1, i, st => do
    let d ← readWith EfiMemoryDescriptor.at (map + i * stride) 40
    match translateDescriptor fuel segs cap (map + i * stride) i d st with
    | none => pure none
    | some (.error e) => pure (some (.error e))
    | some (.ok st) => translateLoop fuel segs cap map stride n (i + 1) st

/-- What a call leaves behind: its status, the entries `out[0..count)` when it
    succeeds, `*out_count` and the diagnostic. -/
structure MapResult where
  status : MapStatus
  out : List MemmapEntry
  outCount : UInt64
  diagnostic : MapDiagnostic
deriving DecidableEq

/-- `sypas_translate_memory_map`. Only the raw map is an address; the plan, the
    output array and the counter it may overwrite are passed as values. -/
def sypasTranslateMemoryMap (fuel efiMap : ℕ) (mapSize descriptorSize : UInt64)
    (kernel : ElfLoadPlan) (outCapacity outCount : UInt64) : StateM Ram (Option MapResult) :=
  let failed (e : MapStatus × MapDiagnostic) : MapResult := ⟨e.1, [], outCount, e.2⟩
  if efiMap = 0 ∨ descriptorSize < sizeofEfiMemoryDescriptor ∨
      descriptorSize > maxEfiDescriptorSize ∨ descriptorSize % 8 ≠ 0 ∨
      mapSize % descriptorSize ≠ 0 then
    pure (some (failed (.errDescriptorSize, ⟨0, 0, 0, 0⟩)))
  else do
    let count := (mapSize / descriptorSize).toNat
    sortDescriptors efiMap count descriptorSize.toNat
    match expectedKernelBytes kernel.segs 0 with
    | .error status => pure (some (failed (status, ⟨0, 0, 0, 0⟩)))
    | .ok expected => do
      let r ← translateLoop fuel kernel.segs outCapacity efiMap descriptorSize.toNat count 0
        ⟨0, [], 0⟩
      match r with
      | none => pure none
      | some (.error e) => pure (some (failed e))
      | some (.ok st) =>
        if st.tagged ≠ expected then
          pure (some (failed (.errKernelNotTagged, ⟨0, 0, 0, 0⟩)))
        else pure (some ⟨.ok, st.out, UInt64.ofNat st.out.length, ⟨0, 0, 0, 0⟩⟩)

end Sypas
