import Sypas.BootProto
import Sypas.Lib.Memory

/-!
# The physical memory manager (`kernel/mm/pmm.c`)

The allocator's static variables and the memory they point into form one state.
Every access to the bitmap goes through memory and is logged.

## Main definitions

- `Sypas.Pmm` — the allocator's state
- `Sypas.pmmInit` — set up the allocator from the boot memory map
- `Sypas.pmmAllocPage` — next-fit allocation of one page
- `Sypas.pmmFreePage` — release of one page
-/

namespace Sypas

open Ram Prog

/-- The static variables of `pmm.c`, with the memory that holds the bitmap.
    `highest_page` is only ever assigned a 64-bit address divided by the page size. -/
structure Pmm where
  ram : Ram
  bitmap : UInt64
  bitmapBytes : UInt64
  highestPage : UInt64
  freePages : UInt64
  usablePages : UInt64
  allocatorPages : UInt64
  cursor : UInt64
  usableBytes : UInt64
  reservedBytes : UInt64
  mmioBytes : UInt64
  highestPage_lt : highestPage.toNat < 2 ^ 52

/-- The static variables as the kernel starts: all zero. -/
def Pmm.zeroed (ram : Ram) : Pmm where
  ram := ram
  bitmap := 0
  bitmapBytes := 0
  highestPage := 0
  freePages := 0
  usablePages := 0
  allocatorPages := 0
  cursor := 0
  usableBytes := 0
  reservedBytes := 0
  mmioBytes := 0
  highestPage_lt := by decide

/-- A call of `panic`: its format and the values it prints. -/
structure Panic where
  format : String
  args : List UInt64
deriving DecidableEq, Repr

/-! ## Bits -/

/-- Run a memory operation. -/
def onRam {α : Type} (x : StateM Ram α) : StateM Pmm α := fun st =>
  ((x st.ram).1, { st with ram := (x st.ram).2 })

/-- The address of `bitmap[page >> 3]`. -/
def bitmapAddr (st : Pmm) (page : UInt64) : ℕ := st.bitmap.toNat + (page >>> 3).toNat

/-- `1 << (page & 7)` -/
def pageBit (page : UInt64) : UInt8 := 1 <<< (page &&& 7).toUInt8

def bitSet (page : UInt64) : StateM Pmm Unit := do
  let st ← get
  let byte ← onRam (read8 (bitmapAddr st page))
  onRam (write8 (bitmapAddr st page) (byte ||| pageBit page))

def bitClear (page : UInt64) : StateM Pmm Unit := do
  let st ← get
  let byte ← onRam (read8 (bitmapAddr st page))
  onRam (write8 (bitmapAddr st page) (byte &&& ~~~pageBit page))

def bitTest (page : UInt64) : StateM Pmm Bool := do
  let st ← get
  let byte ← onRam (read8 (bitmapAddr st page))
  pure (byte &&& pageBit page ≠ 0)

/-! ## Initialisation -/

/-- `ALIGN_UP` -/
def alignUp (x a : UInt64) : UInt64 := (x + (a - 1)) &&& ~~~(a - 1)

/-- `ALIGN_DOWN` -/
def alignDown (x a : UInt64) : UInt64 := x &&& ~~~(a - 1)

/-- The end of the legacy region, which the bitmap must not enter. -/
def lowMemoryEnd : UInt64 := 0x100000

/-- The sums of pass 1. -/
structure Tally where
  usableBytes : UInt64
  reservedBytes : UInt64
  mmioBytes : UInt64
  maxAddr : UInt64
deriving DecidableEq, Repr

/-- Pass 1 on one entry. -/
def tallyEntry (t : Tally) (e : MemmapEntry) : Tally :=
  if e.type = sypasMemUsable then
    { t with
      usableBytes := t.usableBytes + e.length
      maxAddr := if e.base + e.length > t.maxAddr then e.base + e.length else t.maxAddr }
  else if e.type = sypasMemMmio then { t with mmioBytes := t.mmioBytes + e.length }
  else { t with reservedBytes := t.reservedBytes + e.length }

/-- Pass 1: extent of tracked physical memory and usable accounting. -/
def tally (map : List MemmapEntry) : Tally := map.foldl tallyEntry ⟨0, 0, 0, 0⟩

/-- The part of an entry above the first 1 MiB: base and length. -/
def aboveLowMemory (e : MemmapEntry) : Option (UInt64 × UInt64) :=
  if e.base < lowMemoryEnd then
    let skip := lowMemoryEnd - e.base
    if e.length ≤ skip then none else some (e.base + skip, e.length - skip)
  else some (e.base, e.length)

/-- Pass 2: the first usable region that fits the bitmap, or 0. -/
def placeBitmap (bitmapBytes : UInt64) : List MemmapEntry → UInt64
  | [] => 0
  | e :: rest =>
    if e.type ≠ sypasMemUsable then placeBitmap bitmapBytes rest
    else match aboveLowMemory e with
      | none => placeBitmap bitmapBytes rest
      | some (base, len) => if len ≥ bitmapBytes then base else placeBitmap bitmapBytes rest

/-- Free one page of a usable range. -/
def freeCandidate (p : UInt64) : StateM Pmm Unit :=
  -- never hand out page 0
  if p = 0 then pure ()
  else do
    bitClear p
    modify fun st => { st with freePages := st.freePages + 1 }

/-- Free the pages of one entry, if it is usable. -/
def freeEntry (e : MemmapEntry) : StateM Pmm Unit :=
  if e.type ≠ sypasMemUsable then pure ()
  else
    let first := alignUp e.base pageSize / pageSize
    let last := alignDown (e.base + e.length) pageSize / pageSize
    forRange first.toNat last.toNat fun p => freeCandidate (UInt64.ofNat p)

def freeEntries : List MemmapEntry → StateM Pmm Unit
  | [] => pure ()
  | e :: rest => do
    freeEntry e
    freeEntries rest

/-- `if (!bit_test(p)) { bit_set(p); free_pages--; }` -/
def reservePage (p : UInt64) : StateM Pmm Unit := do
  let allocated ← bitTest p
  if !allocated then
    bitSet p
    modify fun st => { st with freePages := st.freePages - 1 }

/-- The end of the bitmap's own pages. -/
def bitmapLast (st : Pmm) : UInt64 := alignUp (st.bitmap + st.bitmapBytes) pageSize / pageSize

/-- The rest of `pmm_init`, once the bitmap has its place. -/
def buildBitmap (map : List MemmapEntry) : StateM Pmm Unit := do
  let st ← get
  onRam (fillUp st.bitmap.toNat 0xFF st.bitmapBytes.toNat)
  freeEntries map
  modify fun st => { st with usablePages := st.freePages }
  let bmFirst := st.bitmap / pageSize
  let bmLast := bitmapLast st
  forRange bmFirst.toNat bmLast.toNat fun p => reservePage (UInt64.ofNat p)
  forRange 0 (min 256 st.highestPage.toNat) fun p => reservePage (UInt64.ofNat p)
  modify fun st => { st with allocatorPages := st.freePages, cursor := bmLast }

theorem div_pageSize_lt (a : UInt64) : (a / pageSize).toNat < 2 ^ 52 := by
  have ha := a.toNat_lt
  have hpage : pageSize.toNat = 4096 := rfl
  rw [UInt64.toNat_div, hpage]
  omega

/-- `pmm_init`, on the entries of the boot memory map. The source reads them from an array, in
    each of its passes; the array lies outside of the bitmap, which is all that is written. -/
def pmmInit (map : List MemmapEntry) (st : Pmm) : Except Panic Pmm :=
  let t := tally map
  if t.maxAddr = 0 then .error ⟨"pmm: no usable memory in boot memory map", []⟩
  else
    let bitmapBytes := alignUp (t.maxAddr / pageSize) 8 / 8
    let bitmap := placeBitmap bitmapBytes map
    if bitmap = 0 then
      .error ⟨"pmm: no region large enough for %lu KiB bitmap", [bitmapBytes / 1024]⟩
    else
      .ok (buildBitmap map
        { ram := st.ram
          bitmap := bitmap
          bitmapBytes := bitmapBytes
          highestPage := t.maxAddr / pageSize
          freePages := 0
          usablePages := 0
          allocatorPages := 0
          cursor := st.cursor
          usableBytes := t.usableBytes
          reservedBytes := t.reservedBytes
          mmioBytes := t.mmioBytes
          highestPage_lt := div_pageSize_lt t.maxAddr }).2

/-! ## Allocation and release -/

/-- `(p & 7) == 0 && bitmap[p >> 3] == 0xFF` -/
def byteFull (p : UInt64) : StateM Pmm Bool :=
  if p &&& 7 = 0 then do
    let st ← get
    let byte ← onRam (read8 (bitmapAddr st p))
    pure (byte = 0xFF)
  else pure false

/-- The scan of `pmm_alloc_page`. `scanned` grows in every round, so a fuel of
    `highest_page` rounds is never used up before the loop condition fails. -/
def allocScan : ℕ → UInt64 → StateM Pmm UInt64
  | 0, _ => pure 0
  | fuel + 1, scanned => do
    let st ← get
    if scanned < st.highestPage then do
      let p := st.cursor
      set { st with cursor := (p + 1) % st.highestPage }
      let full ← byteFull p
      if full then do
        -- fast-skip fully allocated bytes
        modify fun st => { st with cursor := (p + 8) % st.highestPage }
        allocScan fuel (scanned + 8)
      else do
        let allocated ← bitTest p
        if !allocated then do
          bitSet p
          modify fun st => { st with freePages := st.freePages - 1 }
          pure (p * pageSize)
        else allocScan fuel (scanned + 1)
    else pure 0

def pmmAllocPage : StateM Pmm UInt64 := do
  let st ← get
  allocScan st.highestPage.toNat 0

def pmmFreePage (addr : UInt64) (st : Pmm) : Except Panic Pmm :=
  let p := addr / pageSize
  if addr &&& (pageSize - 1) ≠ 0 then .error ⟨"pmm: free of unaligned address %lx", [addr]⟩
  else if p ≥ st.highestPage then .error ⟨"pmm: free of out-of-range address %lx", [addr]⟩
  else
    let r := bitTest p st
    if !r.1 then .error ⟨"pmm: double free of page %lx", [addr]⟩
    else
      let st := (bitClear p r.2).2
      .ok { st with freePages := st.freePages + 1 }

end Sypas
