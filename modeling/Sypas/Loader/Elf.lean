import Sypas.Lib.Memory
import Sypas.Loader.Arith

/-!
# ELF64 validation and load planning (`bootloader/uefi/elf.c`)

`elfPlanLoad` reads the file through a pointer into flat memory, so every byte
it looks at is logged. A load plan keeps its segments in a list whose length is
bounded by `ELF_MAX_SEGMENTS` as a field, in place of the C array and counter.

## Main definitions

- `Sypas.ElfLoadPlan` — a load plan
- `Sypas.planPhdr` — the body of the program-header loop
- `Sypas.elfPlanLoad` — the validator
-/

namespace Sypas

open Ram

/-- The fields of `Elf64_Ehdr` that the validator reads. -/
structure Elf64Ehdr where
  eMagic : UInt32
  eClass : UInt8
  eData : UInt8
  eIversion : UInt8
  eType : UInt16
  eMachine : UInt16
  eVersion : UInt32
  eEntry : UInt64
  ePhoff : UInt64
  eEhsize : UInt16
  ePhentsize : UInt16
  ePhnum : UInt16

/-- `Elf64_Phdr`. -/
structure Elf64Phdr where
  pType : UInt32
  pFlags : UInt32
  pOffset : UInt64
  pVaddr : UInt64
  pPaddr : UInt64
  pFilesz : UInt64
  pMemsz : UInt64
  pAlign : UInt64
deriving DecidableEq

def Elf64Ehdr.at (mem : ℕ → UInt8) (a : ℕ) : Elf64Ehdr where
  eMagic := u32At mem a
  eClass := mem (a + 4)
  eData := mem (a + 5)
  eIversion := mem (a + 6)
  eType := u16At mem (a + 16)
  eMachine := u16At mem (a + 18)
  eVersion := u32At mem (a + 20)
  eEntry := u64At mem (a + 24)
  ePhoff := u64At mem (a + 32)
  eEhsize := u16At mem (a + 52)
  ePhentsize := u16At mem (a + 54)
  ePhnum := u16At mem (a + 56)

def Elf64Phdr.at (mem : ℕ → UInt8) (a : ℕ) : Elf64Phdr where
  pType := u32At mem a
  pFlags := u32At mem (a + 4)
  pOffset := u64At mem (a + 8)
  pVaddr := u64At mem (a + 16)
  pPaddr := u64At mem (a + 24)
  pFilesz := u64At mem (a + 32)
  pMemsz := u64At mem (a + 40)
  pAlign := u64At mem (a + 48)

def elfMagic : UInt32 := 0x464C457F
def elfClass64 : UInt8 := 2
def elfData2Lsb : UInt8 := 1
def evCurrent : UInt8 := 1
def etExec : UInt16 := 2
def emX8664 : UInt16 := 62
def ptLoad : UInt32 := 1

def pfX : UInt32 := 1
def pfW : UInt32 := 2
def pfR : UInt32 := 4

def sizeofElf64Ehdr : UInt64 := 64
def sizeofElf64Phdr : UInt64 := 56

def elfPageMask : UInt64 := 4095
def elfMaxSegments : ℕ := 16
def elfMaxKernelSpan : UInt64 := 256 * 1024 * 1024

/-- `elf_segment_t`. -/
structure ElfSegment where
  paddr : UInt64
  pageBase : UInt64
  pageEnd : UInt64
  offset : UInt64
  filesz : UInt64
  memsz : UInt64
  flags : UInt32
deriving DecidableEq, Repr

/-- `elf_load_plan_t`; `nsegs` is the length of `segs`. -/
structure ElfLoadPlan where
  entry : UInt64
  physBase : UInt64
  physEnd : UInt64
  segs : List ElfSegment
  nsegs_le : segs.length ≤ elfMaxSegments
deriving DecidableEq

/-- A cleared plan. -/
def ElfLoadPlan.empty : ElfLoadPlan := ⟨0, 0, 0, [], Nat.zero_le _⟩

/-- `elf_status_t`. -/
inductive ElfStatus where
  | ok
  | errTruncated
  | errMagic
  | errClass
  | errEndian
  | errVersion
  | errMachine
  | errType
  | errEhsize
  | errPhentsize
  | errPhdrBounds
  | errSegBounds
  | errSegSizes
  | errSegAlign
  | errSegVaddr
  | errSegFlags
  | errSegOverflow
  | errSegOverlap
  | errTooManySegs
  | errNoSegments
  | errTooBig
  | errEntry
deriving DecidableEq, Repr

def elfStatusStr : ElfStatus → String
  | .ok => "ok"
  | .errTruncated => "file truncated"
  | .errMagic => "not an ELF image"
  | .errClass => "not ELF64"
  | .errEndian => "not little-endian"
  | .errVersion => "bad ELF version"
  | .errMachine => "not x86_64"
  | .errType => "not ET_EXEC"
  | .errEhsize => "bad e_ehsize"
  | .errPhentsize => "bad e_phentsize"
  | .errPhdrBounds => "program headers outside file"
  | .errSegBounds => "segment data outside file"
  | .errSegSizes => "p_filesz > p_memsz"
  | .errSegAlign => "bad PT_LOAD alignment"
  | .errSegVaddr => "vaddr is not identity-mapped"
  | .errSegFlags => "unsafe PT_LOAD permissions"
  | .errSegOverflow => "address arithmetic overflow"
  | .errSegOverlap => "PT_LOAD segments overlap"
  | .errTooManySegs => "too many PT_LOAD segments"
  | .errNoSegments => "no loadable segments"
  | .errTooBig => "kernel span too large"
  | .errEntry => "entry not executable file data"

def powerOfTwo (n : UInt64) : Bool := n ≠ 0 ∧ n &&& (n - 1) = 0

/-- The plan as `elf_plan_load` first clears it. -/
def ElfLoadPlan.reset (plan : ElfLoadPlan) : ElfLoadPlan where
  entry := plan.entry
  physBase := 0xFFFFFFFFFFFFFFFF
  physEnd := 0
  segs := []
  nsegs_le := Nat.zero_le _

/-- Accept one more segment: `plan->nsegs++` and the span update. -/
def ElfLoadPlan.push (plan : ElfLoadPlan) (seg : ElfSegment)
    (h : plan.segs.length ≠ elfMaxSegments) : ElfLoadPlan where
  entry := plan.entry
  physBase := if seg.pageBase < plan.physBase then seg.pageBase else plan.physBase
  physEnd := if seg.pageEnd > plan.physEnd then seg.pageEnd else plan.physEnd
  segs := plan.segs ++ [seg]
  nsegs_le := by
    have := plan.nsegs_le
    rw [List.length_append, List.length_singleton]
    omega

/-- The checks on the ELF header and the program header table, in order: the
    status of the first that fails, or `none`. -/
def checkEhdr (eh : Elf64Ehdr) (fsize : UInt64) : Option ElfStatus :=
  if eh.eMagic ≠ elfMagic then some .errMagic
  else if eh.eClass ≠ elfClass64 then some .errClass
  else if eh.eData ≠ elfData2Lsb then some .errEndian
  else if eh.eIversion ≠ evCurrent ∨ eh.eVersion ≠ evCurrent.toUInt32 then some .errVersion
  else if eh.eMachine ≠ emX8664 then some .errMachine
  else if eh.eType ≠ etExec then some .errType
  else if eh.eEhsize ≠ sizeofElf64Ehdr.toUInt16 then some .errEhsize
  else if eh.ePhentsize ≠ sizeofElf64Phdr.toUInt16 then some .errPhentsize
  else if eh.ePhnum = 0 then some .errNoSegments
  else
    let phtBytes := eh.ePhnum.toUInt64 * sizeofElf64Phdr
    match addOk eh.ePhoff phtBytes with
    | none => some .errPhdrBounds
    | some phtEnd => if phtEnd > fsize then some .errPhdrBounds else none

/-- The structural policy on one `PT_LOAD` header, checked even when it is empty. -/
def checkLoad (ph : Elf64Phdr) : Option ElfStatus :=
  if ph.pFilesz > ph.pMemsz then some .errSegSizes
  else if ph.pAlign > 1 ∧ (!powerOfTwo ph.pAlign ∨
      (ph.pVaddr - ph.pOffset) &&& (ph.pAlign - 1) ≠ 0) then some .errSegAlign
  else if ph.pVaddr ≠ ph.pPaddr then some .errSegVaddr
  else if ph.pFlags &&& ~~~(pfR ||| pfW ||| pfX) ≠ 0 ∨
      ph.pFlags &&& (pfW ||| pfX) = (pfW ||| pfX) then some .errSegFlags
  else none

/-- `if (!add_ok(a, b, &out)) return ELF_ERR_SEG_OVERFLOW;` -/
def addOrOverflow (a b : UInt64) : Except ElfStatus UInt64 :=
  match addOk a b with
  | none => .error .errSegOverflow
  | some c => .ok c

/-- The file and memory ranges of one non-empty `PT_LOAD`, as a plan segment. -/
def planSegment (fsize : UInt64) (ph : Elf64Phdr) : Except ElfStatus ElfSegment := do
  let fileEnd ← addOrOverflow ph.pOffset ph.pFilesz
  if fileEnd > fsize then .error .errSegBounds
  else
    let memEnd ← addOrOverflow ph.pPaddr ph.pMemsz
    let pageEnd ← addOrOverflow memEnd elfPageMask
    .ok { paddr := ph.pPaddr
          pageBase := ph.pPaddr &&& ~~~elfPageMask
          pageEnd := pageEnd &&& ~~~elfPageMask
          offset := ph.pOffset
          filesz := ph.pFilesz
          memsz := ph.pMemsz
          flags := ph.pFlags }

/-- The page-granular overlap test between a new segment and an accepted one. -/
def segOverlap (seg o : ElfSegment) : Bool :=
  seg.pageBase < o.pageEnd ∧ o.pageBase < seg.pageEnd

/-- The body of the `PT_LOAD` loop: the new plan, or the status returned. -/
def planPhdr (fsize : UInt64) (ph : Elf64Phdr) (plan : ElfLoadPlan) :
    Except ElfStatus ElfLoadPlan :=
  if ph.pType ≠ ptLoad then .ok plan
  else match checkLoad ph with
    | some st => .error st
    | none =>
      if ph.pMemsz = 0 then .ok plan
      else if h : plan.segs.length = elfMaxSegments then .error .errTooManySegs
      else match planSegment fsize ph with
        | .error st => .error st
        | .ok seg =>
          if plan.segs.any (segOverlap seg) then .error .errSegOverlap
          else .ok (plan.push seg h)

/-- The `PT_LOAD` loop from header `i` on, with `n` headers left. -/
def planPhdrs (fsize : UInt64) (pht : ℕ) :
    (n i : ℕ) → ElfLoadPlan → StateM Ram (ElfStatus × ElfLoadPlan)
  | 0, _, plan => pure (.ok, plan)
  | n + 1, i, plan => do
    let ph ← readWith Elf64Phdr.at (pht + 56 * i) 56
    match planPhdr fsize ph plan with
    | .error st => pure (st, plan)
    | .ok plan => planPhdrs fsize pht n (i + 1) plan

/-- The entry-point loop. -/
def checkEntry (entry : UInt64) : List ElfSegment → ElfStatus
  | [] => .errEntry
  | s :: rest =>
    -- Defensive repeat of the earlier proof.
    match addOk s.paddr s.filesz with
    | none => .errSegOverflow
    | some fileEnd =>
      if s.flags &&& pfX ≠ 0 ∧ entry ≥ s.paddr ∧ entry < fileEnd then .ok
      else checkEntry entry rest

/-- The checks on the finished plan, ending with the entry point. -/
def finishPlan (eEntry : UInt64) (plan : ElfLoadPlan) : ElfStatus × ElfLoadPlan :=
  if plan.segs = [] then (.errNoSegments, plan)
  else if plan.physEnd - plan.physBase > elfMaxKernelSpan then (.errTooBig, plan)
  else (checkEntry eEntry plan.segs, { plan with entry := eEntry })

/-- `elf_plan_load`. -/
def elfPlanLoad (file : ℕ) (fsize : UInt64) (plan : ElfLoadPlan) :
    StateM Ram (ElfStatus × ElfLoadPlan) :=
  if fsize < sizeofElf64Ehdr then pure (.errTruncated, plan.reset)
  else do
    let eh ← readWith Elf64Ehdr.at file 64
    match checkEhdr eh fsize with
    | some st => pure (st, plan.reset)
    | none => do
      let r ← planPhdrs fsize (file + eh.ePhoff.toNat) eh.ePhnum.toNat 0 plan.reset
      if r.1 = .ok then pure (finishPlan eh.eEntry r.2) else pure r

end Sypas
