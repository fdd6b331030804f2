import Sypas.Loader.ElfBounds
import Sypas.Loader.Firmware
import Sypas.Loader.MapAccept

/-!
# Loading the kernel (`bootloader/uefi/main.c`)

`load_kernel_elf` executes an accepted plan: for each segment it allocates the pages,
clears them and copies the file data over them. Since no two segments share a page and
every segment's data fits its pages, no segment disturbs another, in whatever order the
program header table lists them.

## Main definitions

- `Sypas.loadKernelElf` — the validator followed by the loading loop
- `Sypas.Loaded` — memory with the segments of a plan in place
- `Sypas.PermutesTable` — two files that differ in the order of their program headers

## Main results

- `Sypas.loadSegments_loaded` — what the loop leaves in memory
- `Sypas.loadKernelElf_realises` — an accepted file is loaded, in any order of its table
-/

namespace Sypas

open Ram

/-- The loop of `load_kernel_elf` from segment `i` on: the texts that `die` prints, if it
    stops. `alloc` answers the calls of `AllocatePages(AllocateAddress)`, given their
    number, the address and the number of pages. -/
def loadSegments (file : ℕ) (alloc : ℕ → UInt64 → UInt64 → UInt64) :
    ℕ → List ElfSegment → StateM Ram (Option (List String))
  | _, [] => pure none
  | i, seg :: rest =>
    let st := alloc i seg.pageBase ((seg.pageEnd - seg.pageBase) / efiPageSize)
    if efiError st then
      pure (some (die ("kernel load address is occupied " ++
        "(SYPAS v1 requires its fixed physical base to be free)") st))
    else do
      fillUp seg.pageBase.toNat 0 (seg.pageEnd - seg.pageBase).toNat
      copyUp seg.paddr.toNat (file + seg.offset.toNat) seg.filesz.toNat
      loadSegments file alloc (i + 1) rest

/-- `load_kernel_elf`: the entry point and the plan, or the texts that `die` prints. -/
def loadKernelElf (file : ℕ) (fsize : UInt64) (plan : ElfLoadPlan)
    (alloc : ℕ → UInt64 → UInt64 → UInt64) :
    StateM Ram (Except (List String) (UInt64 × ElfLoadPlan)) := do
  let r ← elfPlanLoad file fsize plan
  if r.1 ≠ .ok then
    pure (.error (dieAscii "kernel image rejected" (elfStatusStr r.1) efiLoadError))
  else do
    let died ← loadSegments file alloc 0 r.2.segs
    match died with
    | some texts => pure (.error texts)
    | none => pure (.ok (r.2.entry, r.2))

/-! ## One segment -/

/-- The byte that belongs at address `a` of a segment: file data, or zero. -/
def ElfSegment.byteAt (seg : ElfSegment) (mem : ℕ → UInt8) (file a : ℕ) : UInt8 :=
  if seg.paddr.toNat ≤ a ∧ a < seg.paddr.toNat + seg.filesz.toNat then
    mem (file + seg.offset.toNat + (a - seg.paddr.toNat))
  else 0

/-- The segment's data comes from the file and fits its pages, which are not where the
    file is. -/
structure ElfSegment.Fits (seg : ElfSegment) (file fsize : ℕ) : Prop where
  base_le : seg.pageBase.toNat ≤ seg.paddr.toNat
  le_end : seg.paddr.toNat + seg.filesz.toNat ≤ seg.pageEnd.toNat
  data : seg.offset.toNat + seg.filesz.toNat ≤ fsize
  elsewhere : seg.pageEnd.toNat ≤ file ∨ file + fsize ≤ seg.pageBase.toNat

variable {file fsize : ℕ}

/-- Clearing the pages and copying the data puts one segment in place. -/
theorem ElfSegment.Fits.place_mem {seg : ElfSegment} (h : seg.Fits file fsize) (s : Ram) (a : ℕ) :
    (copyUp seg.paddr.toNat (file + seg.offset.toNat) seg.filesz.toNat
      (fillUp seg.pageBase.toNat 0 (seg.pageEnd - seg.pageBase).toNat s).2).2.mem a =
      if seg.Has a then seg.byteAt s.mem file a else s.mem a := by
  obtain ⟨hbase, hend, hdata, helse⟩ := h
  have hlen : (seg.pageEnd - seg.pageBase).toNat = seg.pageEnd.toNat - seg.pageBase.toNat :=
    UInt64.toNat_sub_of_le _ _ (UInt64.le_iff_toNat_le.2 (by omega))
  rw [copyUp_mem _ _ _ _ (by omega), fillUp_mem, hlen, blit, ElfSegment.byteAt]
  by_cases hcopied : seg.paddr.toNat ≤ a ∧ a < seg.paddr.toNat + seg.filesz.toNat
  · -- the source byte is in the file buffer, which was not cleared
    have hin : seg.Has a := ⟨by omega, by omega⟩
    rw [if_pos hcopied, if_neg (by omega), if_pos hin, if_pos hcopied]
  · rw [if_neg hcopied, if_neg hcopied]
    by_cases hin : seg.Has a
    · rw [if_pos hin, if_pos ⟨hin.1, by have := hin.2; omega⟩]
    · rw [if_neg hin, if_neg fun h => hin ⟨h.1, by omega⟩]

/-! ## All segments -/

/-- From `mem` to `mem'` the segments have been put in place, and nothing else changed. -/
structure Loaded (mem mem' : ℕ → UInt8) (file : ℕ) (segs : List ElfSegment) : Prop where
  inside : ∀ seg ∈ segs, ∀ a, seg.Has a → mem' a = seg.byteAt mem file a
  outside : ∀ a, ¬InSegment segs a → mem' a = mem a

/-- `AllocatePages` succeeds for each segment, called in this order. -/
def Granted (alloc : ℕ → UInt64 → UInt64 → UInt64) (i : ℕ) (segs : List ElfSegment) : Prop :=
  ∀ k seg, segs[k]? = some seg →
    efiError (alloc (i + k) seg.pageBase ((seg.pageEnd - seg.pageBase) / efiPageSize)) = false

/-- The loop puts disjoint segments in place, each without disturbing the others. -/
theorem loadSegments_loaded {segs : List ElfSegment} {alloc : ℕ → UInt64 → UInt64 → UInt64} {i : ℕ}
    (hapart : SegmentsApart segs) (hfits : ∀ seg ∈ segs, seg.Fits file fsize)
    (hgrant : Granted alloc i segs) (s : Ram) :
    (loadSegments file alloc i segs s).1 = none ∧
    Loaded s.mem (loadSegments file alloc i segs s).2.mem file segs := by
  induction segs generalizing i s with
  | nil => exact ⟨rfl, fun _ h => absurd h List.not_mem_nil, fun _ _ => rfl⟩
  | cons seg rest ih =>
    have hok := hgrant 0 seg rfl
    rw [Nat.add_zero] at hok
    obtain ⟨hhead, hrest⟩ := List.pairwise_cons.1 hapart
    have hseg := hfits seg List.mem_cons_self
    set s₁ : Ram := (copyUp seg.paddr.toNat (file + seg.offset.toNat) seg.filesz.toNat
      (fillUp seg.pageBase.toNat 0 (seg.pageEnd - seg.pageBase).toNat s).2).2 with hs₁
    have hrun : loadSegments file alloc i (seg :: rest) s =
        loadSegments file alloc (i + 1) rest s₁ := by
      rw [loadSegments, hok, if_neg Bool.false_ne_true, hs₁]
      simp only [Prog.bind_run]
    have hplace : ∀ a, s₁.mem a = if seg.Has a then seg.byteAt s.mem file a else s.mem a :=
      fun a => hs₁ ▸ hseg.place_mem s a
    -- the rest runs on a memory that holds the first segment already
    obtain ⟨hnone, hin, hout⟩ := ih (i := i + 1) hrest
      (fun seg' h => hfits seg' (List.mem_cons_of_mem _ h))
      (fun k seg' hk => by
        have hnext := hgrant (k + 1) seg' hk
        rwa [← Nat.add_assoc, Nat.add_right_comm] at hnext) s₁
    rw [hrun]
    refine ⟨hnone, fun seg' hmem a ha => ?_, fun a ha => ?_⟩
    · obtain rfl | hmem := List.mem_cons.1 hmem
      -- no later segment has a byte of the first
      · rw [hout a, hplace a, if_pos ha]
        rintro ⟨seg', hseg', ha'⟩
        exact hhead seg' hseg' a ha ha'
      · rw [hin seg' hmem a ha]
        have hdata := (hfits seg' (List.mem_cons_of_mem _ hmem)).data
        have helse := hseg.elsewhere
        unfold ElfSegment.byteAt
        by_cases hcopied : seg'.paddr.toNat ≤ a ∧ a < seg'.paddr.toNat + seg'.filesz.toNat
        · -- the file buffer is as it was
          rw [if_pos hcopied, if_pos hcopied, hplace, if_neg]
          unfold ElfSegment.Has
          omega
        · rw [if_neg hcopied, if_neg hcopied]
    · have hno : ¬seg.Has a := fun h => ha ⟨seg, List.mem_cons_self, h⟩
      rw [hout a fun ⟨seg', hmem, h⟩ => ha ⟨seg', List.mem_cons_of_mem _ hmem, h⟩, hplace,
        if_neg hno]

/-! ## Accepted files -/

/-- The pages of a segment are not where the file is. -/
def ElfSegment.Elsewhere (seg : ElfSegment) (file fsize : ℕ) : Prop :=
  seg.pageEnd.toNat ≤ file ∨ file + fsize ≤ seg.pageBase.toNat

instance (seg : ElfSegment) (file fsize : ℕ) : Decidable (seg.Elsewhere file fsize) :=
  inferInstanceAs (Decidable (_ ∨ _))

section Accepted

variable {eh : Elf64Ehdr} {phs : List Elf64Phdr} {size : UInt64}

theorem loadSegment_has {ph : Elf64Phdr} (hrange : LoadRange size ph) (a : ℕ) :
    (loadSegment ph).Has a ↔ ph.firstPage ≤ a ∧ a < ph.lastPage := by
  rw [ElfSegment.Has, toNat_loadSegment_pageBase, toNat_loadSegment_pageEnd hrange]

/-- The segments of an accepted file share no page, … -/
theorem SypasV1.segmentsApart (h : SypasV1 eh phs size) :
    SegmentsApart ((segmentHeaders phs).map loadSegment) := by
  refine List.pairwise_map.2 (h.disjoint.imp_of_mem fun {p q} hp hq hpq a hap haq => ?_)
  rw [loadSegment_has (h.range p hp)] at hap
  rw [loadSegment_has (h.range q hq)] at haq
  unfold PagesDisjoint at hpq
  omega

/-- … and their data lies in the file and in their pages. -/
theorem SypasV1.fits (h : SypasV1 eh phs size) {ph : Elf64Phdr} (hph : ph ∈ segmentHeaders phs)
    (helse : (loadSegment ph).Elsewhere file size.toNat) :
    (loadSegment ph).Fits file size.toNat := by
  have hrange := h.range ph hph
  obtain ⟨hmem, hseg⟩ := mem_segmentHeaders.1 hph
  have hsizes := (h.policy ph hmem hseg.1).filesz_le
  have hfile := hrange.file
  refine ⟨?_, ?_, hfile, helse⟩
  · rw [toNat_loadSegment_pageBase]
    exact Nat.div_mul_le_self _ _
  · rw [toNat_loadSegment_pageEnd hrange]
    dsimp only [loadSegment]
    unfold Elf64Phdr.lastPage pageCeil
    omega

/-- The format does not depend on the order of the headers. -/
theorem SypasV1.perm {phs' : List Elf64Phdr} (h : SypasV1 eh phs size) (hperm : phs.Perm phs') :
    SypasV1 eh phs' size := by
  have hsegs : (segmentHeaders phs).Perm (segmentHeaders phs') := hperm.filter _
  have hmem : ∀ {ph}, ph ∈ segmentHeaders phs' → ph ∈ segmentHeaders phs := hsegs.mem_iff.2
  obtain ⟨ph, hph, hentry⟩ := h.entry
  exact
    { size := h.size
      header := h.header
      policy := fun ph hph => h.policy ph (hperm.mem_iff.2 hph)
      range := fun ph hph => h.range ph (hmem hph)
      some_segment := hsegs.length_eq ▸ h.some_segment
      max_segments := hsegs.length_eq ▸ h.max_segments
      disjoint := hsegs.pairwise h.disjoint fun hpq => Or.symm hpq
      span := fun p hp q hq => h.span p (hmem hp) q (hmem hq)
      entry := ⟨ph, hsegs.mem_iff.1 hph, hentry⟩ }

end Accepted

/-! ## The whole function -/

/-- The header of the file at `file`, and its program headers. -/
def headersAt (mem : ℕ → UInt8) (file : ℕ) : List Elf64Phdr :=
  phdrsAt mem (file + (Elf64Ehdr.at mem file).ePhoff.toNat) (Elf64Ehdr.at mem file).ePhnum.toNat

/-- The segments that an accepted file has loaded. -/
def fileSegments (mem : ℕ → UInt8) (file : ℕ) : List ElfSegment :=
  (segmentHeaders (headersAt mem file)).map loadSegment

/-- What an accepted file's loading does, when its pages are granted. -/
theorem loadKernelElf_run {fsize : UInt64} (plan : ElfLoadPlan)
    {alloc : ℕ → UInt64 → UInt64 → UInt64} {s : Ram}
    (hformat : SypasV1 (Elf64Ehdr.at s.mem file) (headersAt s.mem file) fsize)
    (helse : ∀ seg ∈ fileSegments s.mem file, seg.Elsewhere file fsize.toNat)
    (hgrant : Granted alloc 0 (fileSegments s.mem file)) :
    (∃ plan', (loadKernelElf file fsize plan alloc s).1 =
        .ok ((Elf64Ehdr.at s.mem file).eEntry, plan') ∧ plan'.segs = fileSegments s.mem file) ∧
    Loaded s.mem (loadKernelElf file fsize plan alloc s).2.mem file (fileSegments s.mem file) := by
  obtain ⟨hiff, hplan⟩ := planFile_accepts (Elf64Ehdr.at s.mem file) (headersAt s.mem file) fsize
    plan
  have hok := hiff.2 hformat
  obtain ⟨hlists, hentry⟩ := hplan hok
  rw [headersAt, ← elfPlanLoad_run] at hok hlists hentry
  have hsegs : (elfPlanLoad file fsize plan s).1.2.segs = fileSegments s.mem file := hlists.segs
  have hmem := elfPlanLoad_mem file fsize plan s
  have hfits : ∀ seg ∈ fileSegments s.mem file, seg.Fits file fsize.toNat := by
    intro seg hseg
    have helse' := helse seg hseg
    obtain ⟨ph, hph, rfl⟩ := List.mem_map.1 hseg
    exact hformat.fits hph helse'
  have hapart : SegmentsApart (fileSegments s.mem file) := hformat.segmentsApart
  obtain ⟨hnone, hloaded⟩ :=
    loadSegments_loaded hapart hfits hgrant (elfPlanLoad file fsize plan s).2
  rw [hmem] at hloaded
  unfold loadKernelElf
  simp only [Prog.bind_run]
  rw [if_neg (not_not.2 hok)]
  simp only [Prog.bind_run]
  rw [hsegs]
  generalize loadSegments file alloc 0 (fileSegments s.mem file) (elfPlanLoad file fsize plan s).2 =
    r at hnone hloaded
  obtain ⟨died, s'⟩ := r
  subst hnone
  exact ⟨⟨_, by rw [← hentry]; rfl, hsegs⟩, hloaded⟩

/-- Address `a` is in the program header table. -/
def InTable (mem : ℕ → UInt8) (file a : ℕ) : Prop :=
  file + (Elf64Ehdr.at mem file).ePhoff.toNat ≤ a ∧
    a < file + (Elf64Ehdr.at mem file).ePhoff.toNat + 56 * (Elf64Ehdr.at mem file).ePhnum.toNat

/-- `mem'` holds the file of `mem` with its program headers in another order. -/
structure PermutesTable (file : ℕ) (mem mem' : ℕ → UInt8) : Prop where
  outside : ∀ a, ¬InTable mem file a → mem' a = mem a
  perm : (headersAt mem file).Perm (phdrsAt mem' (file + (Elf64Ehdr.at mem file).ePhoff.toNat)
    (Elf64Ehdr.at mem file).ePhnum.toNat)

/-- Address `a` of a segment is loaded from a byte of the program header table. -/
def FromTable (mem : ℕ → UInt8) (file a : ℕ) : Prop :=
  ∃ seg ∈ fileSegments mem file, seg.paddr.toNat ≤ a ∧ a < seg.paddr.toNat + seg.filesz.toNat ∧
    InTable mem file (file + seg.offset.toNat + (a - seg.paddr.toNat))

section Permuted

variable {mem mem' : ℕ → UInt8}

/-- A table that starts behind the ELF header may be permuted without changing the header. -/
theorem PermutesTable.header_eq (h : PermutesTable file mem mem')
    (hbehind : 64 ≤ (Elf64Ehdr.at mem file).ePhoff.toNat) :
    Elf64Ehdr.at mem' file = Elf64Ehdr.at mem file := by
  apply Elf64Ehdr.at_congr
  intro b _ hb
  exact h.outside b fun hin => absurd hin.1 (by omega)

/-- With the same ELF header, the headers of the permuted file are the same in another order. -/
theorem PermutesTable.headers (h : PermutesTable file mem mem')
    (hheader : Elf64Ehdr.at mem' file = Elf64Ehdr.at mem file) :
    (headersAt mem file).Perm (headersAt mem' file) := by
  rw [headersAt, headersAt, hheader]
  exact h.perm

/-- What is loaded does not depend on the order of the segments. -/
theorem Loaded.perm {after : ℕ → UInt8} {segs segs' : List ElfSegment}
    (h : Loaded mem after file segs) (hperm : segs.Perm segs') : Loaded mem after file segs' where
  inside := fun seg hseg => h.inside seg (hperm.mem_iff.2 hseg)
  outside := fun a ha => h.outside a fun ⟨seg, hseg, hhas⟩ => ha ⟨seg, hperm.mem_iff.1 hseg, hhas⟩

/-- Loading the permuted file gives the same memory, but for the table itself and for what is
    loaded from it. -/
theorem PermutesTable.loaded_eq (h : PermutesTable file mem mem')
    {after after' : ℕ → UInt8} (hloaded : Loaded mem after file (fileSegments mem file))
    (hloaded' : Loaded mem' after' file (fileSegments mem file)) {a : ℕ}
    (ha : ¬InTable mem file a) (hfrom : ¬FromTable mem file a) : after' a = after a := by
  by_cases hin : InSegment (fileSegments mem file) a
  · obtain ⟨seg, hseg, hhas⟩ := hin
    rw [hloaded.inside seg hseg a hhas, hloaded'.inside seg hseg a hhas]
    unfold ElfSegment.byteAt
    by_cases hcopied : seg.paddr.toNat ≤ a ∧ a < seg.paddr.toNat + seg.filesz.toNat
    · rw [if_pos hcopied, if_pos hcopied]
      exact h.outside _ fun htable => hfrom ⟨seg, hseg, hcopied.1, hcopied.2, htable⟩
    · rw [if_neg hcopied, if_neg hcopied]
  · rw [hloaded.outside a hin, hloaded'.outside a hin]
    exact h.outside a ha

end Permuted

/-- Loading an accepted file whose pages are granted outside the file buffer: every byte of
    a segment's pages is file data or zero, every other byte is unchanged, and the entry
    point is returned. The program header table may be permuted, as long as the ELF header stays
    the same: the same segments are put in place and the same entry point is returned, and
    the memory is the same but for the table itself and for what is loaded from it. -/
theorem loadKernelElf_realises {fsize : UInt64} {plan : ElfLoadPlan}
    {alloc : ℕ → UInt64 → UInt64 → UInt64} {s : Ram}
    (haccept : (elfPlanLoad file fsize plan s).1.1 = .ok)
    (helse : ∀ seg ∈ (elfPlanLoad file fsize plan s).1.2.segs, seg.Elsewhere file fsize.toNat)
    (hgrant : Granted alloc 0 (elfPlanLoad file fsize plan s).1.2.segs) :
    (∃ plan', (loadKernelElf file fsize plan alloc s).1 =
        .ok ((Elf64Ehdr.at s.mem file).eEntry, plan') ∧
      plan'.segs = (elfPlanLoad file fsize plan s).1.2.segs) ∧
    Loaded s.mem (loadKernelElf file fsize plan alloc s).2.mem file
      (elfPlanLoad file fsize plan s).1.2.segs ∧
    ∀ (s' : Ram) (alloc' : ℕ → UInt64 → UInt64 → UInt64), PermutesTable file s.mem s'.mem →
      Elf64Ehdr.at s'.mem file = Elf64Ehdr.at s.mem file →
      Granted alloc' 0 (elfPlanLoad file fsize plan s').1.2.segs →
      (∃ plan', (loadKernelElf file fsize plan alloc' s').1 =
        .ok ((Elf64Ehdr.at s.mem file).eEntry, plan')) ∧
      Loaded s'.mem (loadKernelElf file fsize plan alloc' s').2.mem file
        (elfPlanLoad file fsize plan s).1.2.segs ∧
      ∀ a, ¬InTable s.mem file a → ¬FromTable s.mem file a →
        (loadKernelElf file fsize plan alloc' s').2.mem a =
          (loadKernelElf file fsize plan alloc s).2.mem a := by
  have hsegs : ∀ t : Ram, SypasV1 (Elf64Ehdr.at t.mem file) (headersAt t.mem file) fsize →
      (elfPlanLoad file fsize plan t).1.2.segs = fileSegments t.mem file := by
    intro t hformat
    obtain ⟨hiff, hplan⟩ := planFile_accepts (Elf64Ehdr.at t.mem file) (headersAt t.mem file)
      fsize plan
    rw [elfPlanLoad_run]
    exact (hplan (hiff.2 hformat)).1.segs
  have hformat : SypasV1 (Elf64Ehdr.at s.mem file) (headersAt s.mem file) fsize := by
    rw [elfPlanLoad_run] at haccept
    exact (planFile_accepts _ _ _ _).1.1 haccept
  rw [hsegs s hformat] at helse hgrant ⊢
  obtain ⟨hresult, hloaded⟩ := loadKernelElf_run plan hformat helse hgrant
  refine ⟨hresult, hloaded, fun s' alloc' hperm heh hgrant' => ?_⟩
  have hheaders := hperm.headers heh
  have hformat' : SypasV1 (Elf64Ehdr.at s'.mem file) (headersAt s'.mem file) fsize :=
    heh ▸ hformat.perm hheaders
  have hsegments : (fileSegments s.mem file).Perm (fileSegments s'.mem file) :=
    (hheaders.filter _).map loadSegment
  rw [hsegs s' hformat'] at hgrant'
  have helse' : ∀ seg ∈ fileSegments s'.mem file, seg.Elsewhere file fsize.toNat := fun seg hseg =>
    helse seg (hsegments.mem_iff.2 hseg)
  obtain ⟨⟨plan', hrun, -⟩, hloaded'⟩ := loadKernelElf_run plan hformat' helse' hgrant'
  rw [heh] at hrun
  have hsame := hloaded'.perm hsegments.symm
  exact ⟨⟨plan', hrun⟩, hsame, fun a ha hfrom => hperm.loaded_eq hloaded hsame ha hfrom⟩

/-! ## Two files that differ in the order of their program headers -/

/-- The program headers of a code segment at 4 MiB, with `filesz` bytes of data at
    `offset`, and of a cleared page. -/
def codeHeader (offset filesz : ℕ) : List UInt8 :=
  bytesAt (Ram.image [(0, 4, 1), (4, 4, 5), (8, 8, offset), (16, 8, 0x400000), (24, 8, 0x400000),
    (32, 8, filesz), (40, 8, filesz), (48, 8, 1)]) 0 56

def bssHeader : List UInt8 :=
  bytesAt (Ram.image [(0, 4, 1), (4, 4, 6), (16, 8, 0x402000), (24, 8, 0x402000), (40, 8, 0x1000),
    (48, 8, 1)]) 0 56

/-- An ELF file whose program header table, at offset 64, has the two headers given. -/
def elfWithTable (first second : List UInt8) : Ram :=
  ⟨patch (Ram.image [(0, 4, 0x464C457F), (4, 1, 2), (5, 1, 1), (6, 1, 1), (16, 2, 2), (18, 2, 62),
    (20, 4, 1), (24, 8, 0x400000), (32, 8, 64), (52, 2, 64), (54, 2, 56), (56, 2, 2)]) 64
    (first ++ second), []⟩

/-- A table of two headers, at `off`, and the same table with the headers swapped. -/
theorem permutesTable_swap {base : ℕ → UInt8} {off : ℕ} {first second : List UInt8}
    {p q : Elf64Phdr} (hfirst : first.length = 56) (hsecond : second.length = 56)
    (hoff : (Elf64Ehdr.at (patch base off (first ++ second)) 0).ePhoff.toNat = off)
    (hnum : (Elf64Ehdr.at (patch base off (first ++ second)) 0).ePhnum = 2)
    (htable : phdrsAt (patch base off (first ++ second)) off 2 = [p, q])
    (htable' : phdrsAt (patch base off (second ++ first)) off 2 = [q, p]) :
    PermutesTable 0 (patch base off (first ++ second)) (patch base off (second ++ first)) where
  outside := by
    intro a ha
    unfold InTable at ha
    rw [hoff, hnum, Nat.zero_add] at ha
    change ¬(off ≤ a ∧ a < off + 56 * 2) at ha
    have hlen : (first ++ second).length = 112 := by rw [List.length_append, hfirst, hsecond]
    have hlen' : (second ++ first).length = 112 := by rw [List.length_append, hfirst, hsecond]
    rw [patch, patch, hlen, hlen', if_neg (by omega), if_neg (by omega)]
  perm := by
    unfold headersAt
    rw [hoff, hnum, Nat.zero_add]
    change (phdrsAt (patch base off (first ++ second)) off 2).Perm
      (phdrsAt (patch base off (second ++ first)) off 2)
    rw [htable, htable']
    exact List.Perm.swap q p []

/-- `AllocatePages` that always succeeds. -/
def grantAll : ℕ → UInt64 → UInt64 → UInt64 := fun _ _ _ => 0

theorem grantAll_granted (segs : List ElfSegment) : Granted grantAll 0 segs := fun _ _ _ => rfl

def codeSegment (offset filesz : UInt64) : ElfSegment :=
  ⟨0x400000, 0x400000, 0x401000, offset, filesz, filesz, 5⟩

def bssSegment : ElfSegment := ⟨0x402000, 0x402000, 0x403000, 0, 0, 0x1000, 6⟩

/-- A segment whose data is the whole file, with the table, and the file with the headers
    swapped. -/
def overTable : Ram := elfWithTable (codeHeader 0 176) bssHeader
def overTableSwapped : Ram := elfWithTable bssHeader (codeHeader 0 176)

theorem overTable_ehdr : (Elf64Ehdr.at overTable.mem 0).ePhoff = 64 ∧
    (Elf64Ehdr.at overTable.mem 0).ePhnum = 2 := by
  decide +kernel

theorem overTable_permutes : PermutesTable 0 overTable.mem overTableSwapped.mem := by
  have htable : phdrsAt overTable.mem 64 2 =
      [Elf64Phdr.at overTable.mem 64, Elf64Phdr.at overTable.mem 120] := rfl
  have htable' : phdrsAt overTableSwapped.mem 64 2 =
      [Elf64Phdr.at overTable.mem 120, Elf64Phdr.at overTable.mem 64] := by decide +kernel
  have hoff : (Elf64Ehdr.at overTable.mem 0).ePhoff.toNat = 64 := by
    rw [overTable_ehdr.1]
    rfl
  have hnum := overTable_ehdr.2
  unfold overTable overTableSwapped elfWithTable at *
  exact permutesTable_swap (by decide) (by decide) hoff hnum htable htable'

theorem overTable_segments : fileSegments overTable.mem 0 = [codeSegment 0 176, bssSegment] := by
  decide +kernel

theorem overTable_plan : (elfPlanLoad 0 176 .empty overTable).1.1 = .ok ∧
    (elfPlanLoad 0 176 .empty overTable).1.2.segs = [codeSegment 0 176, bssSegment] := by
  decide +kernel

theorem overTable_elsewhere :
    ∀ seg ∈ (elfPlanLoad 0 176 .empty overTable).1.2.segs, seg.Elsewhere 0 176 := by
  rw [overTable_plan.2]
  decide

/-- The two headers may be swapped: only the copy of the table in the first segment's pages
    differs. -/
theorem overTable_realises :
    (∃ plan', (loadKernelElf 0 176 .empty grantAll overTableSwapped).1 =
      .ok (0x400000, plan')) ∧
    ∀ a, ¬(64 ≤ a ∧ a < 176) → ¬(0x400040 ≤ a ∧ a < 0x4000B0) →
      (loadKernelElf 0 176 .empty grantAll overTableSwapped).2.mem a =
        (loadKernelElf 0 176 .empty grantAll overTable).2.mem a := by
  obtain ⟨hoff, hnum⟩ := overTable_ehdr
  have htable : ∀ a, InTable overTable.mem 0 a ↔ 64 ≤ a ∧ a < 176 := fun a => by
    unfold InTable
    rw [hoff, hnum]
    rfl
  have hentry : (Elf64Ehdr.at overTable.mem 0).eEntry = 0x400000 := by decide +kernel
  have hheader := overTable_permutes.header_eq (by rw [hoff]; decide)
  obtain ⟨hresult, -, hmem⟩ := (loadKernelElf_realises overTable_plan.1 overTable_elsewhere
    (grantAll_granted _)).2.2 _ _ overTable_permutes hheader (grantAll_granted _)
  refine ⟨hentry ▸ hresult, fun a ha hcopy => hmem a (fun hin => ha ((htable a).1 hin)) ?_⟩
  rintro ⟨seg, hseg, hlo, hhi, hin⟩
  rw [overTable_segments, List.mem_pair] at hseg
  obtain rfl | rfl := hseg
  · have hcopied := (htable _).1 hin
    change 64 ≤ 0 + 0 + (a - 0x400000) ∧ 0 + 0 + (a - 0x400000) < 176 at hcopied
    change 0x400000 ≤ a at hlo
    omega
  · change a < 0x402000 + 0 at hhi
    change 0x402000 ≤ a at hlo
    omega

/-- The table is among the data of the first segment: both files are accepted and loaded, and
    the pages of that segment differ. -/
theorem overTable_differs :
    (loadKernelElf 0 176 .empty grantAll overTable).2.mem 0x400044 = 5 ∧
    (loadKernelElf 0 176 .empty grantAll overTableSwapped).2.mem 0x400044 = 6 := by
  have hok : (elfPlanLoad 0 176 .empty overTable).1.1 = .ok := overTable_plan.1
  have hok' : (elfPlanLoad 0 176 .empty overTableSwapped).1.1 = .ok := by decide +kernel
  have hsegs' : fileSegments overTableSwapped.mem 0 = [bssSegment, codeSegment 0 176] := by
    decide +kernel
  have hhas : (codeSegment 0 176).Has 0x400044 := by decide
  rw [elfPlanLoad_run] at hok hok'
  obtain ⟨-, hloaded⟩ := loadKernelElf_run .empty
    ((planFile_accepts _ _ _ _).1.1 hok) (by rw [overTable_segments]; decide) (grantAll_granted _)
  obtain ⟨-, hloaded'⟩ := loadKernelElf_run .empty
    ((planFile_accepts _ _ _ _).1.1 hok') (by rw [hsegs']; decide) (grantAll_granted _)
  rw [overTable_segments] at hloaded
  rw [hsegs'] at hloaded'
  constructor
  · rw [hloaded.inside _ (by simp) _ hhas]
    decide +kernel
  · rw [hloaded'.inside _ (by simp) _ hhas]
    decide +kernel

/-- A table at offset 8, whose first header, of type 0, is most of the ELF header; `first` and
    `second` are its two headers. -/
def elfInHeader (first second : List UInt8) : Ram :=
  ⟨patch (Ram.image [(0, 4, 0x464C457F), (4, 1, 2), (5, 1, 1), (6, 1, 1)]) 8 (first ++ second), []⟩

def innerHeader : List UInt8 :=
  bytesAt (Ram.image [(8, 2, 2), (10, 2, 62), (12, 4, 1), (16, 8, 0x400000), (24, 8, 8),
    (44, 2, 64), (46, 2, 56), (48, 2, 2)]) 0 56

def inHeader : Ram := elfInHeader innerHeader (codeHeader 120 16)
def inHeaderSwapped : Ram := elfInHeader (codeHeader 120 16) innerHeader

theorem inHeader_permutes : PermutesTable 0 inHeader.mem inHeaderSwapped.mem := by
  have htable : phdrsAt inHeader.mem 8 2 =
      [Elf64Phdr.at inHeader.mem 8, Elf64Phdr.at inHeader.mem 64] := rfl
  have htable' : phdrsAt inHeaderSwapped.mem 8 2 =
      [Elf64Phdr.at inHeader.mem 64, Elf64Phdr.at inHeader.mem 8] := by decide +kernel
  have hoff : (Elf64Ehdr.at inHeader.mem 0).ePhoff.toNat = 8 := by decide +kernel
  have hnum : (Elf64Ehdr.at inHeader.mem 0).ePhnum = 2 := by decide +kernel
  unfold inHeader inHeaderSwapped elfInHeader at *
  exact permutesTable_swap (by decide) (by decide) hoff hnum htable htable'

theorem inHeader_plan : (elfPlanLoad 0 136 .empty inHeader).1.1 = .ok ∧
    (∀ seg ∈ (elfPlanLoad 0 136 .empty inHeader).1.2.segs, seg.Elsewhere 0 136) := by
  decide +kernel

/-- With its headers swapped, the file has another ELF header and is rejected. -/
theorem inHeaderSwapped_rejected (r : UInt64 × ElfLoadPlan) :
    (loadKernelElf 0 136 .empty grantAll inHeaderSwapped).1 ≠ .ok r := by
  have hrejected : (elfPlanLoad 0 136 .empty inHeaderSwapped).1.1 ≠ .ok := by decide +kernel
  intro hr
  unfold loadKernelElf at hr
  rw [Prog.bind_run, if_pos hrejected] at hr
  cases hr

/-- The order of the headers matters where the table is loaded as data, and where it is part of
    the ELF header. -/
theorem swappedTable_matters :
    ((elfPlanLoad 0 176 .empty overTable).1.1 = .ok ∧
      (∀ seg ∈ (elfPlanLoad 0 176 .empty overTable).1.2.segs, seg.Elsewhere 0 176) ∧
      PermutesTable 0 overTable.mem overTableSwapped.mem ∧
      (loadKernelElf 0 176 .empty grantAll overTable).2.mem 0x400044 = 5 ∧
      (loadKernelElf 0 176 .empty grantAll overTableSwapped).2.mem 0x400044 = 6) ∧
    (elfPlanLoad 0 136 .empty inHeader).1.1 = .ok ∧
    (∀ seg ∈ (elfPlanLoad 0 136 .empty inHeader).1.2.segs, seg.Elsewhere 0 136) ∧
    PermutesTable 0 inHeader.mem inHeaderSwapped.mem ∧
    ∀ r, (loadKernelElf 0 136 .empty grantAll inHeaderSwapped).1 ≠ .ok r :=
  ⟨⟨overTable_plan.1, overTable_elsewhere, overTable_permutes, overTable_differs⟩,
    inHeader_plan.1, inHeader_plan.2, inHeader_permutes, inHeaderSwapped_rejected⟩

end Sypas
