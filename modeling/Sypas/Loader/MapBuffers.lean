import Sypas.Loader.Firmware
import Sypas.Loader.MapAccept

/-!
# The memory-map buffers (`bootloader/uefi/main.c`)

Before the handoff, `efi_main` allocates one range for the raw firmware map and,
behind it, the translated map. The sizes come from checked arithmetic on the size
and the stride that firmware reported. The raw map may later fill the whole
page-rounded buffer, so the output's capacity is compared with a bound on the number
of runs: one starts only where a descriptor starts or a segment starts or ends.

## Main definitions

- `Sypas.mapSizes` — one round of the growth loop's arithmetic

## Main results

- `Sypas.runs_ownership_le` — the number of runs that descriptors and segments make
- `Sypas.mapSizes_suffice` — the buffers hold what they are for
-/

namespace Sypas

open Extent

def mapSlackDescriptors : UInt64 := 32
def sizeofMemmapEntry : UInt64 := 24

/-- `MAP_ENTRIES_PER_DESCRIPTOR`. -/
def mapEntriesPerDescriptor : UInt64 := 2 * UInt64.ofNat elfMaxSegments + 1

/-- `pages_for_size`. -/
def pagesForSize (size : UInt64) : Option UInt64 := do
  let rounded ← addOk size (efiPageSize - 1)
  some (rounded / efiPageSize)

/-- What one round of the growth loop computes. -/
structure MapSizes where
  mapBytes : UInt64
  sypasCap : UInt64
  totalPages : UInt64
deriving DecidableEq, Repr

/-- The arithmetic of one round of the growth loop; `none` is its "memory map size
    arithmetic overflow". -/
def mapSizes (mmsize dsz : UInt64) : Option MapSizes :=
  if dsz = 0 then none
  else do
    let slack ← mulOk mapSlackDescriptors dsz
    let requested ← addOk mmsize slack
    let mmPages ← pagesForSize requested
    let mapBytes ← mulOk mmPages efiPageSize
    let rounded ← addOk requested (dsz - 1)
    let descriptorCapacity := rounded / dsz -- ceil(requested / descriptor size)
    let mapEntries ← mulOk descriptorCapacity mapEntriesPerDescriptor
    let sypasCap ← addOk mapEntries 16
    let sypasBytes ← mulOk sypasCap sizeofMemmapEntry
    let sypasPages ← pagesForSize sypasBytes
    let totalPages ← addOk mmPages sypasPages
    some { mapBytes, sypasCap, totalPages }

/-! ## The arithmetic -/

theorem pagesForSize_eq_some {size pages : UInt64} (h : pagesForSize size = some pages) :
    size.toNat ≤ 4096 * pages.toNat ∧ 4096 * pages.toNat < size.toNat + 4096 := by
  have hpage : efiPageSize.toNat = 4096 := rfl
  have hmask : (efiPageSize - 1).toNat = 4095 := by decide
  simp only [pagesForSize, Option.bind_eq_bind, Option.bind_eq_some_iff, Option.some.injEq,
    addOk_eq_some_iff] at h
  obtain ⟨rounded, ⟨-, hrounded⟩, rfl⟩ := h
  rw [UInt64.toNat_div, hrounded, hpage, hmask]
  omega

/-- What the checked arithmetic has established when it succeeds: the raw buffer is the
    requested size rounded up to pages, the capacity counts descriptors in that size. -/
theorem mapSizes_eq_some {mmsize dsz : UInt64} {sizes : MapSizes}
    (h : mapSizes mmsize dsz = some sizes) :
    ∃ requested descriptors : ℕ, requested = mmsize.toNat + 32 * dsz.toNat ∧
      descriptors = (requested + (dsz.toNat - 1)) / dsz.toNat ∧ 0 < dsz.toNat ∧
      requested ≤ sizes.mapBytes.toNat ∧ sizes.mapBytes.toNat < requested + 4096 ∧
      sizes.sypasCap.toNat = descriptors * 33 + 16 ∧
      sizes.mapBytes.toNat + 24 * sizes.sypasCap.toNat ≤ 4096 * sizes.totalPages.toNat := by
  have hslackd : mapSlackDescriptors.toNat = 32 := rfl
  have hpage : efiPageSize.toNat = 4096 := rfl
  have hper : mapEntriesPerDescriptor.toNat = 33 := by decide
  have hentry : sizeofMemmapEntry.toNat = 24 := rfl
  have h16 : (16 : UInt64).toNat = 16 := rfl
  unfold mapSizes at h
  by_cases hzero : dsz = 0
  · rw [if_pos hzero] at h
    cases h
  rw [if_neg hzero] at h
  have hpos : 0 < dsz.toNat := by
    rw [← UInt64.toNat_inj, UInt64.toNat_zero] at hzero
    omega
  have hpred : (dsz - 1).toNat = dsz.toNat - 1 :=
    UInt64.toNat_sub_of_le _ _ (UInt64.le_iff_toNat_le.2 hpos)
  simp only [Option.bind_eq_bind, Option.bind_eq_some_iff, Option.some.injEq, addOk_eq_some_iff,
    mulOk_eq_some_iff, hslackd, hpage, hper, hentry, h16, hpred, UInt64.toNat_div] at h
  obtain ⟨slack, ⟨-, hslack⟩, requested, ⟨-, hrequested⟩, mmPages, hmm, mapBytes, ⟨-, hbytes⟩,
    rounded, ⟨-, hrounded⟩, mapEntries, ⟨-, hentries⟩, sypasCap, ⟨-, hcap⟩, sypasBytes,
    ⟨-, hsypas⟩, sypasPages, hsp, totalPages, ⟨-, htotal⟩, rfl⟩ := h
  obtain ⟨hle, hlt⟩ := pagesForSize_eq_some hmm
  obtain ⟨hsle, -⟩ := pagesForSize_eq_some hsp
  refine ⟨requested.toNat, _, by omega, rfl, hpos, ?_, ?_, ?_, ?_⟩
  · dsimp only
    omega
  · dsimp only
    omega
  · dsimp only
    rw [hcap, hentries, hrounded]
  · dsimp only
    omega

/-! ## The number of runs -/

/-- The addresses at which descriptors start, and segments start and end. -/
def cuts (segs : List ElfSegment) (ds : List EfiMemoryDescriptor) : List ℕ :=
  (ds.map fun d => d.physicalStart.toNat) ++
    ((segs.map fun seg => seg.pageBase.toNat) ++ segs.map fun seg => seg.pageEnd.toNat)

theorem length_cuts (segs : List ElfSegment) (ds : List EfiMemoryDescriptor) :
    (cuts segs ds).length = ds.length + 2 * segs.length := by
  simp only [cuts, List.length_append, List.length_map]
  omega

/-- Where membership in the plan changes, a segment starts or ends. -/
theorem mem_cuts_of_inSegment_ne {segs : List ElfSegment} (ds : List EfiMemoryDescriptor) {a : ℕ}
    (h : ¬(InSegment segs a ↔ InSegment segs (a - 1))) : a ∈ cuts segs ds := by
  have hedge : ∀ seg : ElfSegment, ¬(seg.Has a ↔ seg.Has (a - 1)) →
      a = seg.pageBase.toNat ∨ a = seg.pageEnd.toNat := by
    intro seg hne
    unfold ElfSegment.Has at hne
    omega
  obtain ⟨seg, hseg, hne⟩ : ∃ seg ∈ segs, ¬(seg.Has a ↔ seg.Has (a - 1)) := by
    by_contra hall
    push Not at hall
    refine h ⟨?_, ?_⟩
    · rintro ⟨seg, hseg, hin⟩
      exact ⟨seg, hseg, (hall seg hseg).1 hin⟩
    · rintro ⟨seg, hseg, hin⟩
      exact ⟨seg, hseg, (hall seg hseg).2 hin⟩
  obtain heq | heq := hedge seg hne
  · exact List.mem_append_right _ (List.mem_append_left _ (List.mem_map.2 ⟨seg, hseg, heq.symm⟩))
  · exact List.mem_append_right _ (List.mem_append_right _ (List.mem_map.2 ⟨seg, hseg, heq.symm⟩))

/-- A run starts only at a cut. -/
theorem Walkable.runStart_mem_cuts {segs : List ElfSegment} {ds : List EfiMemoryDescriptor}
    (h : Walkable ds) {a : ℕ} (hrun : RunStart (ownership segs ds) a) : a ∈ cuts segs ds := by
  obtain ⟨t, ht⟩ := Option.ne_none_iff_exists'.1 hrun.1
  obtain ⟨d, hd, hin, htype⟩ := ownership_eq_some ht
  by_cases hstart : d.physicalStart.toNat = a
  · exact List.mem_append_left _ (List.mem_map.2 ⟨d, hd, hstart⟩)
  have hlt : d.physicalStart.toNat < a := lt_of_le_of_ne hin.1 hstart
  apply mem_cuts_of_inSegment_ne
  intro hiff
  -- the address below belongs to the same descriptor and has the same type
  have hbefore := h.ownership_eq segs hd (a := a - 1) ⟨by omega, by have := hin.2; omega⟩
  obtain hzero | hne := hrun.2
  · omega
  apply hne
  rw [ht, hbefore, ← htype]
  simp only [typeAt, hiff]

/-- Descriptors and segments make no more runs than there are cuts. -/
theorem runs_ownership_le {segs : List ElfSegment} {ds : List EfiMemoryDescriptor}
    (h : Walkable ds) (c : ℕ) :
    runs (ownership segs ds) c ≤ ds.length + 2 * segs.length := by
  rw [← length_cuts]
  refine (runs_le_card (cuts segs ds).toFinset fun a _ hrun => ?_).trans
    (List.toFinset_card_le _)
  exact List.mem_toFinset.2 (h.runStart_mem_cuts hrun)

/-! ## A full array -/

/-- The checks on one descriptor do not blame the output. -/
theorem checkDescriptor_status {a i : ℕ} {previousEnd : UInt64} {d : EfiMemoryDescriptor}
    {e : MapStatus × MapDiagnostic} (h : checkDescriptor a i previousEnd d = .error e) :
    e.1 ≠ .errOutputFull ∧ e.1 ≠ .errOutputOverflow := by
  unfold checkDescriptor at h
  repeat' split at h
  all_goals cases h
  all_goals exact ⟨by rintro ⟨⟩, by rintro ⟨⟩⟩

/-- A call does not blame the output unless it is full: then the runs of some walkable prefix of
    the sorted descriptors do not fit it. -/
theorem sypasTranslateMemoryMap_status {fuel efiMap : ℕ} {mapSize descriptorSize : UInt64}
    {kernel : ElfLoadPlan} {outCapacity outCount : UInt64} {s : Ram} {res : MapResult}
    (hr : (sypasTranslateMemoryMap fuel efiMap mapSize descriptorSize kernel outCapacity outCount
      s).1 = some res) :
    (res.status ≠ .errOutputFull ∧ res.status ≠ .errOutputOverflow) ∨
    res.status = .errOutputFull ∧
      ∃ ds c, Walkable ds ∧ ds.length ≤ mapSize.toNat / descriptorSize.toNat ∧
        outCapacity.toNat < runs (ownership kernel.segs ds) c := by
  by_cases hargs : MapArgs efiMap mapSize descriptorSize
  swap
  · rw [sypasTranslateMemoryMap_of_not_args _ _ _ _ _ _ _ _ hargs] at hr
    cases hr
    exact Or.inl ⟨by rintro ⟨⟩, by rintro ⟨⟩⟩
  have hlen : (sortByStart (inputDescriptors s.mem efiMap mapSize descriptorSize)).length =
      mapSize.toNat / descriptorSize.toNat := by
    rw [sortByStart, (StableSort.perm_sortBy _ _).length_eq, inputDescriptors, descriptorsAt,
      List.length_map, List.length_range, descriptorCount, UInt64.toNat_div]
  rw [sypasTranslateMemoryMap_run _ _ _ _ _ _ _ _ hargs, translateSorted] at hr
  generalize sortByStart (inputDescriptors s.mem efiMap mapSize descriptorSize) = ds at *
  cases hplan : expectedKernelBytes kernel.segs 0 with
  | error status =>
    obtain rfl := expectedKernelBytes_error hplan
    rw [hplan] at hr
    cases hr
    exact Or.inl ⟨by rintro ⟨⟩, by rintro ⟨⟩⟩
  | ok expected =>
    have hpaged := ((expectedKernelBytes_eq_ok_iff _ _ _).1 hplan).1
    rw [hplan] at hr
    dsimp only at hr
    rcases hloop : translateAll fuel kernel.segs outCapacity efiMap descriptorSize.toNat ds 0
        ⟨0, [], 0⟩ with - | (e | st)
    · rw [hloop] at hr
      cases hr
    · rw [hloop] at hr
      cases hr
      by_cases haligned : efiMap % 8 = 0
      · obtain ⟨mid, d, post, st, rfl, hwalked, hfail⟩ := translateAll_error hpaged haligned
          hargs.size_aligned (walked_nil kernel.segs outCapacity) hloop
        rw [List.nil_append] at hwalked hfail
        have ha := descriptor_aligned haligned hargs.size_aligned mid.length
        obtain hcheck | ⟨hstatus, hwalk, hroom⟩ := translateDescriptor_error hpaged hwalked ha hfail
        · exact Or.inl (checkDescriptor_status hcheck)
        · refine Or.inr ⟨hstatus, mid ++ [d], d.stop, hwalk, ?_, hroom⟩
          rw [← hlen]
          simp
      -- an unaligned buffer: the first descriptor is refused for that
      · cases ds with
        | nil => cases hloop
        | cons d rest =>
          rw [translateAll_unaligned haligned] at hloop
          cases hloop
          exact Or.inl ⟨by rintro ⟨⟩, by rintro ⟨⟩⟩
    · rw [hloop] at hr
      dsimp only at hr
      by_cases htagged : st.tagged ≠ expected
      · rw [if_pos htagged] at hr
        cases hr
        exact Or.inl ⟨by rintro ⟨⟩, by rintro ⟨⟩⟩
      · rw [if_neg htagged] at hr
        cases hr
        exact Or.inl ⟨by rintro ⟨⟩, by rintro ⟨⟩⟩

/-- When the array is reported full, the runs of some walkable prefix of the sorted
    descriptors do not fit it. -/
theorem sypasTranslateMemoryMap_full {fuel efiMap : ℕ} {mapSize descriptorSize : UInt64}
    {kernel : ElfLoadPlan} {outCapacity outCount : UInt64} {s : Ram} {res : MapResult}
    (hr : (sypasTranslateMemoryMap fuel efiMap mapSize descriptorSize kernel outCapacity outCount
      s).1 = some res) (hfull : res.status = .errOutputFull) :
    ∃ ds c, Walkable ds ∧ ds.length ≤ mapSize.toNat / descriptorSize.toNat ∧
      outCapacity.toNat < runs (ownership kernel.segs ds) c := by
  obtain hother | ⟨-, hruns⟩ := sypasTranslateMemoryMap_status hr
  · exact absurd hfull hother.1
  · exact hruns

/-- The capacity exceeds the runs of any map that fits the page-rounded raw buffer. -/
theorem capacity_suffices {requested dsz mapBytes n : ℕ} (hdsz : 40 ≤ dsz)
    (hslack : 32 * dsz ≤ requested) (hbytes : mapBytes < requested + 4096)
    (hn : n ≤ mapBytes / dsz) : n + 2 * 16 ≤ (requested + (dsz - 1)) / dsz * 33 + 16 := by
  set descriptors := (requested + (dsz - 1)) / dsz with hdescriptors
  have hpos : 0 < dsz := by omega
  have hceil : requested ≤ descriptors * dsz := by
    have h := Nat.lt_div_mul_add (a := requested + (dsz - 1)) hpos
    rw [← hdescriptors] at h
    omega
  have hmany : 32 ≤ descriptors := (Nat.le_div_iff_mul_le hpos).2 (by omega)
  have hfit : n * dsz ≤ mapBytes := (Nat.le_div_iff_mul_le hpos).1 hn
  by_contra hlt
  -- a page holds at most 102 descriptors more than were requested
  have hmore : (descriptors + 103) * dsz ≤ n * dsz := Nat.mul_le_mul_right _ (by omega)
  rw [Nat.add_mul] at hmore
  omega

/-- Whenever the growth loop's arithmetic succeeds, the raw buffer has the slack it asks
    for, both buffers lie one behind the other inside the allocation, and no translation
    of a map that fits the raw buffer is refused for lack of room. -/
theorem mapSizes_suffice {mmsize dsz : UInt64} {sizes : MapSizes} (hge : 40 ≤ dsz.toNat)
    (h : mapSizes mmsize dsz = some sizes) :
    mmsize.toNat + 32 * dsz.toNat ≤ sizes.mapBytes.toNat ∧
    sizes.mapBytes.toNat + 24 * sizes.sypasCap.toNat ≤ 4096 * sizes.totalPages.toNat ∧
    ∀ (fuel efiMap : ℕ) (mapSize : UInt64) (kernel : ElfLoadPlan) (outCount : UInt64) (s : Ram)
      (res : MapResult), mapSize.toNat ≤ sizes.mapBytes.toNat →
      (sypasTranslateMemoryMap fuel efiMap mapSize dsz kernel sizes.sypasCap outCount s).1 =
        some res → res.status ≠ .errOutputFull := by
  obtain ⟨requested, descriptors, rfl, rfl, -, hlow, hhigh, hcap, hfit⟩ := mapSizes_eq_some h
  refine ⟨hlow, hfit, fun fuel efiMap mapSize kernel outCount s res hsize hr hfull => ?_⟩
  obtain ⟨ds, c, hwalk, hlen, hroom⟩ := sypasTranslateMemoryMap_full hr hfull
  have hruns : runs (ownership kernel.segs ds) c ≤ _ := runs_ownership_le hwalk c
  have hsegs : kernel.segs.length ≤ 16 := kernel.nsegs_le
  have henough := capacity_suffices hge (by omega) hhigh
    (hlen.trans (Nat.div_le_div_right hsize))
  omega

/-- The sizes for a map of 1000 bytes with 48-byte descriptors. -/
theorem mapSizes_suffice_1000 :
    (1000 : UInt64).toNat + 32 * (48 : UInt64).toNat ≤ (4096 : UInt64).toNat ∧
    (4096 : UInt64).toNat + 24 * (1765 : UInt64).toNat ≤ 4096 * (12 : UInt64).toNat ∧
    ∀ (fuel efiMap : ℕ) (mapSize : UInt64) (kernel : ElfLoadPlan) (outCount : UInt64) (s : Ram)
      (res : MapResult), mapSize.toNat ≤ (4096 : UInt64).toNat →
      (sypasTranslateMemoryMap fuel efiMap mapSize 48 kernel 1765 outCount s).1 =
        some res → res.status ≠ .errOutputFull :=
  mapSizes_suffice (by decide)
    (show mapSizes 1000 48 = some ⟨4096, 1765, 12⟩ by decide)

end Sypas
