import Sypas.Loader.MapCorrect
import Sypas.Kernel.PmmBoot

/-!
# From the firmware map to the free pages

The loader's translator and the kernel's allocator share only the array of entries.
What the first one writes is in the form that the second one relies on, and the free
pages are conventional memory.

## Main definitions

- `Sypas.ConventionalPage` — a page of conventional memory
- `Sypas.NoAddressWrap` — the address computations of `pmm_init` are exact

## Main results

- `Sypas.IsOwnershipMap.loaderForm` — a translated map is in loader form
- `Sypas.handoff_free_pages` — the free pages after the handoff
-/

namespace Sypas

/-- Page `p` lies in a descriptor of conventional memory. -/
def ConventionalPage (ds : List EfiMemoryDescriptor) (p : ℕ) : Prop :=
  ∃ d ∈ ds, d.type = efiConventionalMemory ∧ ∀ k < 4096, d.Holds (4096 * p + k)

/-- The address computations of `pmm_init` give the values they have as natural numbers. -/
structure NoAddressWrap (map : List MemmapEntry) (st : Pmm) : Prop where
  stop : ∀ e ∈ map, (e.base + e.length).toNat = e.base.toNat + e.length.toNat
  first : ∀ e ∈ map, (e.base + (pageSize - 1)).toNat = e.base.toNat + 4095
  skip : ∀ e ∈ map, e.base < lowMemoryEnd → lowMemoryEnd - e.base < e.length →
    (e.base + (lowMemoryEnd - e.base)).toNat = 0x100000 ∧
      (e.length - (lowMemoryEnd - e.base)).toNat = e.stop - 0x100000
  bits : (st.highestPage + (8 - 1)).toNat = st.highestPage.toNat + 7
  byte : ∀ i : UInt64, i < st.bitmapBytes → (st.bitmap + i).toNat = st.bitmap.toNat + i.toNat
  last : (st.bitmap + st.bitmapBytes + (pageSize - 1)).toNat =
    st.bitmap.toNat + st.bitmapBytes.toNat + 4095

theorem efiToSypasMemtype_eq_usable_iff (type : UInt32) :
    efiToSypasMemtype type = sypasMemUsable ↔ type = efiConventionalMemory := by
  unfold efiToSypasMemtype
  constructor
  · intro h
    split at h
    · assumption
    · -- every other branch gives another type
      repeat' split at h
      all_goals exact absurd h (by decide)
  · intro h
    rw [if_pos h]

/-- A translated map is in the form that the allocator relies on. -/
theorem IsOwnershipMap.loaderForm {segs : List ElfSegment} {ds : List EfiMemoryDescriptor}
    {out : List MemmapEntry} (h : IsOwnershipMap segs ds out) : LoaderForm out where
  base_dvd := fun e he => Nat.dvd_of_mod_eq_zero (h.entries e he).1
  length_dvd := fun e he => Nat.dvd_of_mod_eq_zero (h.entries e he).2.1
  noWrap := fun e he => (h.entries e he).2.2.2.1
  disjoint := LoaderForm.disjoint_of_stops (h.ascending.imp Or.inl)

theorem Initialised.noAddressWrap {map : List MemmapEntry} {st : Pmm} (hmap : LoaderForm map)
    (h : Initialised map st) : NoAddressWrap map st := by
  have hlow : lowMemoryEnd.toNat = 0x100000 := rfl
  have hmask : (pageSize - 1).toNat = 4095 := by decide
  have hseven : ((8 : UInt64) - 1).toNat = 7 := rfl
  have hpages := st.pages_lt
  obtain ⟨e, he, -, -, -, hin⟩ := h.bitmap_inside
  have hstop := hmap.noWrap e he
  have hdvd := hmap.stop_dvd he
  refine ⟨fun e he => toNat_stop (hmap.noWrap e he), fun e he => ?_, fun e he hbelow hlong => ?_,
    ?_, fun i hi => ?_, ?_⟩
  · have hbase := hmap.base_dvd e he
    have hlt := e.base.toNat_lt
    rw [Word.toNat_add_of_lt (by omega), hmask]
  · rw [UInt64.lt_iff_toNat_lt, hlow] at hbelow
    have hskip : (lowMemoryEnd - e.base).toNat = 0x100000 - e.base.toNat := by
      rw [UInt64.toNat_sub_of_le _ _ (UInt64.le_iff_toNat_le.2 (by omega)), hlow]
    rw [UInt64.lt_iff_toNat_lt, hskip] at hlong
    constructor
    · rw [Word.toNat_add_of_lt (by omega), hskip]
      omega
    · rw [UInt64.toNat_sub_of_le _ _ (UInt64.le_iff_toNat_le.2 (by omega)), hskip]
      unfold MemmapEntry.stop
      omega
  · unfold Pmm.pages at hpages
    rw [Word.toNat_add_of_lt (by omega), hseven]
  · rw [UInt64.lt_iff_toNat_lt] at hi
    exact Word.toNat_add_of_lt (by omega)
  · have hsum : (st.bitmap + st.bitmapBytes).toNat = st.bitmap.toNat + st.bitmapBytes.toNat :=
      Word.toNat_add_of_lt (by omega)
    rw [Word.toNat_add_of_lt (by rw [hsum]; omega), hsum, hmask]

section Translated

variable {segs : List ElfSegment} {cap : UInt64} {ds : List EfiMemoryDescriptor} {st : SplitState}

/-- Every byte of a planned segment is LOADER memory. -/
theorem Walked.loader_of_inSegment (h : Walked segs cap ds st)
    (hall : st.tagged.toNat = (segs.map ElfSegment.pageBytes).sum) {a : ℕ} (ha : InSegment segs a)
    {d : EfiMemoryDescriptor} (hd : d ∈ ds) (hin : d.Holds a) :
    efiToSypasMemtype d.type = sypasMemLoader := by
  have howner := h.all_tagged hall ha
  rw [h.walkable.ownership_eq segs hd hin, Option.some.injEq, typeAt_eq_kernel_iff] at howner
  exact howner.1

/-- The usable bytes of the output are those of conventional memory. -/
theorem Walked.usable_iff (h : Walked segs cap ds st)
    (hall : st.tagged.toNat = (segs.map ElfSegment.pageBytes).sum) (a : ℕ) :
    (∃ e ∈ st.out, e.type = sypasMemUsable ∧ e.Has a) ↔
      ∃ d ∈ ds, d.type = efiConventionalMemory ∧ d.Holds a := by
  have hmap := h.isOwnershipMap hall
  constructor
  · rintro ⟨e, he, husable, ha⟩
    have hnot : ¬InSegment segs a := by
      rw [← hmap.kernel_iff e he a ha, husable]
      decide
    obtain ⟨d, hd, hin⟩ := (hmap.covers a).1 ⟨e, he, ha⟩
    have hsource := hmap.source e he a ha hnot d hd hin
    exact ⟨d, hd, (efiToSypasMemtype_eq_usable_iff _).1 (hsource ▸ husable), hin⟩
  · rintro ⟨d, hd, hconventional, hin⟩
    obtain ⟨e, he, ha⟩ := (hmap.covers a).2 ⟨d, hd, hin⟩
    have husable := (efiToSypasMemtype_eq_usable_iff d.type).2 hconventional
    have hnot : ¬InSegment segs a := by
      intro hseg
      have hloader := h.loader_of_inSegment hall hseg hd hin
      rw [husable] at hloader
      revert hloader
      decide
    exact ⟨e, he, (hmap.source e he a ha hnot d hd hin).trans husable, ha⟩

/-- The usable pages of the output are the pages of conventional memory. -/
theorem Walked.mem_usablePages_iff (h : Walked segs cap ds st)
    (hall : st.tagged.toNat = (segs.map ElfSegment.pageBytes).sum) (p : ℕ) :
    p ∈ usablePages st.out ↔ ConventionalPage ds p := by
  have hform := (h.isOwnershipMap hall).loaderForm
  rw [mem_usablePages]
  constructor
  · rintro ⟨e, he, husable, hp⟩
    obtain ⟨d, hd, hconventional, hlo, hhi⟩ := (h.usable_iff hall (4096 * p)).1
      ⟨e, he, husable, (hform.mem_framePages he).1 hp⟩
    have hvalid := h.walkable.valid d hd
    have haligned := hvalid.aligned
    have hstop := hvalid.stop_aligned
    exact ⟨d, hd, hconventional, fun k hk => ⟨by omega, by omega⟩⟩
  · rintro ⟨d, hd, hconventional, hall'⟩
    obtain ⟨e, he, husable, ha⟩ := (h.usable_iff hall (4096 * p)).2
      ⟨d, hd, hconventional, hall' 0 (by decide)⟩
    exact ⟨e, he, husable, (hform.mem_framePages he).2 ha⟩

end Translated

theorem typeAt_nil (d : EfiMemoryDescriptor) (a : ℕ) :
    typeAt [] d a = efiToSypasMemtype d.type := by
  refine if_neg ?_
  rintro ⟨-, seg, hseg, -⟩
  cases hseg

theorem conventionalPage_sortByStart {ds : List EfiMemoryDescriptor} {p : ℕ} :
    ConventionalPage (sortByStart ds) p ↔ ConventionalPage ds p := by
  unfold ConventionalPage
  simp only [mem_sortByStart]

/-- The handoff: whenever the translation succeeds and `pmm_init` accepts its output, no address
    computation wraps and the free pages are those of conventional memory at or above 1 MiB
    that do not hold the bitmap. No page of a kernel segment or of any other kind of firmware
    memory is among them. -/
theorem handoff_free_pages {fuel efiMap : ℕ} {mapSize descriptorSize : UInt64}
    {kernel : ElfLoadPlan} {outCapacity outCount : UInt64} {s : Ram} {res : MapResult}
    (hr : (sypasTranslateMemoryMap fuel efiMap mapSize descriptorSize kernel outCapacity outCount
      s).1 = some res) (hok : res.status = .ok) {st st₀ : Pmm}
    (hinit : pmmInit res.out st = .ok st₀) :
    NoAddressWrap res.out st₀ ∧
    (∀ p < st₀.pages, st₀.bit p = false ↔
      ConventionalPage (inputDescriptors s.mem efiMap mapSize descriptorSize) p ∧
        256 ≤ p ∧ p ∉ st₀.bitmapPages) ∧
    (∀ a, InSegment kernel.segs a → a / 4096 < st₀.pages → st₀.bit (a / 4096) = true) ∧
    ∀ d ∈ inputDescriptors s.mem efiMap mapSize descriptorSize, d.type ≠ efiConventionalMemory →
      ∀ a, d.Holds a → a / 4096 < st₀.pages → st₀.bit (a / 4096) = true := by
  obtain ⟨-, w, hwalked, hall, hout, -⟩ := sypasTranslateMemoryMap_walked hr hok
  have hmap := hwalked.isOwnershipMap hall
  have husable := hwalked.mem_usablePages_iff hall
  rw [hout] at hinit ⊢
  obtain ⟨-, -, -, -, hstate, -⟩ := pmmInit_ok hmap.loaderForm hinit
  have hbit : ∀ p < st₀.pages, st₀.bit p = false ↔
      ConventionalPage (inputDescriptors s.mem efiMap mapSize descriptorSize) p ∧
        256 ≤ p ∧ p ∉ st₀.bitmapPages := by
    intro p hp
    rw [hstate.bit p (hp.trans_le st₀.pages_le_bits), mem_initialFree, husable,
      conventionalPage_sortByStart]
  -- a page with an address of another kind is not conventional memory
  have hother : ∀ a, (∀ d ∈ sortByStart (inputDescriptors s.mem efiMap mapSize descriptorSize),
      d.Holds a → d.type ≠ efiConventionalMemory) → a / 4096 < st₀.pages →
      st₀.bit (a / 4096) = true := by
    intro a hnone hlt
    by_contra hclear
    obtain ⟨⟨d, hd, hconventional, hpage⟩, -⟩ := (hbit _ hlt).1 (Bool.not_eq_true _ ▸ hclear)
    have hin := hpage (a % 4096) (Nat.mod_lt _ (by decide))
    rw [Nat.div_add_mod] at hin
    exact hnone d (mem_sortByStart.2 hd) hin hconventional
  refine ⟨hstate.noAddressWrap hmap.loaderForm, hbit, fun a ha => hother a ?_,
    fun d hd htype a ha => hother a ?_⟩
  · intro d hd hin hconventional
    have hloader := hwalked.loader_of_inSegment hall ha hd hin
    rw [(efiToSypasMemtype_eq_usable_iff d.type).2 hconventional] at hloader
    revert hloader
    decide
  · -- descriptors are disjoint, so the one that holds the address is `d`
    intro d' hd' hin hconventional
    have howner := (hwalked.walkable.ownership_eq [] (mem_sortByStart.2 hd) ha).symm.trans
      (hwalked.walkable.ownership_eq [] hd' hin)
    rw [typeAt_nil, typeAt_nil, Option.some.injEq,
      (efiToSypasMemtype_eq_usable_iff d'.type).2 hconventional] at howner
    exact htype ((efiToSypasMemtype_eq_usable_iff d.type).1 howner)

theorem splitResult_loaderForm : LoaderForm splitResult.out where
  base_dvd := by decide
  length_dvd := by decide
  noWrap := by decide
  disjoint := LoaderForm.disjoint_of_stops (by decide)

theorem splitMap_free_pages :
    ∃ st₀, pmmInit splitResult.out (.zeroed ⟨fun _ => 0, []⟩) = .ok st₀ ∧
      ∀ p < st₀.pages, st₀.bit p = false ↔
        ConventionalPage (inputDescriptors splitMap.mem 0x1000 80 40) p ∧
          256 ≤ p ∧ p ∉ st₀.bitmapPages := by
  obtain ⟨-, hbad⟩ | ⟨st₀, -, hok, -⟩ :=
    pmmInit_spec splitResult.out splitResult_loaderForm (.zeroed ⟨fun _ => 0, []⟩)
  · exact absurd hbad (by decide)
  · have hr : (sypasTranslateMemoryMap 3 0x1000 80 40 splitPlan 16 0 splitMap).1 =
        some splitResult := by decide +kernel
    exact ⟨st₀, hok, (handoff_free_pages hr rfl hok).2.1⟩

end Sypas
