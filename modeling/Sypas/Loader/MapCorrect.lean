import Sypas.Loader.ElfBounds
import Sypas.Loader.Translate

/-!
# The translated map

What a successful translation guarantees about its output, for any number of
descriptors in any order, and exactly when a translation comes to an end.

## Main definitions

- `Sypas.MapArgs` — the translator's argument checks
- `Sypas.IsOwnershipMap` — the canonical ownership map of a list of descriptors
- `Sypas.MapHangs` — the inputs on which the translator does not come back

## Main results

- `Sypas.sypasTranslateMemoryMap_canonical` — a successful call returns the canonical
  ownership map of its input
- `Sypas.sypasTranslateMemoryMap_terminates_iff` — a call ends unless a segment runs
  past the end of LOADER memory
-/

namespace Sypas

open Extent StableSort

/-- The argument checks of `sypas_translate_memory_map`. -/
structure MapArgs (efiMap : ℕ) (mapSize descriptorSize : UInt64) : Prop where
  map_ne : efiMap ≠ 0
  size_ge : 40 ≤ descriptorSize.toNat
  size_le : descriptorSize.toNat ≤ 4096
  size_aligned : descriptorSize.toNat % 8 = 0
  whole : mapSize.toNat % descriptorSize.toNat = 0

theorem mapArgs_guard_iff (efiMap : ℕ) (mapSize descriptorSize : UInt64) :
    (efiMap = 0 ∨ descriptorSize < sizeofEfiMemoryDescriptor ∨
      descriptorSize > maxEfiDescriptorSize ∨ descriptorSize % 8 ≠ 0 ∨
      mapSize % descriptorSize ≠ 0) ↔ ¬MapArgs efiMap mapSize descriptorSize := by
  have h40 : sizeofEfiMemoryDescriptor.toNat = 40 := rfl
  have h4096 : maxEfiDescriptorSize.toNat = 4096 := rfl
  have h8 : (8 : UInt64).toNat = 8 := rfl
  rw [gt_iff_lt, UInt64.lt_iff_toNat_lt, UInt64.lt_iff_toNat_lt, h40, h4096, ne_eq, ne_eq,
    ← UInt64.toNat_inj, ← UInt64.toNat_inj, UInt64.toNat_mod, UInt64.toNat_mod, h8,
    UInt64.toNat_zero]
  constructor
  · rintro (h | h | h | h | h) hargs
    · exact hargs.map_ne h
    · exact absurd hargs.size_ge (by omega)
    · exact absurd hargs.size_le (by omega)
    · exact h hargs.size_aligned
    · exact h hargs.whole
  · intro hno
    by_contra hcon
    simp only [not_or, not_not, not_lt] at hcon
    exact hno ⟨hcon.1, hcon.2.1, hcon.2.2.1, hcon.2.2.2.1, hcon.2.2.2.2⟩

/-- The number of descriptors in a map. -/
def descriptorCount (mapSize descriptorSize : UInt64) : ℕ := (mapSize / descriptorSize).toNat

/-- The descriptors of the raw map passed to the translator. -/
def inputDescriptors (mem : ℕ → UInt8) (efiMap : ℕ) (mapSize descriptorSize : UInt64) :
    List EfiMemoryDescriptor :=
  descriptorsAt mem efiMap descriptorSize.toNat (descriptorCount mapSize descriptorSize)

/-- The translation of a sorted list of descriptors. -/
def translateSorted (fuel efiMap stride : ℕ) (kernel : ElfLoadPlan) (outCapacity outCount : UInt64)
    (ds : List EfiMemoryDescriptor) : Option MapResult :=
  match expectedKernelBytes kernel.segs 0 with
  | .error status => some ⟨status, [], outCount, ⟨0, 0, 0, 0⟩⟩
  | .ok expected =>
    match translateAll fuel kernel.segs outCapacity efiMap stride ds 0 ⟨0, [], 0⟩ with
    | none => none
    | some (.error e) => some ⟨e.1, [], outCount, e.2⟩
    | some (.ok st) =>
      if st.tagged ≠ expected then some ⟨.errKernelNotTagged, [], outCount, ⟨0, 0, 0, 0⟩⟩
      else some ⟨.ok, st.out, UInt64.ofNat st.out.length, ⟨0, 0, 0, 0⟩⟩

section Run

variable (fuel efiMap : ℕ) (mapSize descriptorSize : UInt64) (kernel : ElfLoadPlan)
  (outCapacity outCount : UInt64) (s : Ram)

/-- A call that passes its argument checks translates the sorted descriptors. -/
theorem sypasTranslateMemoryMap_run (hargs : MapArgs efiMap mapSize descriptorSize) :
    (sypasTranslateMemoryMap fuel efiMap mapSize descriptorSize kernel outCapacity outCount s).1 =
      translateSorted fuel efiMap descriptorSize.toNat kernel outCapacity outCount
        (sortByStart (inputDescriptors s.mem efiMap mapSize descriptorSize)) := by
  have hsort := sortDescriptors_descriptors efiMap (descriptorCount mapSize descriptorSize)
    descriptorSize.toNat hargs.size_ge s
  unfold sypasTranslateMemoryMap translateSorted
  rw [if_neg (fun h => (mapArgs_guard_iff _ _ _).1 h hargs)]
  rw [inputDescriptors, ← hsort, descriptorsAt, List.range_eq_range', ← translateLoop_run]
  simp only [Prog.bind_run]
  rcases expectedKernelBytes kernel.segs 0 with status | expected
  · rfl
  simp only [Prog.bind_run]
  rw [show descriptorCount mapSize descriptorSize = (mapSize / descriptorSize).toNat from rfl]
  rcases (translateLoop fuel kernel.segs outCapacity efiMap descriptorSize.toNat
    (mapSize / descriptorSize).toNat 0 ⟨0, [], 0⟩ (sortDescriptors efiMap
      (mapSize / descriptorSize).toNat descriptorSize.toNat s).2).1 with - | (e | st)
  · rfl
  · rfl
  · simp only [Prog.ite_run, Prog.pure_run, apply_ite Prod.fst]

/-- A call that fails them returns at once. -/
theorem sypasTranslateMemoryMap_of_not_args (hargs : ¬MapArgs efiMap mapSize descriptorSize) :
    (sypasTranslateMemoryMap fuel efiMap mapSize descriptorSize kernel outCapacity outCount s).1 =
      some ⟨.errDescriptorSize, [], outCount, ⟨0, 0, 0, 0⟩⟩ := by
  unfold sypasTranslateMemoryMap
  rw [if_pos ((mapArgs_guard_iff _ _ _).2 hargs)]
  rfl

end Run

/-! ## Every segment is tagged -/

/-- The addresses of the planned segments. -/
def segmentAddresses (segs : List ElfSegment) : Finset ℕ :=
  segs.foldr (fun seg acc => Finset.Ico seg.pageBase.toNat seg.pageEnd.toNat ∪ acc) ∅

theorem mem_segmentAddresses {segs : List ElfSegment} {a : ℕ} :
    a ∈ segmentAddresses segs ↔ InSegment segs a := by
  induction segs with
  | nil => simp [segmentAddresses, InSegment]
  | cons seg segs ih =>
    rw [segmentAddresses, List.foldr_cons, Finset.mem_union, Finset.mem_Ico, InSegment,
      List.exists_mem_cons_iff]
    exact or_congr Iff.rfl ih

theorem card_segmentAddresses_le (segs : List ElfSegment) :
    (segmentAddresses segs).card ≤ (segs.map ElfSegment.pageBytes).sum := by
  induction segs with
  | nil => exact le_rfl
  | cons seg segs ih =>
    rw [segmentAddresses, List.foldr_cons, List.map_cons, List.sum_cons]
    refine (Finset.card_union_le _ _).trans (Nat.add_le_add ?_ ih)
    rw [Nat.card_Ico]
    exact le_rfl

theorem ownership_eq_some {segs : List ElfSegment} {ds : List EfiMemoryDescriptor} {a : ℕ}
    {t : UInt32} (h : ownership segs ds a = some t) :
    ∃ d ∈ ds, d.Holds a ∧ typeAt segs d a = t := by
  rw [ownership, Option.map_eq_some_iff] at h
  obtain ⟨d, hfind, htype⟩ := h
  exact ⟨d, List.mem_of_find?_eq_some hfind, by simpa using List.find?_some hfind, htype⟩

/-- When as many bytes were tagged as the segments have, every one of them was. -/
theorem Walked.all_tagged {segs : List ElfSegment} {cap : UInt64} {ds : List EfiMemoryDescriptor}
    {st : SplitState} (h : Walked segs cap ds st)
    (hall : st.tagged.toNat = (segs.map ElfSegment.pageBytes).sum) {a : ℕ} (ha : InSegment segs a) :
    ownership segs ds a = some sypasMemKernel := by
  set tagged := (Finset.range st.cursor.toNat).filter
    fun a => ownership segs ds a = some sypasMemKernel with htagged
  have hcard : tagged.card = (segs.map ElfSegment.pageBytes).sum := by
    rw [← hall, h.good.tagged, kernelCount, Nat.count_eq_card_filter_range]
  have hsubset : tagged ⊆ segmentAddresses segs := by
    intro b hb
    obtain ⟨d, -, -, htype⟩ := ownership_eq_some (Finset.mem_filter.1 hb).2
    exact mem_segmentAddresses.2 ((typeAt_eq_kernel_iff segs d b).1 htype).2
  have heq : tagged = segmentAddresses segs :=
    Finset.eq_of_subset_of_card_le hsubset (hcard ▸ card_segmentAddresses_le segs)
  rw [← mem_segmentAddresses, ← heq, htagged] at ha
  exact (Finset.mem_filter.1 ha).2

/-! ## The output is the ownership map -/

/-- The canonical ownership map of the descriptors `ds` and the planned segments `segs`.
    All ranges are whole pages, so what is said of addresses holds of pages. -/
structure IsOwnershipMap (segs : List ElfSegment) (ds : List EfiMemoryDescriptor)
    (out : List MemmapEntry) : Prop where
  entries : ∀ e ∈ out, e.base.toNat % 4096 = 0 ∧ e.length.toNat % 4096 = 0 ∧
    0 < e.length.toNat ∧ e.base.toNat + e.length.toNat < 2 ^ 64 ∧ e.reserved = 0
  ascending : out.Pairwise fun e e' => e.base.toNat + e.length.toNat ≤ e'.base.toNat
  coalesced : out.IsChain fun e e' =>
    e.base.toNat + e.length.toNat = e'.base.toNat → e.type ≠ e'.type
  covers : ∀ a, (∃ e ∈ out, e.Has a) ↔ ∃ d ∈ ds, d.Holds a
  kernel_iff : ∀ e ∈ out, ∀ a, e.Has a → (e.type = sypasMemKernel ↔ InSegment segs a)
  source : ∀ e ∈ out, ∀ a, e.Has a → ¬InSegment segs a →
    ∀ d ∈ ds, d.Holds a → e.type = efiToSypasMemtype d.type
  tagged : ∀ a, InSegment segs a → ∃ e ∈ out, e.Has a ∧ e.type = sypasMemKernel

/-- In a walkable list, the owner of an address is the one descriptor that holds it. -/
theorem Walkable.ownership_eq {ds : List EfiMemoryDescriptor} (h : Walkable ds)
    (segs : List ElfSegment) {d : EfiMemoryDescriptor} (hd : d ∈ ds) {a : ℕ} (ha : d.Holds a) :
    ownership segs ds a = some (typeAt segs d a) := by
  obtain ⟨pre, post, rfl⟩ := List.append_of_mem hd
  have hsplit : pre ++ d :: post = (pre ++ [d]) ++ post := by simp
  have hord := h.ordered
  rw [hsplit] at hord ⊢
  obtain ⟨hpre, -, hpost⟩ := List.pairwise_append.1 hord
  rw [ownership_append_of_lt fun d' hd' => ha.2.trans_le (hpost d (by simp) d' hd')]
  refine ownership_append_of_holds (fun d' hd' hin => ?_) ha
  have h₁ := (List.pairwise_append.1 hpre).2.2 d' hd' d (by simp)
  have h₂ := hin.2
  have h₃ := ha.1
  omega

/-- The output of a complete walk that tagged every segment. -/
theorem Walked.isOwnershipMap {segs : List ElfSegment} {cap : UInt64}
    {ds : List EfiMemoryDescriptor} {st : SplitState} (h : Walked segs cap ds st)
    (hall : st.tagged.toNat = (segs.map ElfSegment.pageBytes).sum) :
    IsOwnershipMap segs ds st.out := by
  have hcovers := h.good.out.covers
  have hcanon := hcovers.canonical
  have hcursor := st.cursor.toNat_lt
  have hstop : ∀ e ∈ st.out, e.base.toNat + e.length.toNat ≤ st.cursor.toNat := fun e he =>
    hcovers.stop_le e.extent (List.mem_map_of_mem he)
  -- an entry holds what the classification says, and each classified byte has an entry
  have howner : ∀ e ∈ st.out, ∀ a, e.Has a → ownership segs ds a = some e.type := by
    intro e he a ha
    rw [← hcovers.look_eq a (ha.2.trans_le (hstop e he))]
    exact hcanon.look_eq (List.mem_map_of_mem he) ha
  have hfind : ∀ a t, ownership segs ds a = some t → ∃ e ∈ st.out, e.Has a ∧ e.type = t := by
    intro a t howns
    obtain ⟨d, hd, hin, -⟩ := ownership_eq_some howns
    rw [← hcovers.look_eq a (hin.2.trans_le (h.stops d hd))] at howns
    obtain ⟨x, hx, hhas, htag⟩ := look_eq_some howns
    obtain ⟨e, he, rfl⟩ := List.mem_map.1 hx
    exact ⟨e, he, hhas, htag⟩
  refine ⟨fun e he => ?_, ?_, ?_, fun a => ⟨?_, ?_⟩, fun e he a ha => ?_, ?_, ?_⟩
  · have hwf := h.good.out.entries e he
    have hpos : e.base.toNat < e.base.toNat + e.length.toNat :=
      hcanon.nonempty e.extent (List.mem_map_of_mem he)
    exact ⟨hwf.base_aligned, hwf.length_aligned, by omega, (hstop e he).trans_lt hcursor,
      hwf.reserved⟩
  · exact List.pairwise_map.1 hcanon.ordered
  · exact (List.isChain_map _).1 hcanon.coalesced
  · rintro ⟨e, he, ha⟩
    obtain ⟨d, hd, hin, -⟩ := ownership_eq_some (howner e he a ha)
    exact ⟨d, hd, hin⟩
  · rintro ⟨d, hd, ha⟩
    obtain ⟨e, he, hin, -⟩ := hfind a _ (h.walkable.ownership_eq segs hd ha)
    exact ⟨e, he, hin⟩
  · constructor
    · intro hkernel
      obtain ⟨d, -, -, htype⟩ := ownership_eq_some (howner e he a ha)
      exact ((typeAt_eq_kernel_iff segs d a).1 (htype.trans hkernel)).2
    · intro hin
      exact Option.some.inj ((howner e he a ha).symm.trans (h.all_tagged hall hin))
  · intro e he a ha hout d hd hin
    have heq := (howner e he a ha).symm.trans (h.walkable.ownership_eq segs hd hin)
    rw [Option.some.inj heq, typeAt, if_neg fun h => hout h.2]
  · exact fun a ha => hfind a _ (h.all_tagged hall ha)

/-! ## Successful calls -/

/-- The first descriptor of an unaligned map is rejected. -/
theorem translateAll_unaligned {fuel : ℕ} {segs : List ElfSegment} {cap : UInt64}
    {map stride : ℕ} (hmap : map % 8 ≠ 0) {d : EfiMemoryDescriptor}
    {rest : List EfiMemoryDescriptor} {st : SplitState} :
    translateAll fuel segs cap map stride (d :: rest) 0 st =
      some (.error (.errDescriptorAlignment, ⟨0, 0, 0, 0⟩)) := by
  rw [translateAll, translateDescriptor, checkDescriptor, Nat.zero_mul, Nat.add_zero, if_pos hmap]

/-- A successful translation of sorted descriptors has walked over all of them and
    tagged every byte of the plan. -/
theorem translateSorted_ok {fuel efiMap stride : ℕ} {kernel : ElfLoadPlan}
    {outCapacity outCount : UInt64} {ds : List EfiMemoryDescriptor} {res : MapResult}
    (hstride : stride % 8 = 0)
    (hr : translateSorted fuel efiMap stride kernel outCapacity outCount ds = some res)
    (hok : res.status = .ok) :
    ∃ st, Walked kernel.segs outCapacity ds st ∧
      st.tagged.toNat = (kernel.segs.map ElfSegment.pageBytes).sum ∧
      res.out = st.out ∧ res.outCount = UInt64.ofNat st.out.length := by
  unfold translateSorted at hr
  rcases hplan : expectedKernelBytes kernel.segs 0 with status | expected
  · have hst : status ≠ .ok := fun h => expectedKernelBytes_ne_ok kernel.segs 0 (h ▸ hplan)
    rw [hplan] at hr
    cases hr
    exact absurd hok hst
  obtain ⟨hpaged, hexpected⟩ := (expectedKernelBytes_eq_ok_iff _ _ _).1 hplan
  rw [UInt64.toNat_zero, Nat.zero_add] at hexpected
  rw [hplan] at hr
  dsimp only at hr
  rcases hloop : translateAll fuel kernel.segs outCapacity efiMap stride ds 0 ⟨0, [], 0⟩ with - | r
  · rw [hloop] at hr
    cases hr
  rw [hloop] at hr
  have hsound : (∃ e, r = .error e ∧ e.1 ≠ .ok) ∨
      ∃ st, r = .ok st ∧ Walked kernel.segs outCapacity ds st := by
    by_cases hmap : efiMap % 8 = 0
    · have hwalked := translateAll_sound hpaged hmap hstride
        (walked_nil kernel.segs outCapacity) hloop
      rwa [List.nil_append] at hwalked
    -- an unaligned map is refused at its first descriptor, unless there is none
    · rcases ds with - | ⟨d, rest⟩
      · cases hloop
        exact Or.inr ⟨_, rfl, walked_nil kernel.segs outCapacity⟩
      · rw [translateAll_unaligned hmap] at hloop
        cases hloop
        exact Or.inl ⟨_, rfl, nofun⟩
  rcases hsound with ⟨e, rfl, hst⟩ | ⟨st, rfl, hwalked⟩
  · cases hr
    exact absurd hok hst
  dsimp only at hr
  split at hr
  · cases hr
    cases hok
  · next heq =>
    rw [not_not] at heq
    cases hr
    exact ⟨st, hwalked, by rw [heq, hexpected], rfl, rfl⟩

/-- The starts of walkable descriptors are distinct. -/
theorem Walkable.starts_lt {ds : List EfiMemoryDescriptor} (h : Walkable ds) :
    ds.Pairwise fun d d' => d.physicalStart.toNat < d'.physicalStart.toNat := by
  refine h.ordered.imp_of_mem fun hd _ hle => ?_
  exact (h.valid _ hd).start_lt_stop.trans_le hle

theorem mem_sortByStart {ds : List EfiMemoryDescriptor} {d : EfiMemoryDescriptor} :
    d ∈ sortByStart ds ↔ d ∈ ds :=
  (perm_sortBy _ ds).mem_iff

/-- The ownership map of a list of descriptors does not depend on their order. -/
theorem IsOwnershipMap.of_sortByStart {segs : List ElfSegment} {ds : List EfiMemoryDescriptor}
    {out : List MemmapEntry} (h : IsOwnershipMap segs (sortByStart ds) out) :
    IsOwnershipMap segs ds out where
  entries := h.entries
  ascending := h.ascending
  coalesced := h.coalesced
  covers := by
    intro a
    rw [h.covers a]
    simp only [mem_sortByStart]
  kernel_iff := h.kernel_iff
  source := fun e he a ha hout d hd => h.source e he a ha hout d (mem_sortByStart.2 hd)
  tagged := h.tagged

/-- A successful call has walked over the sorted descriptors and tagged every byte of the
    plan. -/
theorem sypasTranslateMemoryMap_walked {fuel efiMap : ℕ} {mapSize descriptorSize : UInt64}
    {kernel : ElfLoadPlan} {outCapacity outCount : UInt64} {s : Ram} {res : MapResult}
    (hr : (sypasTranslateMemoryMap fuel efiMap mapSize descriptorSize kernel outCapacity outCount
      s).1 = some res) (hok : res.status = .ok) :
    MapArgs efiMap mapSize descriptorSize ∧
    ∃ st, Walked kernel.segs outCapacity
        (sortByStart (inputDescriptors s.mem efiMap mapSize descriptorSize)) st ∧
      st.tagged.toNat = (kernel.segs.map ElfSegment.pageBytes).sum ∧
      res.out = st.out ∧ res.outCount = UInt64.ofNat st.out.length := by
  by_cases hargs : MapArgs efiMap mapSize descriptorSize
  · rw [sypasTranslateMemoryMap_run _ _ _ _ _ _ _ _ hargs] at hr
    exact ⟨hargs, translateSorted_ok hargs.size_aligned hr hok⟩
  · rw [sypasTranslateMemoryMap_of_not_args _ _ _ _ _ _ _ _ hargs] at hr
    cases hr
    cases hok

/-- Whenever `sypas_translate_memory_map` succeeds, `out[0..*out_count)` is the canonical
    ownership map of the descriptors and the plan, and the same call on the descriptors
    in any other order gives the same result. -/
theorem sypasTranslateMemoryMap_canonical {fuel efiMap : ℕ} {mapSize descriptorSize : UInt64}
    {kernel : ElfLoadPlan} {outCapacity outCount : UInt64} {s : Ram} {res : MapResult}
    (hr : (sypasTranslateMemoryMap fuel efiMap mapSize descriptorSize kernel outCapacity outCount
      s).1 = some res) (hok : res.status = .ok) :
    IsOwnershipMap kernel.segs (inputDescriptors s.mem efiMap mapSize descriptorSize) res.out ∧
    res.outCount.toNat = res.out.length ∧
    ∀ s' : Ram, (inputDescriptors s.mem efiMap mapSize descriptorSize).Perm
        (inputDescriptors s'.mem efiMap mapSize descriptorSize) →
      (sypasTranslateMemoryMap fuel efiMap mapSize descriptorSize kernel outCapacity outCount
        s').1 = some res := by
  obtain ⟨hargs, st, hwalked, hall, hout, hcount⟩ := sypasTranslateMemoryMap_walked hr hok
  have hroom := hwalked.good.out.room
  have hcap := outCapacity.toNat_lt
  refine ⟨?_, ?_, fun s' hperm => ?_⟩
  · rw [hout]
    exact (hwalked.isOwnershipMap hall).of_sortByStart
  · rw [hcount, hout, Word.toNat_ofNat_of_lt (hroom.trans_lt hcap)]
  · rw [sypasTranslateMemoryMap_run _ _ _ _ _ _ _ _ hargs] at hr
    rw [sypasTranslateMemoryMap_run _ _ _ _ _ _ _ _ hargs, ← hr]
    congr 1
    exact sortBy_eq_of_perm _ hperm hwalked.walkable.starts_lt

/-- A map of two descriptors, listed in descending order, around a plan of two segments
    with a hole between them. -/
def splitMap : Ram :=
  ⟨Ram.image [(0x1000, 4, 2), (0x1008, 8, 0x400000), (0x1018, 8, 3),
    (0x1028, 4, 7), (0x1030, 8, 0x100000), (0x1040, 8, 16)], []⟩

def splitPlan : ElfLoadPlan where
  entry := 0x400000
  physBase := 0x400000
  physEnd := 0x403000
  segs := [⟨0x402000, 0x402000, 0x403000, 0, 0, 0x1000, 6⟩,
    ⟨0x400000, 0x400000, 0x401000, 0, 0, 0x1000, 5⟩]
  nsegs_le := by decide

/-- The map of `splitMap`: the LOADER range is split at exactly the segments' bounds. -/
def splitResult : MapResult where
  status := .ok
  out := [⟨0x100000, 0x10000, sypasMemUsable, 0⟩, ⟨0x400000, 0x1000, sypasMemKernel, 0⟩,
    ⟨0x401000, 0x1000, sypasMemLoader, 0⟩, ⟨0x402000, 0x1000, sypasMemKernel, 0⟩]
  outCount := 4
  diagnostic := ⟨0, 0, 0, 0⟩

theorem splitMap_canonical :
    IsOwnershipMap splitPlan.segs (inputDescriptors splitMap.mem 0x1000 80 40) splitResult.out ∧
    splitResult.outCount.toNat = splitResult.out.length ∧
    ∀ s' : Ram, (inputDescriptors splitMap.mem 0x1000 80 40).Perm
        (inputDescriptors s'.mem 0x1000 80 40) →
      (sypasTranslateMemoryMap 3 0x1000 80 40 splitPlan 16 0 s').1 = some splitResult :=
  sypasTranslateMemoryMap_canonical (s := splitMap) (by decide +kernel) (by decide)

/-! ## Termination -/

/-- The inputs on which the translator does not come back: every check passes up to some
    descriptor in sorted order, and that one leaves it stuck. -/
structure MapHangs (efiMap : ℕ) (mapSize descriptorSize : UInt64) (kernel : ElfLoadPlan)
    (outCapacity : UInt64) (mem : ℕ → UInt8) : Prop where
  args : MapArgs efiMap mapSize descriptorSize
  aligned : efiMap % 8 = 0
  paged : ∀ seg ∈ kernel.segs, seg.Paged
  bytes : (kernel.segs.map ElfSegment.pageBytes).sum < 2 ^ 64
  stuck : ∃ pre d post,
    sortByStart (inputDescriptors mem efiMap mapSize descriptorSize) = pre ++ d :: post ∧
    Stuck kernel.segs outCapacity pre d

variable {efiMap : ℕ} {mapSize descriptorSize outCapacity : UInt64} {kernel : ElfLoadPlan}

theorem MapHangs.eq_none {s : Ram}
    (h : MapHangs efiMap mapSize descriptorSize kernel outCapacity s.mem) (fuel : ℕ)
    (outCount : UInt64) :
    (sypasTranslateMemoryMap fuel efiMap mapSize descriptorSize kernel outCapacity outCount s).1 =
      none := by
  obtain ⟨pre, d, post, hsorted, hstuck⟩ := h.stuck
  have hplan : expectedKernelBytes kernel.segs 0 =
      .ok (UInt64.ofNat (kernel.segs.map ElfSegment.pageBytes).sum) := by
    rw [expectedKernelBytes_eq_ok_iff, Word.toNat_ofNat_of_lt h.bytes, UInt64.toNat_zero,
      Nat.zero_add]
    exact ⟨h.paged, rfl⟩
  have hloop : translateAll fuel kernel.segs outCapacity efiMap descriptorSize.toNat
      (pre ++ d :: post) ([] : List EfiMemoryDescriptor).length ⟨0, [], 0⟩ = none :=
    translateAll_hangs h.paged h.aligned h.args.size_aligned (walked_nil kernel.segs outCapacity)
      hstuck fuel
  rw [sypasTranslateMemoryMap_run _ _ _ _ _ _ _ _ h.args, translateSorted, hplan, hsorted]
  dsimp only
  rw [show (0 : ℕ) = ([] : List EfiMemoryDescriptor).length from rfl, hloop]

/-- With fuel for one iteration per segment, every other call ends. -/
theorem ne_none_of_not_mapHangs {s : Ram}
    (h : ¬MapHangs efiMap mapSize descriptorSize kernel outCapacity s.mem) (outCount : UInt64) :
    (sypasTranslateMemoryMap (kernel.segs.length + 1) efiMap mapSize descriptorSize kernel
      outCapacity outCount s).1 ≠ none := by
  by_cases hargs : MapArgs efiMap mapSize descriptorSize
  swap
  · rw [sypasTranslateMemoryMap_of_not_args _ _ _ _ _ _ _ _ hargs]
    exact nofun
  rw [sypasTranslateMemoryMap_run _ _ _ _ _ _ _ _ hargs, translateSorted]
  rcases hplan : expectedKernelBytes kernel.segs 0 with status | expected
  · exact nofun
  obtain ⟨hpaged, hexpected⟩ := (expectedKernelBytes_eq_ok_iff _ _ _).1 hplan
  rw [UInt64.toNat_zero, Nat.zero_add] at hexpected
  have hbytes := expected.toNat_lt
  have hends : translateAll (kernel.segs.length + 1) kernel.segs outCapacity efiMap
      descriptorSize.toNat (sortByStart (inputDescriptors s.mem efiMap mapSize descriptorSize)) 0
      ⟨0, [], 0⟩ ≠ none := by
    by_cases hmap : efiMap % 8 = 0
    · refine translateAll_ends hpaged hmap hargs.size_aligned
        (walked_nil kernel.segs outCapacity) (fun hstuck => h ?_) (Nat.lt_succ_self _)
      exact ⟨hargs, hmap, hpaged, hexpected ▸ hbytes, hstuck⟩
    · rcases sortByStart (inputDescriptors s.mem efiMap mapSize descriptorSize) with - | ⟨d, rest⟩
      · exact nofun
      · rw [translateAll_unaligned hmap]
        exact nofun
  dsimp only
  rcases hloop : translateAll (kernel.segs.length + 1) kernel.segs outCapacity efiMap
      descriptorSize.toNat (sortByStart (inputDescriptors s.mem efiMap mapSize descriptorSize)) 0
      ⟨0, [], 0⟩ with - | (e | st)
  · exact absurd hloop hends
  · exact nofun
  · dsimp only
    split <;> exact nofun

/-- The translator comes back exactly on the inputs that do not leave it stuck. -/
theorem sypasTranslateMemoryMap_terminates_iff (efiMap : ℕ)
    (mapSize descriptorSize : UInt64) (kernel : ElfLoadPlan) (outCapacity outCount : UInt64)
    (s : Ram) :
    (∃ fuel, (sypasTranslateMemoryMap fuel efiMap mapSize descriptorSize kernel outCapacity
      outCount s).1 ≠ none) ↔
      ¬MapHangs efiMap mapSize descriptorSize kernel outCapacity s.mem := by
  constructor
  · rintro ⟨fuel, hne⟩ hhangs
    exact hne (hhangs.eq_none fuel outCount)
  · exact fun h => ⟨_, ne_none_of_not_mapHangs h outCount⟩

/-- Two adjacent LOADER ranges that meet at `0x402000`. -/
def adjacentLoaderMap : Ram :=
  ⟨Ram.image [(0x1000, 4, 2), (0x1008, 8, 0x400000), (0x1018, 8, 2),
    (0x1028, 4, 2), (0x1030, 8, 0x402000), (0x1040, 8, 2)], []⟩

/-- The validator accepts `threePageElf`, and on its plan the translator never comes back
    from the first of the two LOADER ranges that hold the segment between them. -/
theorem adjacentLoaderMap_hangs :
    (elfPlanLoad 0 120 .empty threePageElf).1.1 = .ok ∧
    ∀ fuel, (sypasTranslateMemoryMap fuel 0x1000 80 40
      (elfPlanLoad 0 120 .empty threePageElf).1.2 16 0 adjacentLoaderMap).1 = none := by
  have hsegs : (elfPlanLoad 0 120 .empty threePageElf).1.2.segs =
      [⟨0x400000, 0x400000, 0x403000, 0, 120, 0x3000, 5⟩] := by decide +kernel
  have hsorted : sortByStart (inputDescriptors adjacentLoaderMap.mem 0x1000 80 40) =
      [] ++ ⟨2, 0x400000, 2⟩ :: [⟨2, 0x402000, 2⟩] := by decide +kernel
  have hstop : EfiMemoryDescriptor.stop ⟨2, 0x400000, 2⟩ = 0x402000 := by decide
  have hvalid : EfiMemoryDescriptor.Valid ⟨2, 0x400000, 2⟩ :=
    ⟨by decide, by decide, by rw [hstop]; decide⟩
  have hwalk : Walkable ([] ++ [⟨2, 0x400000, 2⟩]) :=
    ⟨by simpa using hvalid, List.pairwise_singleton _ _⟩
  refine ⟨by decide +kernel, fun fuel => MapHangs.eq_none ⟨⟨by decide, by decide, by decide,
    by decide, by decide⟩, by decide, ?_, ?_, [], _, _, hsorted, hwalk, by decide, ?_, ?_⟩ fuel 0⟩
  · rw [hsegs]
    simp only [List.mem_singleton, forall_eq]
    exact ⟨by decide, by decide, by decide⟩
  · rw [hsegs]
    decide
  · rw [hsegs, hstop]
    exact ⟨_, List.mem_singleton_self _, by decide⟩
  · rw [hsegs, hstop]
    have hin : ∀ a, 0x400000 ≤ a → a < 0x402000 → ownership
        [⟨0x400000, 0x400000, 0x403000, 0, 120, 0x3000, 5⟩] ([] ++ [⟨2, 0x400000, 2⟩]) a =
          some sypasMemKernel := by
      intro a h₁ h₂
      rw [ownership_append_of_holds (fun d hd => absurd hd List.not_mem_nil) ⟨h₁, by rwa [hstop]⟩]
      rw [(typeAt_eq_kernel_iff _ _ _).2]
      refine ⟨by decide, _, List.mem_singleton_self _, h₁, h₂.trans (by decide)⟩
    have hout : ∀ a, 0 ≤ a → a < 0x400000 → ownership
        [⟨0x400000, 0x400000, 0x403000, 0, 120, 0x3000, 5⟩] ([] ++ [⟨2, 0x400000, 2⟩]) a =
          none := by
      intro a _ ha
      refine ownership_eq_none fun d hd hholds => ?_
      rw [List.nil_append, List.mem_singleton] at hd
      rw [hd] at hholds
      exact absurd hholds.1 (not_le.2 ha)
    rw [runs_const (by decide) hin, runs_skip (Nat.zero_le _) hout]
    split <;> decide

end Sypas
