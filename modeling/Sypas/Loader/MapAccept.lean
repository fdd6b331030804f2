import Sypas.Loader.MapCorrect

/-!
# The translator's acceptance condition

The translator checks overlap between neighbours of the sorted map only, and the
coverage of the kernel by comparing two byte totals. Both are exact: the neighbours
decide about all pairs, and the totals agree exactly when no two segments share an
address and every segment lies in LOADER memory.

## Main definitions

- `Sypas.MapAccepts` — the inputs that are translated
- `Sypas.NamesOverlap` — a diagnostic that points at two intersecting neighbours

## Main results

- `Sypas.sypasTranslateMemoryMap_accepts_iff` — a call that comes back succeeds exactly
  on the inputs in `MapAccepts`
-/

namespace Sypas

open Extent StableSort

/-! ## Sorted descriptors are walkable -/

/-- The descriptors describe no address twice. -/
def Apart (ds : List EfiMemoryDescriptor) : Prop :=
  ds.Pairwise fun d d' => ∀ a, d.Holds a → ¬d'.Holds a

theorem Apart.perm {ds ds' : List EfiMemoryDescriptor} (h : Apart ds) (hperm : ds.Perm ds') :
    Apart ds' :=
  hperm.pairwise h fun hd a hin' hin => hd a hin hin'

theorem sortByStart_sorted (ds : List EfiMemoryDescriptor) :
    (sortByStart ds).Pairwise fun d d' => d.physicalStart.toNat ≤ d'.physicalStart.toNat :=
  pairwise_sortBy _ ds

/-- Sorting makes valid disjoint descriptors walkable, and no others. -/
theorem walkable_sortByStart_iff (ds : List EfiMemoryDescriptor) :
    Walkable (sortByStart ds) ↔ (∀ d ∈ ds, d.Valid) ∧ Apart ds := by
  have hperm : (sortByStart ds).Perm ds := perm_sortBy _ ds
  constructor
  · intro h
    refine ⟨fun d hd => h.valid d (mem_sortByStart.2 hd), Apart.perm ?_ hperm⟩
    refine h.ordered.imp fun {d d'} hle a hin hin' => ?_
    exact absurd (hin.2.trans_le (hle.trans hin'.1)) (lt_irrefl a)
  · rintro ⟨hvalid, hapart⟩
    have hvalid' : ∀ d ∈ sortByStart ds, d.Valid := fun d hd => hvalid d (mem_sortByStart.1 hd)
    have hboth := (sortByStart_sorted ds).and (hapart.perm hperm.symm)
    refine ⟨hvalid', List.Pairwise.imp_of_mem ?_ hboth⟩
    intro d d' _ hd' hpair
    -- otherwise the later descriptor's first address is in both
    by_contra hlt
    exact hpair.2 _ ⟨hpair.1, not_le.1 hlt⟩ ⟨le_rfl, (hvalid' d' hd').start_lt_stop⟩

/-- The classification does not depend on the order of disjoint descriptors. -/
theorem Walkable.ownership_sortByStart {ds : List EfiMemoryDescriptor}
    (h : Walkable (sortByStart ds)) (segs : List ElfSegment) :
    ownership segs (sortByStart ds) = ownership segs ds := by
  funext a
  rcases hfind : ownership segs ds a with - | t
  · apply ownership_eq_none
    intro d hd hin
    rw [ownership, Option.map_eq_none_iff, List.find?_eq_none] at hfind
    exact hfind d (mem_sortByStart.1 hd) (decide_eq_true hin)
  · obtain ⟨d, hd, hin, htype⟩ := ownership_eq_some hfind
    rw [h.ownership_eq segs (mem_sortByStart.2 hd) hin, htype]

/-! ## The two byte totals -/

/-- No two segments share an address. -/
def SegmentsApart (segs : List ElfSegment) : Prop :=
  segs.Pairwise fun seg seg' => ∀ a, seg.Has a → ¬seg'.Has a

/-- As many addresses as bytes: no address is counted twice. -/
theorem card_segmentAddresses_eq_iff (segs : List ElfSegment) :
    (segmentAddresses segs).card = (segs.map ElfSegment.pageBytes).sum ↔ SegmentsApart segs := by
  induction segs with
  | nil => exact iff_of_true rfl List.Pairwise.nil
  | cons seg segs ih =>
    have hle := card_segmentAddresses_le segs
    have hcard : (Finset.Ico seg.pageBase.toNat seg.pageEnd.toNat).card = seg.pageBytes :=
      Nat.card_Ico _ _
    have hunion := Finset.card_union_le (Finset.Ico seg.pageBase.toNat seg.pageEnd.toNat)
      (segmentAddresses segs)
    have hdisjoint : Disjoint (Finset.Ico seg.pageBase.toNat seg.pageEnd.toNat)
        (segmentAddresses segs) ↔ ∀ seg' ∈ segs, ∀ a, seg.Has a → ¬seg'.Has a := by
      rw [Finset.disjoint_left]
      constructor
      · intro h seg' hseg' a ha ha'
        exact h (Finset.mem_Ico.2 ha) (mem_segmentAddresses.2 ⟨seg', hseg', ha'⟩)
      · intro h a ha hin
        obtain ⟨seg', hseg', ha'⟩ := mem_segmentAddresses.1 hin
        exact h seg' hseg' a (Finset.mem_Ico.1 ha) ha'
    rw [SegmentsApart, List.pairwise_cons, ← hdisjoint, ← Finset.card_union_eq_card_add_card,
      List.map_cons, List.sum_cons, hcard]
    change (Finset.Ico seg.pageBase.toNat seg.pageEnd.toNat ∪ segmentAddresses segs).card = _ ↔ _
    constructor
    · intro h
      exact ⟨by omega, ih.1 (by omega)⟩
    · rintro ⟨h, hapart⟩
      rw [h, ih.2 hapart]

/-- Every page of the plan is described as LOADER memory. -/
def LoadedInLoader (segs : List ElfSegment) (ds : List EfiMemoryDescriptor) : Prop :=
  ∀ seg ∈ segs, ∀ a, seg.Has a →
    ∃ d ∈ ds, d.Holds a ∧ (d.type = efiLoaderCode ∨ d.type = efiLoaderData)

theorem efiToSypasMemtype_eq_loader_iff (type : UInt32) :
    efiToSypasMemtype type = sypasMemLoader ↔ type = efiLoaderCode ∨ type = efiLoaderData := by
  unfold efiToSypasMemtype
  split
  · next h =>
    refine iff_of_false (by decide) ?_
    rw [h]
    decide
  next =>
  split
  · next h => exact iff_of_true rfl h
  next h =>
  refine iff_of_false ?_ h
  repeat' split
  all_goals decide

/-- The totals agree exactly when the plan's segments are disjoint and all of their
    pages are LOADER memory. -/
theorem Walked.tagged_eq_iff {segs : List ElfSegment} {cap : UInt64}
    {ds : List EfiMemoryDescriptor} {st : SplitState} (h : Walked segs cap ds st) :
    st.tagged.toNat = (segs.map ElfSegment.pageBytes).sum ↔
      SegmentsApart segs ∧ LoadedInLoader segs ds := by
  set tagged := (Finset.range st.cursor.toNat).filter
    fun a => ownership segs ds a = some sypasMemKernel with htagged
  have hcard : tagged.card = st.tagged.toNat := by
    rw [h.good.tagged, kernelCount, Nat.count_eq_card_filter_range]
  have hsubset : tagged ⊆ segmentAddresses segs := by
    intro b hb
    obtain ⟨d, -, -, htype⟩ := ownership_eq_some (Finset.mem_filter.1 hb).2
    exact mem_segmentAddresses.2 ((typeAt_eq_kernel_iff segs d b).1 htype).2
  have hle := card_segmentAddresses_le segs
  have hsub := Finset.card_le_card hsubset
  constructor
  · intro hall
    refine ⟨(card_segmentAddresses_eq_iff segs).1 (by omega), fun seg hseg a ha => ?_⟩
    obtain ⟨d, hd, hin, htype⟩ := ownership_eq_some (h.all_tagged hall ⟨seg, hseg, ha⟩)
    have hloader := ((typeAt_eq_kernel_iff segs d a).1 htype).1
    exact ⟨d, hd, hin, (efiToSypasMemtype_eq_loader_iff _).1 hloader⟩
  · rintro ⟨hapart, hloaded⟩
    have heq : segmentAddresses segs ⊆ tagged := by
      intro a ha
      have hseg := mem_segmentAddresses.1 ha
      obtain ⟨seg, hmem, hin⟩ := hseg
      obtain ⟨d, hd, hholds, htype⟩ := hloaded seg hmem a hin
      rw [htagged, Finset.mem_filter, Finset.mem_range,
        h.walkable.ownership_eq segs hd hholds]
      exact ⟨hholds.2.trans_le (h.stops d hd), congrArg some ((typeAt_eq_kernel_iff segs d a).2
        ⟨(efiToSypasMemtype_eq_loader_iff _).2 htype, seg, hmem, hin⟩)⟩
    have hge := Finset.card_le_card heq
    have hfull := (card_segmentAddresses_eq_iff segs).2 hapart
    omega

/-! ## Failed walks -/

/-- The diagnostic gives the index and the range of a descriptor that intersects its
    predecessor in the list, and where the predecessor ends. -/
def NamesOverlap (ds : List EfiMemoryDescriptor) (diagnostic : MapDiagnostic) : Prop :=
  ∃ i previous d, ds[i]? = some previous ∧ ds[i + 1]? = some d ∧
    diagnostic.descriptorIndex.toNat = i + 1 ∧ diagnostic.base = d.physicalStart ∧
    diagnostic.end.toNat = d.stop ∧ diagnostic.previousEnd.toNat = previous.stop ∧
    ∃ a, previous.Holds a ∧ d.Holds a

/-- What the overlap check has seen when it fails. -/
theorem checkDescriptor_overlap {a i : ℕ} {previousEnd : UInt64} {d : EfiMemoryDescriptor}
    {diagnostic : MapDiagnostic}
    (h : checkDescriptor a i previousEnd d = .error (.errRangeOverlap, diagnostic)) :
    d.Valid ∧ i ≠ 0 ∧ d.physicalStart.toNat < previousEnd.toNat ∧
      diagnostic = ⟨UInt64.ofNat i, d.physicalStart, UInt64.ofNat d.stop, previousEnd⟩ := by
  have hpage : pageSize.toNat = 4096 := by decide
  unfold checkDescriptor at h
  by_cases ha : a % 8 ≠ 0
  · rw [if_pos ha] at h
    cases h
  rw [if_neg ha] at h
  by_cases hpages : d.numberOfPages = 0
  · rw [if_pos hpages] at h
    cases h
  rw [if_neg hpages] at h
  by_cases hmask : d.physicalStart &&& (pageSize - 1) ≠ 0
  · rw [if_pos hmask] at h
    cases h
  rw [if_neg hmask, not_ne_iff, and_pageMask_eq_zero_iff] at *
  rcases hmul : mulOk d.numberOfPages pageSize with - | length
  · rw [hmul] at h
    cases h
  rw [hmul] at h
  dsimp only at h
  rcases hadd : addOk d.physicalStart length with - | stop
  · rw [hadd] at h
    cases h
  rw [hadd] at h
  dsimp only at h
  rw [mulOk_eq_some_iff, hpage] at hmul
  rw [addOk_eq_some_iff, hmul.2] at hadd
  have hstop : stop = UInt64.ofNat d.stop := by
    rw [← UInt64.toNat_inj, hadd.2]
    exact (Word.toNat_ofNat_of_lt hadd.1).symm
  by_cases hover : i ≠ 0 ∧ d.physicalStart < previousEnd
  · rw [if_pos hover] at h
    cases h
    exact ⟨⟨hpages, hmask, hadd.1⟩, hover.1, UInt64.lt_iff_toNat_lt.1 hover.2, by rw [hstop]⟩
  · rw [if_neg hover] at h
    cases h

/-- The guard on the plan fails with one status. -/
theorem expectedKernelBytes_error {segs : List ElfSegment} {expected : UInt64} {status : MapStatus}
    (h : expectedKernelBytes segs expected = .error status) : status = .errAddressOverflow := by
  induction segs generalizing expected with
  | nil => cases h
  | cons seg segs ih =>
    rw [expectedKernelBytes] at h
    split at h
    · cases h
      rfl
    cases hadd : addOk expected (seg.pageEnd - seg.pageBase) with
    | none =>
      rw [hadd] at h
      cases h
      rfl
    | some bytes =>
      rw [hadd] at h
      exact ih h

variable {segs : List ElfSegment} {cap : UInt64} {map stride fuel : ℕ} {st : SplitState}

/-- A failed walk has failed on one descriptor, after walking over those before it. -/
theorem translateAll_error (hpaged : ∀ seg ∈ segs, seg.Paged) (hmap : map % 8 = 0)
    (hstride : stride % 8 = 0) {pre ds : List EfiMemoryDescriptor} (h : Walked segs cap pre st)
    {e : MapStatus × MapDiagnostic}
    (hr : translateAll fuel segs cap map stride ds pre.length st = some (.error e)) :
    ∃ mid d post st', ds = mid ++ d :: post ∧ Walked segs cap (pre ++ mid) st' ∧
      translateDescriptor fuel segs cap (map + (pre ++ mid).length * stride) (pre ++ mid).length d
        st' = some (.error e) := by
  induction ds generalizing pre st with
  | nil => cases hr
  | cons d rest ih =>
    have ha := descriptor_aligned hmap hstride pre.length
    rw [translateAll] at hr
    rcases hstep : translateDescriptor fuel segs cap (map + pre.length * stride) pre.length d st
      with - | r
    · rw [hstep] at hr
      cases hr
    rw [hstep] at hr
    rcases translateDescriptor_sound hpaged h ha hstep with ⟨e', rfl, -, -⟩ | ⟨st', rfl, hwalked⟩
    · cases hr
      refine ⟨[], d, rest, st, rfl, ?_, ?_⟩ <;> rwa [List.append_nil]
    · dsimp only at hr
      rw [show pre.length + 1 = (pre ++ [d]).length by simp] at hr
      obtain ⟨mid, d', post, st'', rfl, hwalked', hfail⟩ := ih hwalked hr
      refine ⟨d :: mid, d', post, st'', rfl, ?_, ?_⟩
      · rwa [List.append_cons]
      · rwa [List.append_cons pre d mid]

/-- After a walk, the cursor is at the end of the last descriptor. -/
theorem Walked.cursor_eq {pre : List EfiMemoryDescriptor} {d : EfiMemoryDescriptor}
    (h : Walked segs cap (pre ++ [d]) st) : st.cursor.toNat = d.stop := by
  have hle := h.stops d (by simp)
  obtain ⟨hnil, -⟩ | ⟨d', hd', heq⟩ := h.last
  · exact absurd hnil (by simp)
  obtain hd' | hd' := List.mem_append.1 hd'
  · have h₁ := ((walkable_concat_iff pre d).1 h.walkable).2.2 d' hd'
    have h₂ := (h.walkable.valid d (by simp)).start_lt_stop
    omega
  · rw [← heq, List.mem_singleton.1 hd']

/-- A descriptor fails one of the checks, or the runs up to its end do not fit the array. -/
theorem translateDescriptor_error (hpaged : ∀ seg ∈ segs, seg.Paged)
    {ds : List EfiMemoryDescriptor} {d : EfiMemoryDescriptor} (h : Walked segs cap ds st) {a : ℕ}
    (ha : a % 8 = 0) {e : MapStatus × MapDiagnostic}
    (hr : translateDescriptor fuel segs cap a ds.length d st = some (.error e)) :
    checkDescriptor a ds.length st.cursor d = .error e ∨
    e.1 = .errOutputFull ∧ Walkable (ds ++ [d]) ∧
      cap.toNat < runs (ownership segs (ds ++ [d])) d.stop := by
  unfold translateDescriptor at hr
  rcases hcheck : checkDescriptor a ds.length st.cursor d with e' | «end»
  · rw [hcheck] at hr
    cases hr
    exact Or.inl rfl
  obtain ⟨hwalk, hend⟩ := (h.check_iff ha «end»).1 hcheck
  have hvalid := hwalk.valid d (by simp)
  have hstretch := hwalk.stretch segs
  rw [← hend] at hstretch
  rw [hcheck] at hr
  dsimp only at hr
  rcases hcover : coverDescriptor fuel segs cap «end» (efiToSypasMemtype d.type)
      { st with cursor := d.physicalStart } with - | r
  · rw [hcover] at hr
    cases hr
  rw [hcover] at hr
  rcases coverDescriptor_sound (efiToSypasMemtype_ne_kernel _) hpaged
      (hend ▸ hvalid.stop_aligned) (h.enter hwalk)
      (by dsimp only; rw [hend]; exact hvalid.start_lt_stop.le) hstretch hcover with
    ⟨rfl, hfull⟩ | ⟨st', rfl, -⟩
  · cases hr
    exact Or.inr ⟨rfl, hwalk, hend ▸ hfull⟩
  · cases hr

/-- An overlap is reported only of a descriptor that intersects the one before it. -/
theorem translateDescriptor_overlap (hpaged : ∀ seg ∈ segs, seg.Paged)
    {ds : List EfiMemoryDescriptor} {d : EfiMemoryDescriptor} (h : Walked segs cap ds st) {a : ℕ}
    (ha : a % 8 = 0) (hsorted : ∀ d' ∈ ds, d'.physicalStart.toNat ≤ d.physicalStart.toNat)
    {diagnostic : MapDiagnostic}
    (hr : translateDescriptor fuel segs cap a ds.length d st =
      some (.error (.errRangeOverlap, diagnostic))) (hlen : ds.length < 2 ^ 64)
    (post : List EfiMemoryDescriptor) :
    NamesOverlap (ds ++ d :: post) diagnostic := by
  obtain hcheck | ⟨hstatus, -⟩ := translateDescriptor_error hpaged h ha hr
  swap
  · cases hstatus
  obtain ⟨hvalid, hne, hlt, rfl⟩ := checkDescriptor_overlap hcheck
  obtain rfl | ⟨pre, previous, rfl⟩ := List.eq_nil_or_concat' ds
  · exact absurd rfl hne
  have hcursor := h.cursor_eq
  have hstart := hsorted previous (by simp)
  have hindex : (UInt64.ofNat (pre ++ [previous]).length).toNat = pre.length + 1 := by
    rw [Word.toNat_ofNat_of_lt hlen, List.length_append, List.length_singleton]
  exact ⟨pre.length, previous, d, by simp, by simp, hindex, rfl,
    Word.toNat_ofNat_of_lt hvalid.stop_lt, hcursor, d.physicalStart.toNat, ⟨hstart, by omega⟩,
    le_rfl, hvalid.start_lt_stop⟩

/-- A failed walk over sorted descriptors: they are not walkable within the array, and
    a reported overlap is one. -/
theorem translateAll_blame (hpaged : ∀ seg ∈ segs, seg.Paged) (hmap : map % 8 = 0)
    (hstride : stride % 8 = 0) {ds : List EfiMemoryDescriptor}
    (hsorted : ds.Pairwise fun d d' => d.physicalStart.toNat ≤ d'.physicalStart.toNat)
    (hlen : ds.length < 2 ^ 64) {e : MapStatus × MapDiagnostic}
    (hr : translateAll fuel segs cap map stride ds 0 ⟨0, [], 0⟩ = some (.error e)) :
    e.1 ≠ .ok ∧ ¬(Walkable ds ∧ runs (ownership segs ds) (2 ^ 64) ≤ cap.toNat) ∧
      (e.1 = .errRangeOverlap → NamesOverlap ds e.2) := by
  obtain ⟨mid, d, post, st, rfl, hwalked, hfail⟩ :=
    translateAll_error hpaged hmap hstride (walked_nil segs cap) hr
  rw [List.nil_append] at hwalked hfail
  have ha := descriptor_aligned hmap hstride mid.length
  refine ⟨?_, ?_, ?_⟩
  · obtain ⟨e', he', hst, -⟩ | ⟨st', hst', -⟩ :=
      translateDescriptor_sound hpaged hwalked ha hfail
    · cases he'
      exact hst
    · cases hst'
  · rintro ⟨hwalk, hroom⟩
    obtain ⟨e', -, -, hblame⟩ | ⟨st', hst', -⟩ :=
      translateDescriptor_sound hpaged hwalked ha hfail
    · rw [List.append_cons] at hwalk hroom
      have hstop := (hwalk.valid d (by simp)).stop_lt
      exact hblame ⟨hwalk.of_append, ((runs_prefix_le mid post hwalk (by simp)).trans
        (runs_mono _ hstop.le)).trans hroom⟩
    · cases hst'
  · intro hover
    obtain ⟨status, diagnostic⟩ := e
    dsimp only at hover
    subst hover
    exact translateDescriptor_overlap hpaged hwalked ha
      (fun d' hd' => (List.pairwise_append.1 hsorted).2.2 d' hd' d (by simp)) hfail
      (by rw [List.length_append] at hlen; omega) post

/-! ## Acceptance -/

/-- The inputs that are translated: a map of whole descriptors, valid and disjoint; a
    plan of whole pages whose disjoint segments lie in LOADER memory; and room for the
    maximal runs of the resulting classification. -/
structure MapAccepts (efiMap : ℕ) (mapSize descriptorSize : UInt64) (kernel : ElfLoadPlan)
    (outCapacity : UInt64) (ds : List EfiMemoryDescriptor) : Prop where
  args : MapArgs efiMap mapSize descriptorSize
  paged : ∀ seg ∈ kernel.segs, seg.Paged
  bytes : (kernel.segs.map ElfSegment.pageBytes).sum < 2 ^ 64
  valid : ∀ d ∈ ds, d.Valid
  apart : Apart ds
  segments_apart : SegmentsApart kernel.segs
  loaded : LoadedInLoader kernel.segs ds
  room : runs (ownership kernel.segs ds) (2 ^ 64) ≤ outCapacity.toNat

/-- Above the last descriptor no run starts. -/
theorem Walked.runs_eq {ds : List EfiMemoryDescriptor} (h : Walked segs cap ds st) :
    runs (ownership segs ds) (2 ^ 64) = runs (ownership segs ds) st.cursor.toNat := by
  refine runs_skip st.cursor.toNat_lt.le fun a ha _ => ownership_eq_none fun d hd hin => ?_
  have h₁ := h.stops d hd
  have h₂ := hin.2
  omega

theorem LoadedInLoader.sortByStart_iff {ds : List EfiMemoryDescriptor} :
    LoadedInLoader segs (sortByStart ds) ↔ LoadedInLoader segs ds := by
  unfold LoadedInLoader
  simp only [mem_sortByStart]

theorem length_inputDescriptors_lt (mem : ℕ → UInt8) (efiMap : ℕ)
    (mapSize descriptorSize : UInt64) :
    (sortByStart (inputDescriptors mem efiMap mapSize descriptorSize)).length < 2 ^ 64 := by
  rw [sortByStart, (perm_sortBy _ _).length_eq, inputDescriptors, descriptorsAt, List.length_map,
    List.length_range]
  exact UInt64.toNat_lt _

/-- A call of `sypas_translate_memory_map` that comes back, on an aligned buffer, succeeds
    exactly on the inputs it should accept. Otherwise `*out_count` is as before, and a
    reported overlap is one. -/
theorem sypasTranslateMemoryMap_accepts_iff {fuel efiMap : ℕ} {mapSize descriptorSize : UInt64}
    {kernel : ElfLoadPlan} {outCapacity outCount : UInt64} {s : Ram} {res : MapResult}
    (haligned : efiMap % 8 = 0)
    (hr : (sypasTranslateMemoryMap fuel efiMap mapSize descriptorSize kernel outCapacity outCount
      s).1 = some res) :
    (res.status = .ok ↔ MapAccepts efiMap mapSize descriptorSize kernel outCapacity
      (inputDescriptors s.mem efiMap mapSize descriptorSize)) ∧
    (res.status ≠ .ok → res.outCount = outCount) ∧
    (res.status = .errRangeOverlap →
      NamesOverlap (sortByStart (inputDescriptors s.mem efiMap mapSize descriptorSize))
        res.diagnostic) := by
  by_cases hargs : MapArgs efiMap mapSize descriptorSize
  swap
  · rw [sypasTranslateMemoryMap_of_not_args _ _ _ _ _ _ _ _ hargs] at hr
    cases hr
    exact ⟨iff_of_false (by rintro ⟨⟩) fun h => hargs h.args, fun _ => rfl, by rintro ⟨⟩⟩
  have hlen := length_inputDescriptors_lt s.mem efiMap mapSize descriptorSize
  have hsorted := sortByStart_sorted (inputDescriptors s.mem efiMap mapSize descriptorSize)
  rw [sypasTranslateMemoryMap_run _ _ _ _ _ _ _ _ hargs, translateSorted] at hr
  generalize inputDescriptors s.mem efiMap mapSize descriptorSize = ds at *
  rcases hplan : expectedKernelBytes kernel.segs 0 with status | expected
  · -- the plan's guard fails
    rw [hplan] at hr
    obtain rfl := expectedKernelBytes_error hplan
    cases hr
    refine ⟨iff_of_false (by rintro ⟨⟩) fun h => ?_, fun _ => rfl, by rintro ⟨⟩⟩
    have hok := (expectedKernelBytes_eq_ok_iff kernel.segs 0
      (UInt64.ofNat (kernel.segs.map ElfSegment.pageBytes).sum)).2 ⟨h.paged, by
        rw [Word.toNat_ofNat_of_lt h.bytes, UInt64.toNat_zero, Nat.zero_add]⟩
    rw [hplan] at hok
    cases hok
  obtain ⟨hpaged, hexpected⟩ := (expectedKernelBytes_eq_ok_iff _ _ _).1 hplan
  rw [UInt64.toNat_zero, Nat.zero_add] at hexpected
  have hbytes := expected.toNat_lt
  rw [hplan] at hr
  dsimp only at hr
  rcases hloop : translateAll fuel kernel.segs outCapacity efiMap descriptorSize.toNat
      (sortByStart ds) 0 ⟨0, [], 0⟩ with - | (e | st)
  · rw [hloop] at hr
    cases hr
  · -- some descriptor is refused
    rw [hloop] at hr
    cases hr
    obtain ⟨hne, hblame, hover⟩ :=
      translateAll_blame hpaged haligned hargs.size_aligned hsorted hlen hloop
    refine ⟨iff_of_false hne fun h => hblame ?_, fun _ => rfl, hover⟩
    have hwalk := (walkable_sortByStart_iff ds).2 ⟨h.valid, h.apart⟩
    rw [hwalk.ownership_sortByStart]
    exact ⟨hwalk, h.room⟩
  rw [hloop] at hr
  have hwalked : Walked kernel.segs outCapacity (sortByStart ds) st := by
    obtain ⟨e, he, -⟩ | ⟨st', hst, hwalked⟩ := translateAll_sound hpaged haligned
      hargs.size_aligned (walked_nil kernel.segs outCapacity) hloop
    · cases he
    · cases hst
      rwa [List.nil_append] at hwalked
  -- every descriptor passed; what is left is the count of tagged bytes
  have htotals := hwalked.tagged_eq_iff
  rw [LoadedInLoader.sortByStart_iff] at htotals
  dsimp only at hr
  by_cases htagged : st.tagged = expected
  · rw [if_neg (not_not.2 htagged)] at hr
    cases hr
    obtain ⟨hapart, hloaded⟩ := htotals.1 (by rw [htagged, hexpected])
    obtain ⟨hvalid, hdisjoint⟩ := (walkable_sortByStart_iff ds).1 hwalked.walkable
    have hroom : runs (ownership kernel.segs ds) (2 ^ 64) ≤ outCapacity.toNat := by
      rw [← hwalked.walkable.ownership_sortByStart, hwalked.runs_eq,
        ← hwalked.good.out.length_eq]
      exact hwalked.good.out.room
    exact ⟨iff_of_true rfl ⟨hargs, hpaged, by rw [← hexpected]; exact hbytes, hvalid, hdisjoint,
      hapart, hloaded, hroom⟩, fun h => absurd rfl h, by rintro ⟨⟩⟩
  · rw [if_pos htagged] at hr
    cases hr
    refine ⟨iff_of_false (by rintro ⟨⟩) fun h => htagged ?_, fun _ => rfl, by rintro ⟨⟩⟩
    rw [← UInt64.toNat_inj, hexpected]
    exact htotals.2 ⟨h.segments_apart, h.loaded⟩

/-- The call on `splitMap` is one that comes back. -/
theorem splitMap_accepts_iff :
    (splitResult.status = .ok ↔ MapAccepts 0x1000 80 40 splitPlan 16
      (inputDescriptors splitMap.mem 0x1000 80 40)) ∧
    (splitResult.status ≠ .ok → splitResult.outCount = 0) ∧
    (splitResult.status = .errRangeOverlap →
      NamesOverlap (sortByStart (inputDescriptors splitMap.mem 0x1000 80 40))
        splitResult.diagnostic) :=
  sypasTranslateMemoryMap_accepts_iff (by decide)
    (show (sypasTranslateMemoryMap 3 0x1000 80 40 splitPlan 16 0 splitMap).1 = some splitResult by
      decide +kernel)

end Sypas
