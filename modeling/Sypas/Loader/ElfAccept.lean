import Sypas.Loader.ElfFormat

/-!
# `elf_plan_load` accepts exactly the SYPAS v1 format

The `PT_LOAD` loop is followed header by header: the headers before the cursor
are acceptable together, and the plan built so far lists their segments.

## Main definitions

- `Sypas.Acceptable` — what the loop demands of a list of program headers
- `Sypas.ElfLoadPlan.Lists` — the plan describes the segments of a list of headers

## Main results

- `Sypas.planAll_eq_ok_iff` — the loop accepts exactly the acceptable lists
- `Sypas.elfPlanLoad_accepts` — the validator accepts exactly the format, and
  the plan it leaves behind
-/

namespace Sypas

open Ram

/-- The program header table of `n` entries at `pht`. -/
def phdrsAt (mem : ℕ → UInt8) (pht n : ℕ) : List Elf64Phdr :=
  (List.range n).map fun i => Elf64Phdr.at mem (pht + 56 * i)

/-- What the `PT_LOAD` loop demands of the headers it has walked over. -/
structure Acceptable (fsize : UInt64) (phs : List Elf64Phdr) : Prop where
  policy : ∀ ph ∈ phs, ph.IsLoad → LoadPolicy ph
  range : ∀ ph ∈ segmentHeaders phs, LoadRange fsize ph
  max_segments : (segmentHeaders phs).length ≤ 16
  disjoint : (segmentHeaders phs).Pairwise PagesDisjoint

namespace ElfLoadPlan

/-- The plan lists the segments of `phs`, in order, with their exact span. -/
structure Lists (plan : ElfLoadPlan) (phs : List Elf64Phdr) : Prop where
  segs : plan.segs = (segmentHeaders phs).map loadSegment
  base_le : ∀ seg ∈ plan.segs, plan.physBase ≤ seg.pageBase
  le_end : ∀ seg ∈ plan.segs, seg.pageEnd ≤ plan.physEnd
  base_mem : plan.segs ≠ [] → ∃ seg ∈ plan.segs, seg.pageBase = plan.physBase
  end_mem : plan.segs ≠ [] → ∃ seg ∈ plan.segs, seg.pageEnd = plan.physEnd
  empty : plan.segs = [] → plan.physBase = 0xFFFFFFFFFFFFFFFF ∧ plan.physEnd = 0

theorem reset_lists (plan : ElfLoadPlan) : plan.reset.Lists [] where
  segs := rfl
  base_le := fun _ h => absurd h List.not_mem_nil
  le_end := fun _ h => absurd h List.not_mem_nil
  base_mem := fun h => absurd rfl h
  end_mem := fun h => absurd rfl h
  empty := fun _ => ⟨rfl, rfl⟩

end ElfLoadPlan

/-! ## Segments as natural-number ranges -/

theorem toNat_loadSegment_pageBase (ph : Elf64Phdr) :
    (loadSegment ph).pageBase.toNat = ph.firstPage := by
  have hp := ph.pPaddr.toNat_lt
  refine Word.toNat_ofNat_of_lt ?_
  unfold Elf64Phdr.firstPage pageFloor
  omega

theorem toNat_loadSegment_pageEnd {fsize : UInt64} {ph : Elf64Phdr} (h : LoadRange fsize ph) :
    (loadSegment ph).pageEnd.toNat = ph.lastPage := by
  have hmem := h.memory
  refine Word.toNat_ofNat_of_lt ?_
  unfold Elf64Phdr.lastPage pageCeil
  omega

/-- A segment that occupies memory has at least one page. -/
theorem firstPage_lt_lastPage {ph : Elf64Phdr} (h : ph.IsSegment) : ph.firstPage < ph.lastPage := by
  have hpos : ph.pMemsz.toNat ≠ 0 := by
    rw [← UInt64.toNat_zero, ne_eq, UInt64.toNat_inj]
    exact h.2
  unfold Elf64Phdr.firstPage Elf64Phdr.lastPage pageFloor pageCeil
  omega

theorem segOverlap_loadSegment {fsize : UInt64} {p q : Elf64Phdr} (hp : LoadRange fsize p)
    (hq : LoadRange fsize q) :
    segOverlap (loadSegment p) (loadSegment q) = false ↔ PagesDisjoint q p := by
  unfold segOverlap PagesDisjoint
  rw [decide_eq_false_iff_not, UInt64.lt_iff_toNat_lt, UInt64.lt_iff_toNat_lt,
    toNat_loadSegment_pageBase, toNat_loadSegment_pageBase, toNat_loadSegment_pageEnd hp,
    toNat_loadSegment_pageEnd hq]
  omega

theorem mem_segmentHeaders {phs : List Elf64Phdr} {ph : Elf64Phdr} :
    ph ∈ segmentHeaders phs ↔ ph ∈ phs ∧ ph.IsSegment := by
  rw [segmentHeaders, List.mem_filter, decide_eq_true_eq]

theorem segmentHeaders_append (phs qhs : List Elf64Phdr) :
    segmentHeaders (phs ++ qhs) = segmentHeaders phs ++ segmentHeaders qhs :=
  List.filter_append ..

theorem segmentHeaders_singleton (ph : Elf64Phdr) :
    segmentHeaders [ph] = if ph.IsSegment then [ph] else [] := by
  simp only [segmentHeaders, List.filter_cons, List.filter_nil, decide_eq_true_eq]

/-! ## Statuses of rejection -/

theorem checkLoad_ne_ok (ph : Elf64Phdr) : checkLoad ph ≠ some .ok := by
  unfold checkLoad
  repeat' split
  all_goals exact fun h => nomatch h

theorem checkEhdr_ne_ok (eh : Elf64Ehdr) (fsize : UInt64) : checkEhdr eh fsize ≠ some .ok := by
  intro h
  unfold checkEhdr at h
  repeat' split at h
  all_goals try cases h
  dsimp only at h
  rcases hend : addOk eh.ePhoff (eh.ePhnum.toUInt64 * sizeofElf64Phdr) with - | phtEnd
  · rw [hend] at h
    cases h
  · rw [hend] at h
    dsimp only at h
    split at h <;> cases h

theorem addOrOverflow_ne_ok (a b : UInt64) : addOrOverflow a b ≠ .error .ok := by
  unfold addOrOverflow
  split <;> exact fun h => nomatch h

theorem planSegment_ne_ok (fsize : UInt64) (ph : Elf64Phdr) :
    planSegment fsize ph ≠ .error .ok := by
  unfold planSegment
  intro h
  rcases hfile : addOrOverflow ph.pOffset ph.pFilesz with st | fileEnd
  · rw [hfile] at h
    cases h
    exact addOrOverflow_ne_ok _ _ hfile
  rw [hfile] at h
  simp only [bind, Except.bind] at h
  split at h
  · cases h
  rcases hmem : addOrOverflow ph.pPaddr ph.pMemsz with st | memEnd
  · rw [hmem] at h
    cases h
    exact addOrOverflow_ne_ok _ _ hmem
  rw [hmem] at h
  simp only at h
  rcases hpage : addOrOverflow memEnd elfPageMask with st | pageEnd
  · rw [hpage] at h
    cases h
    exact addOrOverflow_ne_ok _ _ hpage
  · rw [hpage] at h
    cases h

theorem planPhdr_ne_ok (fsize : UInt64) (ph : Elf64Phdr) (plan : ElfLoadPlan) :
    planPhdr fsize ph plan ≠ .error .ok := by
  unfold planPhdr
  intro h
  split at h
  · cases h
  split at h
  · next hload =>
    cases h
    exact checkLoad_ne_ok ph hload
  split at h
  · cases h
  split at h
  · cases h
  split at h
  · next hseg =>
    cases h
    exact planSegment_ne_ok fsize ph hseg
  split at h <;> cases h

/-! ## One header -/

/-- What one round of the loop accepts, and the plan it leaves. -/
theorem planPhdr_eq_ok_iff (fsize : UInt64) (ph : Elf64Phdr) (plan plan' : ElfLoadPlan) :
    planPhdr fsize ph plan = .ok plan' ↔
      (ph.IsLoad → LoadPolicy ph) ∧
      (¬ph.IsSegment ∧ plan' = plan ∨
        ph.IsSegment ∧ LoadRange fsize ph ∧
          (∀ o ∈ plan.segs, segOverlap (loadSegment ph) o = false) ∧
          ∃ h : plan.segs.length ≠ elfMaxSegments, plan' = plan.push (loadSegment ph) h) := by
  unfold planPhdr
  by_cases hload : ph.IsLoad
  swap
  · have hseg : ¬ph.IsSegment := fun h => hload h.1
    have hne : ph.pType ≠ ptLoad := hload
    rw [if_pos hne]
    simp only [hload, hseg, false_implies, true_and, not_false_eq_true, false_and, or_false,
      Except.ok.injEq]
    exact eq_comm
  have heq : ¬ph.pType ≠ ptLoad := not_not.2 hload
  rw [if_neg heq]
  rcases hpol : checkLoad ph with - | st
  swap
  · have hno : ¬LoadPolicy ph := by
      rw [← checkLoad_eq_none_iff, hpol]
      simp
    simp [hload, hno]
  have hpolicy : LoadPolicy ph := (checkLoad_eq_none_iff ph).1 hpol
  -- an empty load header passes the policy and is skipped
  by_cases hmem : ph.pMemsz = 0
  · have hseg : ¬ph.IsSegment := fun h => h.2 hmem
    simp only [hmem, if_true, hpolicy, implies_true, hseg, true_and, not_false_eq_true, false_and,
      or_false, Except.ok.injEq]
    exact eq_comm
  have hseg : ph.IsSegment := ⟨hload, hmem⟩
  simp only [hmem, if_false, hpolicy, implies_true, true_and, hseg, not_true, false_and, false_or]
  by_cases hfull : plan.segs.length = elfMaxSegments
  · simp [hfull]
  rw [dif_neg hfull]
  rcases hplan : planSegment fsize ph with st | seg
  · have hno : ¬LoadRange fsize ph := by
      intro hrange
      rw [(planSegment_eq_ok_iff fsize ph _).2 ⟨hrange, rfl⟩] at hplan
      cases hplan
    simp [hno]
  obtain ⟨hrange, rfl⟩ := (planSegment_eq_ok_iff fsize ph seg).1 hplan
  by_cases hany : plan.segs.any (segOverlap (loadSegment ph)) = true
  · have hno : ¬∀ o ∈ plan.segs, segOverlap (loadSegment ph) o = false := by
      obtain ⟨o, ho, hover⟩ := List.any_eq_true.1 hany
      exact fun hall => by rw [hall o ho] at hover; cases hover
    simp only [hany, if_true, reduceCtorEq, hno, false_and, and_false]
  · have hall : ∀ o ∈ plan.segs, segOverlap (loadSegment ph) o = false := by
      simpa using hany
    dsimp only
    rw [if_neg hany, Except.ok.injEq]
    constructor
    · rintro rfl
      exact ⟨hrange, hall, hfull, rfl⟩
    · rintro ⟨-, -, -, rfl⟩
      rfl

theorem Acceptable.nil (fsize : UInt64) : Acceptable fsize [] where
  policy := fun _ h => absurd h List.not_mem_nil
  range := fun _ h => absurd h List.not_mem_nil
  max_segments := Nat.zero_le _
  disjoint := List.Pairwise.nil

/-- Acceptability of a list, split at its last header. -/
theorem acceptable_append_singleton (fsize : UInt64) (phs : List Elf64Phdr) (ph : Elf64Phdr) :
    Acceptable fsize (phs ++ [ph]) ↔
      Acceptable fsize phs ∧ (ph.IsLoad → LoadPolicy ph) ∧
      (ph.IsSegment → LoadRange fsize ph ∧ (∀ p ∈ segmentHeaders phs, PagesDisjoint p ph) ∧
        (segmentHeaders phs).length < 16) := by
  have hsplit : segmentHeaders (phs ++ [ph]) =
      segmentHeaders phs ++ if ph.IsSegment then [ph] else [] := by
    rw [segmentHeaders_append, segmentHeaders_singleton]
  constructor
  · rintro ⟨hpol, hrange, hmax, hdis⟩
    rw [hsplit] at hrange hmax hdis
    refine ⟨⟨fun p hp => hpol p (by simp [hp]), fun p hp => hrange p (by simp [hp]), ?_, ?_⟩,
      hpol ph (by simp), ?_⟩
    · rw [List.length_append] at hmax
      omega
    · exact (List.pairwise_append.1 hdis).1
    · intro hseg
      rw [if_pos hseg] at hrange hmax hdis
      refine ⟨hrange ph (by simp), fun p hp => ?_, ?_⟩
      · exact (List.pairwise_append.1 hdis).2.2 p hp ph (by simp)
      · rw [List.length_append, List.length_singleton] at hmax
        omega
  · rintro ⟨⟨hpol, hrange, hmax, hdis⟩, hpolicy, hnew⟩
    have hpolicies : ∀ p ∈ phs ++ [ph], p.IsLoad → LoadPolicy p := by
      intro p hp hload
      rcases List.mem_append.1 hp with hp | hp
      · exact hpol p hp hload
      · rw [List.mem_singleton] at hp
        subst hp
        exact hpolicy hload
    by_cases hseg : ph.IsSegment
    · obtain ⟨hrange', hdis', hlt⟩ := hnew hseg
      rw [if_pos hseg] at hsplit
      refine ⟨hpolicies, ?_, ?_, ?_⟩ <;> rw [hsplit]
      · intro p hp
        rcases List.mem_append.1 hp with hp | hp
        · exact hrange p hp
        · rw [List.mem_singleton] at hp
          rwa [hp]
      · rw [List.length_append, List.length_singleton]
        omega
      · refine List.pairwise_append.2 ⟨hdis, List.pairwise_singleton _ _, fun p hp q hq => ?_⟩
        rw [List.mem_singleton] at hq
        rw [hq]
        exact hdis' p hp
    · rw [if_neg hseg, List.append_nil] at hsplit
      exact ⟨hpolicies, by rwa [hsplit], by rwa [hsplit], by rwa [hsplit]⟩

namespace ElfLoadPlan

theorem Lists.skip {plan : ElfLoadPlan} {phs : List Elf64Phdr} {ph : Elf64Phdr}
    (h : plan.Lists phs) (hseg : ¬ph.IsSegment) : plan.Lists (phs ++ [ph]) := by
  refine { h with segs := ?_ }
  rw [segmentHeaders_append, segmentHeaders_singleton, if_neg hseg, List.append_nil, h.segs]

theorem push_segs (plan : ElfLoadPlan) (seg : ElfSegment)
    (hfull : plan.segs.length ≠ elfMaxSegments) :
    (plan.push seg hfull).segs = plan.segs ++ [seg] := rfl

theorem toNat_push_physBase (plan : ElfLoadPlan) (seg : ElfSegment)
    (hfull : plan.segs.length ≠ elfMaxSegments) :
    (plan.push seg hfull).physBase.toNat = min seg.pageBase.toNat plan.physBase.toNat :=
  Word.toNat_ite_lt _ _

theorem toNat_push_physEnd (plan : ElfLoadPlan) (seg : ElfSegment)
    (hfull : plan.segs.length ≠ elfMaxSegments) :
    (plan.push seg hfull).physEnd.toNat = max seg.pageEnd.toNat plan.physEnd.toNat :=
  Word.toNat_ite_gt _ _

/-- Accepting one more segment keeps the span exact. -/
theorem Lists.push {plan : ElfLoadPlan} {phs : List Elf64Phdr} {ph : Elf64Phdr}
    (h : plan.Lists phs) (hseg : ph.IsSegment) (hfull : plan.segs.length ≠ elfMaxSegments) :
    (plan.push (loadSegment ph) hfull).Lists (phs ++ [ph]) := by
  have hbase := toNat_push_physBase plan (loadSegment ph) hfull
  have hend := toNat_push_physEnd plan (loadSegment ph) hfull
  have hnew : loadSegment ph ∈ (plan.push (loadSegment ph) hfull).segs := by
    simp [push_segs]
  have hold : ∀ seg ∈ plan.segs, seg ∈ (plan.push (loadSegment ph) hfull).segs := by
    intro seg hmem
    simp [push_segs, hmem]
  have hcases : ∀ seg ∈ (plan.push (loadSegment ph) hfull).segs,
      seg ∈ plan.segs ∨ seg = loadSegment ph := by
    intro seg hmem
    simpa [push_segs] using hmem
  refine ⟨?_, ?_, ?_, fun _ => ?_, fun _ => ?_, ?_⟩
  · rw [push_segs, h.segs, segmentHeaders_append, segmentHeaders_singleton, if_pos hseg,
      List.map_append, List.map_singleton]
  · intro seg hmem
    rw [UInt64.le_iff_toNat_le, hbase]
    rcases hcases seg hmem with hmem | rfl
    · exact (min_le_right _ _).trans (UInt64.le_iff_toNat_le.1 (h.base_le seg hmem))
    · exact min_le_left _ _
  · intro seg hmem
    rw [UInt64.le_iff_toNat_le, hend]
    rcases hcases seg hmem with hmem | rfl
    · exact (UInt64.le_iff_toNat_le.1 (h.le_end seg hmem)).trans (le_max_right _ _)
    · exact le_max_left _ _
  -- `phys_base` starts at the maximum, so the first segment replaces it
  · rcases le_total (loadSegment ph).pageBase.toNat plan.physBase.toNat with hle | hle
    · exact ⟨_, hnew, by rw [← UInt64.toNat_inj, hbase, min_eq_left hle]⟩
    · by_cases hnil : plan.segs = []
      · have hlt := (loadSegment ph).pageBase.toNat_lt
        refine ⟨_, hnew, ?_⟩
        rw [← UInt64.toNat_inj, hbase, min_eq_left]
        rw [(h.empty hnil).1, Word.toNat_max]
        omega
      · obtain ⟨seg, hmem, heq⟩ := h.base_mem hnil
        exact ⟨seg, hold seg hmem, by rw [← UInt64.toNat_inj, hbase, min_eq_right hle, heq]⟩
  · rcases le_total plan.physEnd.toNat (loadSegment ph).pageEnd.toNat with hle | hle
    · exact ⟨_, hnew, by rw [← UInt64.toNat_inj, hend, max_eq_left hle]⟩
    · by_cases hnil : plan.segs = []
      · refine ⟨_, hnew, ?_⟩
        rw [← UInt64.toNat_inj, hend, max_eq_left]
        rw [(h.empty hnil).2]
        exact Nat.zero_le _
      · obtain ⟨seg, hmem, heq⟩ := h.end_mem hnil
        exact ⟨seg, hold seg hmem, by rw [← UInt64.toNat_inj, hend, max_eq_right hle, heq]⟩
  · intro hnil
    rw [push_segs] at hnil
    simp at hnil

end ElfLoadPlan

/-! ## The whole table -/

/-- The `PT_LOAD` loop over a list of headers. -/
def planAll (fsize : UInt64) : List Elf64Phdr → ElfLoadPlan → ElfStatus × ElfLoadPlan
  | [], plan => (.ok, plan)
  | ph :: rest, plan =>
    match planPhdr fsize ph plan with
    | .error st => (st, plan)
    | .ok plan => planAll fsize rest plan

/-- Reading the table in memory is walking over the list of its headers. -/
theorem planPhdrs_run (fsize : UInt64) (pht n i : ℕ) (plan : ElfLoadPlan) (s : Ram) :
    (planPhdrs fsize pht n i plan s).1 =
      planAll fsize ((List.range' i n).map fun j => Elf64Phdr.at s.mem (pht + 56 * j)) plan := by
  induction n generalizing i plan s with
  | zero => rfl
  | succ n ih =>
    rw [planPhdrs, List.range'_succ, List.map_cons, planAll]
    simp only [Prog.bind_run, readWith_run]
    cases planPhdr fsize (Elf64Phdr.at s.mem (pht + 56 * i)) plan with
    | error st => rfl
    | ok plan' => exact ih (i + 1) plan' _

/-- From a plan that lists `phs`, the loop over `qhs` succeeds exactly when the
    two lists are acceptable together, and then the plan lists both. -/
theorem planAll_eq_ok_iff {fsize : UInt64} {phs : List Elf64Phdr} {plan : ElfLoadPlan}
    (hacc : Acceptable fsize phs) (hlist : plan.Lists phs) (qhs : List Elf64Phdr) :
    ((planAll fsize qhs plan).1 = .ok ↔ Acceptable fsize (phs ++ qhs)) ∧
    ((planAll fsize qhs plan).1 = .ok → (planAll fsize qhs plan).2.Lists (phs ++ qhs)) := by
  induction qhs generalizing phs plan with
  | nil =>
    rw [planAll, List.append_nil]
    exact ⟨⟨fun _ => hacc, fun _ => rfl⟩, fun _ => hlist⟩
  | cons ph rest ih =>
    have happ : phs ++ ph :: rest = (phs ++ [ph]) ++ rest := by simp
    have hover : (∀ o ∈ plan.segs, segOverlap (loadSegment ph) o = false) ∧ LoadRange fsize ph ↔
        LoadRange fsize ph ∧ ∀ p ∈ segmentHeaders phs, PagesDisjoint p ph := by
      rw [and_comm, hlist.segs, List.forall_mem_map]
      refine and_congr_right fun hrange => forall₂_congr fun p hp => ?_
      exact segOverlap_loadSegment hrange (hacc.range p hp)
    have hlen : plan.segs.length = (segmentHeaders phs).length := by
      rw [hlist.segs, List.length_map]
    -- a table that is accepted has only accepted prefixes
    have hmono : Acceptable fsize (phs ++ [ph] ++ rest) → Acceptable fsize (phs ++ [ph]) := by
      rintro ⟨hpol, hrange, hmax, hdis⟩
      rw [segmentHeaders_append] at hrange hmax hdis
      refine ⟨fun p hp => hpol p (List.mem_append_left _ hp),
        fun p hp => hrange p (List.mem_append_left _ hp), ?_, (List.pairwise_append.1 hdis).1⟩
      rw [List.length_append] at hmax
      omega
    rw [happ, planAll]
    rcases hround : planPhdr fsize ph plan with st | plan'
    · have hno : ¬Acceptable fsize (phs ++ [ph]) := by
        intro hall
        obtain ⟨-, hpol, hnew⟩ := (acceptable_append_singleton fsize phs ph).1 hall
        have hok : ∃ plan', planPhdr fsize ph plan = .ok plan' := by
          by_cases hseg : ph.IsSegment
          · obtain ⟨hrange, hdis, hlt⟩ := hnew hseg
            have hfull : plan.segs.length ≠ elfMaxSegments := by
              rw [hlen]
              exact hlt.ne
            exact ⟨_, (planPhdr_eq_ok_iff _ _ _ _).2 ⟨hpol, Or.inr
              ⟨hseg, hrange, (hover.2 ⟨hrange, hdis⟩).1, hfull, rfl⟩⟩⟩
          · exact ⟨plan, (planPhdr_eq_ok_iff _ _ _ _).2 ⟨hpol, Or.inl ⟨hseg, rfl⟩⟩⟩
        obtain ⟨plan', hok⟩ := hok
        rw [hok] at hround
        cases hround
      have hst : st ≠ .ok := fun h => planPhdr_ne_ok fsize ph plan (h ▸ hround)
      exact ⟨⟨fun h => absurd h hst, fun h => absurd (hmono h) hno⟩, fun h => absurd h hst⟩
    · obtain ⟨hpol, ⟨hseg, rfl⟩ | ⟨hseg, hrange, hdis, hfull, rfl⟩⟩ :=
        (planPhdr_eq_ok_iff _ _ _ _).1 hround
      · refine ih ?_ (hlist.skip hseg)
        exact (acceptable_append_singleton _ _ _).2 ⟨hacc, hpol, fun h => absurd h hseg⟩
      · refine ih ?_ (hlist.push hseg hfull)
        refine (acceptable_append_singleton _ _ _).2 ⟨hacc, hpol, fun _ =>
          ⟨hrange, (hover.1 ⟨hdis, hrange⟩).2, ?_⟩⟩
        have hle := plan.nsegs_le
        rw [hlen] at hle hfull
        exact lt_of_le_of_ne hle hfull

/-! ## The checks on the finished plan -/

theorem toNat_maxKernelSpan : elfMaxKernelSpan.toNat = 256 * 1024 * 1024 := by decide

/-- The span of a non-empty plan, against the limit. -/
theorem span_guard_iff {fsize : UInt64} {phs : List Elf64Phdr} {plan : ElfLoadPlan}
    (hacc : Acceptable fsize phs) (hlist : plan.Lists phs) (hne : plan.segs ≠ []) :
    plan.physEnd - plan.physBase > elfMaxKernelSpan ↔
      ¬∀ p ∈ segmentHeaders phs, ∀ q ∈ segmentHeaders phs,
        p.lastPage ≤ q.firstPage + 256 * 1024 * 1024 := by
  have hseg : ∀ {seg}, seg ∈ plan.segs → ∃ ph ∈ segmentHeaders phs, seg = loadSegment ph ∧
      seg.pageBase.toNat = ph.firstPage ∧ seg.pageEnd.toNat = ph.lastPage := by
    intro seg hmem
    rw [hlist.segs, List.mem_map] at hmem
    obtain ⟨ph, hph, rfl⟩ := hmem
    exact ⟨ph, hph, rfl, toNat_loadSegment_pageBase ph,
      toNat_loadSegment_pageEnd (hacc.range ph hph)⟩
  have hmem : ∀ {ph}, ph ∈ segmentHeaders phs → loadSegment ph ∈ plan.segs := by
    intro ph hph
    rw [hlist.segs]
    exact List.mem_map_of_mem hph
  have hlow : ∀ q ∈ segmentHeaders phs, plan.physBase.toNat ≤ q.firstPage := by
    intro q hq
    rw [← toNat_loadSegment_pageBase]
    exact UInt64.le_iff_toNat_le.1 (hlist.base_le _ (hmem hq))
  have hhigh : ∀ p ∈ segmentHeaders phs, p.lastPage ≤ plan.physEnd.toNat := by
    intro p hp
    rw [← toNat_loadSegment_pageEnd (hacc.range p hp)]
    exact UInt64.le_iff_toNat_le.1 (hlist.le_end _ (hmem hp))
  -- the bounds are attained, so the span is the distance of two segments
  obtain ⟨lo, hlo, hbase⟩ := hlist.base_mem hne
  obtain ⟨hi, hhi, hend⟩ := hlist.end_mem hne
  obtain ⟨q₀, hq₀, rfl, hfirst, -⟩ := hseg hlo
  obtain ⟨p₀, hp₀, rfl, -, hlast⟩ := hseg hhi
  rw [hbase] at hfirst
  rw [hend] at hlast
  have hle : plan.physBase ≤ plan.physEnd := by
    have h₁ := hhigh q₀ hq₀
    have h₂ := firstPage_lt_lastPage (mem_segmentHeaders.1 hq₀).2
    rw [UInt64.le_iff_toNat_le]
    omega
  have hle' := UInt64.le_iff_toNat_le.1 hle
  rw [gt_iff_lt, UInt64.lt_iff_toNat_lt, UInt64.toNat_sub_of_le _ _ hle, toNat_maxKernelSpan]
  constructor
  · intro hbig hall
    have := hall p₀ hp₀ q₀ hq₀
    omega
  · intro hno
    by_contra hsmall
    refine hno fun p hp q hq => ?_
    have h₁ := hhigh p hp
    have h₂ := hlow q hq
    omega

/-- The entry loop finds an executable segment whose file data holds the entry point. -/
theorem checkEntry_eq_ok_iff {entry : UInt64} {segs : List ElfSegment}
    (h : ∀ seg ∈ segs, seg.paddr.toNat + seg.filesz.toNat < 2 ^ 64) :
    checkEntry entry segs = .ok ↔ ∃ seg ∈ segs, seg.flags &&& pfX ≠ 0 ∧
      seg.paddr.toNat ≤ entry.toNat ∧ entry.toNat < seg.paddr.toNat + seg.filesz.toNat := by
  induction segs with
  | nil => simp [checkEntry]
  | cons seg rest ih =>
    have hhead := h seg List.mem_cons_self
    have hrest := ih fun s hs => h s (List.mem_cons_of_mem _ hs)
    rw [checkEntry, addOk_of_lt hhead]
    dsimp only
    rw [List.exists_mem_cons_iff, ← hrest, ← Word.toNat_add_of_lt hhead,
      ← UInt64.le_iff_toNat_le, ← UInt64.lt_iff_toNat_lt]
    split
    · next hin => exact ⟨fun _ => Or.inl hin, fun _ => rfl⟩
    · next hout => exact ⟨Or.inr, fun h => h.resolve_left hout⟩

/-- File data ends no later than the memory it is copied to. -/
theorem Acceptable.fileEnd_lt {fsize : UInt64} {phs : List Elf64Phdr} (h : Acceptable fsize phs)
    {plan : ElfLoadPlan} (hplan : plan.Lists phs) :
    ∀ seg ∈ plan.segs, seg.paddr.toNat + seg.filesz.toNat < 2 ^ 64 := by
  rw [hplan.segs, List.forall_mem_map]
  intro ph hph
  obtain ⟨hmem, hseg⟩ := mem_segmentHeaders.1 hph
  have hsize := (h.policy ph hmem hseg.1).filesz_le
  have hmemory := (h.range ph hph).memory
  change ph.pPaddr.toNat + ph.pFilesz.toNat < 2 ^ 64
  omega

/-- A status other than success is never produced for a plan that passes every check. -/
theorem finishPlan_eq_ok_iff {eh : Elf64Ehdr} {fsize : UInt64} {phs : List Elf64Phdr}
    {plan : ElfLoadPlan} (hacc : Acceptable fsize phs) (hlist : plan.Lists phs) :
    (finishPlan eh.eEntry plan).1 = .ok ↔
      1 ≤ (segmentHeaders phs).length ∧
      (∀ p ∈ segmentHeaders phs, ∀ q ∈ segmentHeaders phs,
        p.lastPage ≤ q.firstPage + 256 * 1024 * 1024) ∧
      ∃ ph ∈ segmentHeaders phs, ph.pFlags &&& pfX ≠ 0 ∧
        ph.pPaddr.toNat ≤ eh.eEntry.toNat ∧
        eh.eEntry.toNat < ph.pPaddr.toNat + ph.pFilesz.toNat := by
  have hnil : plan.segs = [] ↔ ¬1 ≤ (segmentHeaders phs).length := by
    rw [hlist.segs, List.map_eq_nil_iff, not_le, Nat.lt_one_iff, List.length_eq_zero_iff]
  have hfits := hacc.fileEnd_lt hlist
  unfold finishPlan
  by_cases hempty : plan.segs = []
  · rw [if_pos hempty]
    exact iff_of_false (fun h => nomatch h) fun h => hnil.1 hempty h.1
  rw [if_neg hempty]
  by_cases hspan : plan.physEnd - plan.physBase > elfMaxKernelSpan
  · rw [if_pos hspan]
    exact iff_of_false (fun h => nomatch h) fun h =>
      (span_guard_iff hacc hlist hempty).1 hspan h.2.1
  rw [if_neg hspan]
  have hspan' := not_not.1 (mt (span_guard_iff hacc hlist hempty).2 hspan)
  have hsome : 1 ≤ (segmentHeaders phs).length := not_not.1 (mt hnil.2 hempty)
  rw [and_iff_right hsome, and_iff_right hspan', checkEntry_eq_ok_iff hfits, hlist.segs]
  simp only [List.mem_map, exists_exists_and_eq_and]
  rfl

/-- The closing checks change nothing in the plan but its entry point. -/
theorem finishPlan_fields (eEntry : UInt64) (plan : ElfLoadPlan)
    (h : (finishPlan eEntry plan).1 = .ok) :
    (finishPlan eEntry plan).2.segs = plan.segs ∧
    (finishPlan eEntry plan).2.physBase = plan.physBase ∧
    (finishPlan eEntry plan).2.physEnd = plan.physEnd ∧
    (finishPlan eEntry plan).2.entry = eEntry := by
  unfold finishPlan at h ⊢
  split at h
  · cases h
  split at h
  · cases h
  · next hne hspan =>
    rw [if_neg hne, if_neg hspan]
    exact ⟨rfl, rfl, rfl, rfl⟩

/-- An accepted file has a segment to list. -/
theorem SypasV1.segs_ne_nil {eh : Elf64Ehdr} {phs : List Elf64Phdr} {fsize : UInt64}
    (h : SypasV1 eh phs fsize) {plan : ElfLoadPlan} (hlist : plan.Lists phs) : plan.segs ≠ [] := by
  have hsome := h.some_segment
  rw [hlist.segs, ne_eq, List.map_eq_nil_iff, ← List.length_eq_zero_iff]
  omega

/-! ## The validator -/

/-- `elf_plan_load` on the parsed headers. -/
def planFile (eh : Elf64Ehdr) (phs : List Elf64Phdr) (fsize : UInt64) (plan : ElfLoadPlan) :
    ElfStatus × ElfLoadPlan :=
  if fsize < sizeofElf64Ehdr then (.errTruncated, plan.reset)
  else match checkEhdr eh fsize with
    | some st => (st, plan.reset)
    | none =>
      if (planAll fsize phs plan.reset).1 = .ok then
        finishPlan eh.eEntry (planAll fsize phs plan.reset).2
      else planAll fsize phs plan.reset

/-- The validator computes from the headers it finds in memory, and nothing else. -/
theorem elfPlanLoad_run (file : ℕ) (fsize : UInt64) (plan : ElfLoadPlan) (s : Ram) :
    (elfPlanLoad file fsize plan s).1 =
      planFile (Elf64Ehdr.at s.mem file)
        (phdrsAt s.mem (file + (Elf64Ehdr.at s.mem file).ePhoff.toNat)
          (Elf64Ehdr.at s.mem file).ePhnum.toNat) fsize plan := by
  unfold elfPlanLoad planFile
  split
  · rfl
  simp only [Prog.bind_run, readWith_run]
  cases checkEhdr (Elf64Ehdr.at s.mem file) fsize with
  | some st => rfl
  | none =>
    simp only [Prog.bind_run, Prog.ite_run, Prog.pure_run, apply_ite Prod.fst, planPhdrs_run]
    rw [← List.range_eq_range']
    rfl

/-- The verdict and the plan, in terms of the parsed headers. -/
theorem planFile_accepts (eh : Elf64Ehdr) (phs : List Elf64Phdr) (fsize : UInt64)
    (plan : ElfLoadPlan) :
    ((planFile eh phs fsize plan).1 = .ok ↔ SypasV1 eh phs fsize) ∧
    ((planFile eh phs fsize plan).1 = .ok → (planFile eh phs fsize plan).2.Lists phs ∧
      (planFile eh phs fsize plan).2.entry = eh.eEntry) := by
  unfold planFile
  by_cases hsize : fsize < sizeofElf64Ehdr
  · rw [if_pos hsize]
    refine ⟨iff_of_false (fun h => nomatch h) fun h => ?_, fun h => nomatch h⟩
    have h64 := h.size
    rw [UInt64.lt_iff_toNat_lt, show sizeofElf64Ehdr.toNat = 64 from rfl] at hsize
    omega
  rw [if_neg hsize]
  have h64 : 64 ≤ fsize.toNat := by
    rw [UInt64.lt_iff_toNat_lt, show sizeofElf64Ehdr.toNat = 64 from rfl] at hsize
    omega
  -- each guard that fails denies one field of the format
  rcases hcheck : checkEhdr eh fsize with - | st
  swap
  · have hst : st ≠ .ok := fun h => checkEhdr_ne_ok eh fsize (h ▸ hcheck)
    refine ⟨iff_of_false hst fun h => ?_, fun h => absurd h hst⟩
    rw [(checkEhdr_eq_none_iff eh fsize).2 h.header] at hcheck
    cases hcheck
  have hheader := (checkEhdr_eq_none_iff eh fsize).1 hcheck
  obtain ⟨hiff, hlists⟩ := planAll_eq_ok_iff (Acceptable.nil fsize) plan.reset_lists phs
  rw [List.nil_append] at hiff hlists
  dsimp only
  by_cases hok : (planAll fsize phs plan.reset).1 = .ok
  swap
  · rw [if_neg hok]
    refine ⟨iff_of_false hok fun h => hok (hiff.2 ?_), fun h => absurd h hok⟩
    exact ⟨h.policy, h.range, h.max_segments, h.disjoint⟩
  rw [if_pos hok]
  have hacc := hiff.1 hok
  have hlist := hlists hok
  refine ⟨(finishPlan_eq_ok_iff hacc hlist).trans
    ⟨fun ⟨hsome, hspan, hentry⟩ => ?_, fun h => ?_⟩, fun h => ?_⟩
  · exact ⟨h64, hheader, hacc.policy, hacc.range, hsome, hacc.max_segments, hacc.disjoint, hspan,
      hentry⟩
  · exact ⟨h.some_segment, h.span, h.entry⟩
  · obtain ⟨hsegs, hbase, hend, hentry⟩ := finishPlan_fields _ _ h
    refine ⟨?_, hentry⟩
    constructor <;> rw [hsegs] <;> try rw [hbase]
    all_goals try rw [hend]
    exacts [hlist.segs, hlist.base_le, hlist.le_end, hlist.base_mem, hlist.end_mem, hlist.empty]

/-- `elf_plan_load` accepts exactly the format, and what an accepted file's plan
    contains. The file is any memory contents from `file` on. -/
theorem elfPlanLoad_accepts (file : ℕ) (fsize : UInt64) (plan : ElfLoadPlan) (s : Ram) :
    let eh := Elf64Ehdr.at s.mem file
    let phs := phdrsAt s.mem (file + eh.ePhoff.toNat) eh.ePhnum.toNat
    let r := (elfPlanLoad file fsize plan s).1
    (r.1 = .ok ↔ SypasV1 eh phs fsize) ∧
    (r.1 = .ok →
      r.2.segs = (segmentHeaders phs).map loadSegment ∧
      (∀ ph ∈ segmentHeaders phs,
        (loadSegment ph).pageBase.toNat = pageFloor ph.pPaddr.toNat ∧
        (loadSegment ph).pageEnd.toNat = pageCeil (ph.pPaddr.toNat + ph.pMemsz.toNat)) ∧
      (∀ seg ∈ r.2.segs, r.2.physBase ≤ seg.pageBase ∧ seg.pageEnd ≤ r.2.physEnd) ∧
      (∃ seg ∈ r.2.segs, seg.pageBase = r.2.physBase) ∧
      (∃ seg ∈ r.2.segs, seg.pageEnd = r.2.physEnd) ∧
      r.2.entry = eh.eEntry) := by
  intro eh phs r
  have hrun : r = planFile eh phs fsize plan := elfPlanLoad_run file fsize plan s
  obtain ⟨hiff, hplan⟩ := planFile_accepts eh phs fsize plan
  rw [← hrun] at hiff hplan
  refine ⟨hiff, fun hok => ?_⟩
  obtain ⟨hlist, hentry⟩ := hplan hok
  have hformat := hiff.1 hok
  have hne := hformat.segs_ne_nil hlist
  exact ⟨hlist.segs, fun ph hph => ⟨toNat_loadSegment_pageBase ph,
      toNat_loadSegment_pageEnd (hformat.range ph hph)⟩,
    fun seg hseg => ⟨hlist.base_le seg hseg, hlist.le_end seg hseg⟩, hlist.base_mem hne,
    hlist.end_mem hne, hentry⟩

end Sypas
