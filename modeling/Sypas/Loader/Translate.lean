import Sypas.Loader.Split

/-!
# The descriptor loop

The sorted descriptors are walked one by one. The walk's invariant says that the
descriptors behind it are valid and disjoint and that the output holds their
ownership. A descriptor either extends the walk, or fails a check or the array's
capacity, or leaves the translator stuck in the segment-splitting loop.

## Main definitions

- `Sypas.Walkable` — valid descriptors in ascending order
- `Sypas.Walked` — the invariant of the descriptor loop
- `Sypas.Stuck` — the descriptor at which the translator does not come back

## Main results

- `Sypas.translateAll_sound`, `Sypas.translateAll_hangs`, `Sypas.translateAll_ends` —
  what the loop returns, when it does not, and when it does
-/

namespace Sypas

open Extent

/-- Valid descriptors, each ending before the next begins. -/
structure Walkable (ds : List EfiMemoryDescriptor) : Prop where
  valid : ∀ d ∈ ds, d.Valid
  ordered : ds.Pairwise fun d d' => d.stop ≤ d'.physicalStart.toNat

theorem walkable_concat_iff (ds : List EfiMemoryDescriptor) (d : EfiMemoryDescriptor) :
    Walkable (ds ++ [d]) ↔
      Walkable ds ∧ d.Valid ∧ ∀ d' ∈ ds, d'.stop ≤ d.physicalStart.toNat := by
  constructor
  · rintro ⟨hvalid, hord⟩
    obtain ⟨hord, -, hlast⟩ := List.pairwise_append.1 hord
    exact ⟨⟨fun d' hd' => hvalid d' (by simp [hd']), hord⟩, hvalid d (by simp),
      fun d' hd' => hlast d' hd' d (by simp)⟩
  · rintro ⟨⟨hvalid, hord⟩, hd, hlast⟩
    refine ⟨fun d' hd' => ?_, List.pairwise_append.2 ⟨hord, List.pairwise_singleton _ _, ?_⟩⟩
    · rcases List.mem_append.1 hd' with hd' | hd'
      · exact hvalid d' hd'
      · rwa [List.mem_singleton.1 hd']
    · intro d' hd' e he
      rw [List.mem_singleton.1 he]
      exact hlast d' hd'

theorem Walkable.of_append {ds ds' : List EfiMemoryDescriptor} (h : Walkable (ds ++ ds')) :
    Walkable ds where
  valid := fun d hd => h.valid d (List.mem_append_left _ hd)
  ordered := (List.pairwise_append.1 h.ordered).1

/-- The invariant of the descriptor loop, after the descriptors `ds`. -/
structure Walked (segs : List ElfSegment) (cap : UInt64) (ds : List EfiMemoryDescriptor)
    (st : SplitState) : Prop where
  good : st.Good (ownership segs ds) cap
  walkable : Walkable ds
  stops : ∀ d ∈ ds, d.stop ≤ st.cursor.toNat
  last : (ds = [] ∧ st.cursor = 0) ∨ ∃ d ∈ ds, d.stop = st.cursor.toNat

theorem walked_nil (segs : List ElfSegment) (cap : UInt64) : Walked segs cap [] ⟨0, [], 0⟩ where
  good := ⟨⟨Covers.nil _, fun _ h => absurd h List.not_mem_nil, Nat.zero_le _⟩, rfl, rfl⟩
  walkable := ⟨fun _ h => absurd h List.not_mem_nil, List.Pairwise.nil⟩
  stops := fun _ h => absurd h List.not_mem_nil
  last := Or.inl ⟨rfl, rfl⟩

variable {segs : List ElfSegment} {cap : UInt64} {ds : List EfiMemoryDescriptor}
  {d : EfiMemoryDescriptor} {st : SplitState}

theorem Walked.stops_le_iff (h : Walked segs cap ds st) (a : ℕ) :
    (∀ d ∈ ds, d.stop ≤ a) ↔ st.cursor.toNat ≤ a := by
  constructor
  · intro hall
    rcases h.last with ⟨-, hzero⟩ | ⟨d, hd, heq⟩
    · rw [hzero]
      exact Nat.zero_le _
    · rw [← heq]
      exact hall d hd
  · exact fun hle d hd => (h.stops d hd).trans hle

/-! ## The checks on one descriptor -/

theorem checkDescriptor_eq_ok_iff {a i : ℕ} {previousEnd «end» : UInt64} (ha : a % 8 = 0)
    (hfirst : i = 0 → previousEnd = 0) :
    checkDescriptor a i previousEnd d = .ok «end» ↔
      d.Valid ∧ previousEnd.toNat ≤ d.physicalStart.toNat ∧ «end».toNat = d.stop := by
  have hend := «end».toNat_lt
  have hpage : pageSize.toNat = 4096 := by decide
  have hmask := and_pageMask_eq_zero_iff d.physicalStart
  unfold checkDescriptor
  rw [if_neg (not_not.2 ha)]
  split
  · next hzero => exact iff_of_false nofun fun h => h.1.pages hzero
  next hpages =>
  split
  · next hmis => exact iff_of_false nofun fun h => hmis (hmask.2 h.1.aligned)
  next hal =>
  have haligned := hmask.1 (not_not.1 hal)
  -- the product and the sum overflow exactly where the stop is beyond the addresses
  rcases hmul : mulOk d.numberOfPages pageSize with - | length
  · refine iff_of_false nofun fun h => ?_
    have hstop := h.1.stop_lt
    have hok := (mulOk_eq_some_iff (a := d.numberOfPages) (b := pageSize)
      (c := UInt64.ofNat (d.numberOfPages.toNat * 4096))).2 ?_
    · rw [hmul] at hok
      cases hok
    · rw [hpage]
      unfold EfiMemoryDescriptor.stop at hstop
      exact ⟨by omega, Word.toNat_ofNat_of_lt (by omega)⟩
  rw [mulOk_eq_some_iff, hpage] at hmul
  dsimp only
  have hlen : d.physicalStart.toNat + length.toNat = d.stop := by
    rw [hmul.2, EfiMemoryDescriptor.stop]
  rcases hadd : addOk d.physicalStart length with - | stop
  · rw [addOk_eq_none_iff, hlen] at hadd
    refine iff_of_false nofun fun h => ?_
    have hstop := h.1.stop_lt
    omega
  rw [addOk_eq_some_iff, hlen] at hadd
  have hvalid : d.Valid := ⟨hpages, haligned, hadd.1⟩
  dsimp only
  split
  · next hover =>
    refine iff_of_false nofun fun h => ?_
    have hlt := UInt64.lt_iff_toNat_lt.1 hover.2
    omega
  next hclear =>
  have hle : previousEnd.toNat ≤ d.physicalStart.toNat := by
    -- the first descriptor is not compared; there the previous end is 0
    by_cases hi : i = 0
    · rw [hfirst hi]
      exact Nat.zero_le _
    · by_contra hlt
      exact hclear ⟨hi, UInt64.lt_iff_toNat_lt.2 (not_le.1 hlt)⟩
  rw [and_iff_right hvalid, and_iff_right hle, Except.ok.injEq, ← UInt64.toNat_inj, hadd.2]
  exact eq_comm

theorem checkDescriptor_ne_ok {a i : ℕ} {previousEnd : UInt64} {diagnostic : MapDiagnostic} :
    checkDescriptor a i previousEnd d ≠ .error (.ok, diagnostic) := by
  intro h
  unfold checkDescriptor at h
  repeat' split at h
  all_goals cases h

/-- The checks extend the walk by exactly the next walkable descriptor. -/
theorem Walked.check_iff (h : Walked segs cap ds st) {a : ℕ} (ha : a % 8 = 0) («end» : UInt64) :
    checkDescriptor a ds.length st.cursor d = .ok «end» ↔
      Walkable (ds ++ [d]) ∧ «end».toNat = d.stop := by
  have hfirst : ds.length = 0 → st.cursor = 0 := by
    intro hlen
    rcases h.last with ⟨-, hzero⟩ | ⟨d', hd', -⟩
    · exact hzero
    · rw [List.length_eq_zero_iff.1 hlen] at hd'
      cases hd'
  rw [checkDescriptor_eq_ok_iff ha hfirst, walkable_concat_iff, ← h.stops_le_iff, and_assoc]
  exact ⟨fun ⟨hv, hs, he⟩ => ⟨h.walkable, ⟨hv, hs⟩, he⟩, fun ⟨_, ⟨hv, hs⟩, he⟩ => ⟨hv, hs, he⟩⟩

/-! ## One descriptor -/

/-- The translator does not come back from descriptor `d` after `ds`: it is LOADER
    memory, a segment runs past its end, and the output has room up to there. -/
structure Stuck (segs : List ElfSegment) (cap : UInt64) (ds : List EfiMemoryDescriptor)
    (d : EfiMemoryDescriptor) : Prop where
  walkable : Walkable (ds ++ [d])
  loader : efiToSypasMemtype d.type = sypasMemLoader
  straddles : ∃ seg ∈ segs, seg.Straddles d.stop
  room : runs (ownership segs (ds ++ [d])) d.stop ≤ cap.toNat

/-- At the start of the next descriptor, the invariant of the splitting loop holds for
    the classification that includes it. -/
theorem Walked.enter (h : Walked segs cap ds st) (hwalk : Walkable (ds ++ [d])) :
    SplitState.Good { st with cursor := d.physicalStart } (ownership segs (ds ++ [d])) cap := by
  obtain ⟨-, hvalid, hlast⟩ := (walkable_concat_iff ds d).1 hwalk
  have hle : st.cursor.toNat ≤ d.physicalStart.toNat := (h.stops_le_iff _).1 hlast
  have hbelow : ∀ a < st.cursor.toNat, ownership segs ds a = ownership segs (ds ++ [d]) a := by
    intro a ha
    rw [ownership_append_of_lt]
    intro d' hd'
    rw [List.mem_singleton.1 hd']
    omega
  have hgap : ∀ a, st.cursor.toNat ≤ a → a < d.physicalStart.toNat →
      ownership segs (ds ++ [d]) a = none := by
    intro a hca ha
    refine ownership_eq_none fun d' hd' hin => ?_
    rcases List.mem_append.1 hd' with hd' | hd'
    · have h₁ := h.stops d' hd'
      have h₂ := hin.2
      omega
    · rw [List.mem_singleton.1 hd'] at hin
      have h₁ := hin.1
      omega
  have hcount : kernelCount (ownership segs ds) st.cursor.toNat =
      kernelCount (ownership segs (ds ++ [d])) st.cursor.toNat := by
    unfold kernelCount
    rw [Nat.count_eq_card_filter_range, Nat.count_eq_card_filter_range]
    congr 1
    refine Finset.filter_congr fun a ha => ?_
    rw [hbelow a (Finset.mem_range.1 ha)]
  refine ⟨⟨(h.good.out.covers.congr hbelow).skip hle hgap, h.good.out.entries, h.good.out.room⟩,
    ?_, hvalid.aligned⟩
  dsimp only
  rw [h.good.tagged, hcount]
  refine (kernelCount_of_ne hle fun a h₁ h₂ => ?_).symm
  rw [hgap a h₁ h₂]
  exact nofun

/-- Inside the next descriptor, the classification is by its type and the segments. -/
theorem Walkable.stretch (hwalk : Walkable (ds ++ [d])) (segs : List ElfSegment) :
    Stretch segs (efiToSypasMemtype d.type) (ownership segs (ds ++ [d])) d.physicalStart.toNat
      d.stop := by
  obtain ⟨-, -, hlast⟩ := (walkable_concat_iff ds d).1 hwalk
  intro a h₁ h₂
  rw [ownership_append_of_holds (fun d' hd' hin => ?_) ⟨h₁, h₂⟩]
  · rfl
  · have h₃ := hlast d' hd'
    have h₄ := hin.2
    omega

theorem EfiMemoryDescriptor.Valid.stop_aligned (h : d.Valid) : d.stop % 4096 = 0 := by
  have := h.aligned
  unfold EfiMemoryDescriptor.stop
  omega

/-- What the body returns: the walk extended by `d`, or an error for which `d` itself or
    the room left in the array is to blame. -/
theorem translateDescriptor_sound (hpaged : ∀ seg ∈ segs, seg.Paged)
    (h : Walked segs cap ds st) {a fuel : ℕ} (ha : a % 8 = 0)
    {r : Except (MapStatus × MapDiagnostic) SplitState}
    (hr : translateDescriptor fuel segs cap a ds.length d st = some r) :
    (∃ e, r = .error e ∧ e.1 ≠ .ok ∧
      ¬(Walkable (ds ++ [d]) ∧ runs (ownership segs (ds ++ [d])) d.stop ≤ cap.toNat)) ∨
    ∃ st', r = .ok st' ∧ Walked segs cap (ds ++ [d]) st' := by
  unfold translateDescriptor at hr
  rcases hcheck : checkDescriptor a ds.length st.cursor d with e | «end»
  · rw [hcheck] at hr
    refine Or.inl ⟨e, (Option.some.inj hr).symm, fun hst => ?_, fun hall => ?_⟩
    · obtain ⟨status, diagnostic⟩ := e
      dsimp only at hst
      rw [hst] at hcheck
      exact checkDescriptor_ne_ok hcheck
    have hstop := (hall.1.valid d (by simp)).stop_lt
    rw [(h.check_iff ha (UInt64.ofNat d.stop)).2
      ⟨hall.1, Word.toNat_ofNat_of_lt hstop⟩] at hcheck
    cases hcheck
  obtain ⟨hwalk, hend⟩ := (h.check_iff ha «end»).1 hcheck
  have hvalid := hwalk.valid d (by simp)
  rw [hcheck] at hr
  dsimp only at hr
  -- the descriptor is good, so an error can only come from the room in the array
  rcases hcover : coverDescriptor fuel segs cap «end» (efiToSypasMemtype d.type)
      { st with cursor := d.physicalStart } with - | r'
  · rw [hcover] at hr
    cases hr
  have hstretch := hwalk.stretch segs
  rw [← hend] at hstretch
  rw [hcover] at hr
  rcases coverDescriptor_sound (efiToSypasMemtype_ne_kernel _) hpaged
      (hend ▸ hvalid.stop_aligned) (h.enter hwalk)
      (by dsimp only; rw [hend]; exact hvalid.start_lt_stop.le) hstretch hcover with
    ⟨rfl, hfull⟩ | ⟨st', rfl, hcursor, hgood⟩
  · rw [hend] at hfull
    exact Or.inl ⟨_, (Option.some.inj hr).symm, nofun, fun hall =>
      absurd hall.2 (not_le.2 hfull)⟩
  · refine Or.inr ⟨st', (Option.some.inj hr).symm, hgood, hwalk, ?_, Or.inr ⟨d, by simp, ?_⟩⟩
    · intro d' hd'
      rw [hcursor, hend]
      rcases List.mem_append.1 hd' with hd' | hd'
      · have := ((walkable_concat_iff ds d).1 hwalk).2.2 d' hd'
        exact this.trans hvalid.start_lt_stop.le
      · rw [List.mem_singleton.1 hd']
    · rw [hcursor, hend]

/-- The body does not end on a descriptor that leaves it stuck, … -/
theorem translateDescriptor_hangs (hpaged : ∀ seg ∈ segs, seg.Paged)
    (h : Walked segs cap ds st) {a : ℕ} (ha : a % 8 = 0) (hstuck : Stuck segs cap ds d)
    (fuel : ℕ) : translateDescriptor fuel segs cap a ds.length d st = none := by
  have hvalid := hstuck.walkable.valid d (by simp)
  have hend : (UInt64.ofNat d.stop).toNat = d.stop := Word.toNat_ofNat_of_lt hvalid.stop_lt
  have hstretch := hstuck.walkable.stretch segs
  rw [hstuck.loader] at hstretch
  unfold translateDescriptor
  rw [(h.check_iff ha (UInt64.ofNat d.stop)).2 ⟨hstuck.walkable, hend⟩, hstuck.loader]
  dsimp only
  rw [coverDescriptor_hangs hpaged (by rw [hend]; exact hvalid.stop_aligned)
    (h.enter hstuck.walkable) (by dsimp only; rw [hend]; exact hvalid.start_lt_stop.le)
    (by rw [hend]; exact hstretch) (by rw [hend]; exact hstuck.straddles)
    (by rw [hend]; exact hstuck.room)]

/-- … and ends on every other, given fuel for one iteration per segment. -/
theorem translateDescriptor_ends (hpaged : ∀ seg ∈ segs, seg.Paged)
    (h : Walked segs cap ds st) {a : ℕ} (ha : a % 8 = 0) (hno : ¬Stuck segs cap ds d)
    {fuel : ℕ} (hfuel : segs.length < fuel) :
    translateDescriptor fuel segs cap a ds.length d st ≠ none := by
  unfold translateDescriptor
  rcases hcheck : checkDescriptor a ds.length st.cursor d with e | «end»
  · exact nofun
  obtain ⟨hwalk, hend⟩ := (h.check_iff ha «end»).1 hcheck
  have hvalid := hwalk.valid d (by simp)
  have hstretch := hwalk.stretch segs
  rw [← hend] at hstretch
  dsimp only
  have hends := coverDescriptor_ends hpaged (hend ▸ hvalid.stop_aligned) (h.enter hwalk)
    (by dsimp only; rw [hend]; exact hvalid.start_lt_stop.le) hstretch
    (fun hall => hno ⟨hwalk, hall.1, hend ▸ hall.2.1, hend ▸ hall.2.2⟩) hfuel
  rcases hcover : coverDescriptor fuel segs cap «end» (efiToSypasMemtype d.type)
      { st with cursor := d.physicalStart } with - | (status | st')
  · exact absurd hcover hends
  · exact nofun
  · exact nofun

/-! ## All descriptors -/

/-- The descriptor loop over a list of descriptors. -/
def translateAll (fuel : ℕ) (segs : List ElfSegment) (cap : UInt64) (map stride : ℕ) :
    List EfiMemoryDescriptor → ℕ → SplitState →
      Option (Except (MapStatus × MapDiagnostic) SplitState)
  | [], _, st => some (.ok st)
  | d :: rest, i, st =>
    match translateDescriptor fuel segs cap (map + i * stride) i d st with
    | none => none
    | some (.error e) => some (.error e)
    | some (.ok st) => translateAll fuel segs cap map stride rest (i + 1) st

/-- Reading the array in memory is walking over the list of its descriptors. -/
theorem translateLoop_run (fuel : ℕ) (segs : List ElfSegment) (cap : UInt64)
    (map stride n i : ℕ) (st : SplitState) (s : Ram) :
    (translateLoop fuel segs cap map stride n i st s).1 =
      translateAll fuel segs cap map stride
        ((List.range' i n).map fun j => EfiMemoryDescriptor.at s.mem (map + j * stride)) i st := by
  induction n generalizing i st s with
  | zero => rfl
  | succ n ih =>
    rw [translateLoop, List.range'_succ, List.map_cons, translateAll]
    simp only [Prog.bind_run, Ram.readWith_run]
    rcases translateDescriptor fuel segs cap (map + i * stride) i
        (EfiMemoryDescriptor.at s.mem (map + i * stride)) st with - | (e | st')
    · rfl
    · rfl
    · exact ih (i + 1) st' _

variable {map stride : ℕ}

/-- Every descriptor of an aligned array is aligned. -/
theorem descriptor_aligned (hmap : map % 8 = 0) (hstride : stride % 8 = 0) (n : ℕ) :
    (map + n * stride) % 8 = 0 := by
  rw [Nat.add_mod, hmap, Nat.mul_mod, hstride, Nat.mul_zero]

/-- The loop fails with an error status, or has walked over every descriptor. -/
theorem translateAll_sound (hpaged : ∀ seg ∈ segs, seg.Paged) (hmap : map % 8 = 0)
    (hstride : stride % 8 = 0) {fuel : ℕ} {pre ds : List EfiMemoryDescriptor} {st : SplitState}
    (h : Walked segs cap pre st) {r : Except (MapStatus × MapDiagnostic) SplitState}
    (hr : translateAll fuel segs cap map stride ds pre.length st = some r) :
    (∃ e, r = .error e ∧ e.1 ≠ .ok) ∨ ∃ st', r = .ok st' ∧ Walked segs cap (pre ++ ds) st' := by
  induction ds generalizing pre st with
  | nil =>
    cases hr
    rw [List.append_nil]
    exact Or.inr ⟨st, rfl, h⟩
  | cons d rest ih =>
    have ha := descriptor_aligned hmap hstride pre.length
    rw [translateAll] at hr
    rcases hstep : translateDescriptor fuel segs cap (map + pre.length * stride) pre.length d st
      with - | r'
    · rw [hstep] at hr
      cases hr
    rw [hstep] at hr
    rcases translateDescriptor_sound hpaged h ha hstep with
      ⟨e, rfl, hst, -⟩ | ⟨st'', rfl, hwalked⟩
    · exact Or.inl ⟨e, (Option.some.inj hr).symm, hst⟩
    · rw [show pre ++ d :: rest = (pre ++ [d]) ++ rest by simp]
      refine ih hwalked ?_
      rw [List.length_append, List.length_singleton]
      exact hr

/-- The runs of a prefix are no more than those of a longer walk. -/
theorem runs_prefix_le (pre mid : List EfiMemoryDescriptor)
    (hwalk : Walkable (pre ++ [d] ++ mid)) {e : EfiMemoryDescriptor} (he : e ∈ [d] ++ mid) :
    runs (ownership segs (pre ++ [d])) d.stop ≤
      runs (ownership segs (pre ++ [d] ++ mid)) e.stop := by
  have hbelow : ∀ a < d.stop, ownership segs (pre ++ [d]) a =
      ownership segs (pre ++ [d] ++ mid) a := by
    refine fun a ha => (ownership_append_of_lt fun d' hd' => ?_).symm
    have := (List.pairwise_append.1 hwalk.ordered).2.2 d (by simp) d' hd'
    omega
  rw [runs_congr hbelow]
  refine runs_mono _ ?_
  rcases List.mem_append.1 he with he | he
  · rw [List.mem_singleton.1 he]
  · have h₁ := (List.pairwise_append.1 hwalk.ordered).2.2 d (by simp) e he
    exact h₁.trans (hwalk.valid e (by simp [he])).start_lt_stop.le

/-- The loop does not end if some descriptor leaves it stuck, … -/
theorem translateAll_hangs (hpaged : ∀ seg ∈ segs, seg.Paged) (hmap : map % 8 = 0)
    (hstride : stride % 8 = 0) {pre mid post : List EfiMemoryDescriptor}
    (h : Walked segs cap pre st) (hstuck : Stuck segs cap (pre ++ mid) d) (fuel : ℕ) :
    translateAll fuel segs cap map stride (mid ++ d :: post) pre.length st = none := by
  induction mid generalizing pre st with
  | nil =>
    rw [List.append_nil] at hstuck
    have ha := descriptor_aligned hmap hstride pre.length
    rw [List.nil_append, translateAll, translateDescriptor_hangs hpaged h ha hstuck]
  | cons x mid ih =>
    have ha := descriptor_aligned hmap hstride pre.length
    have hsplit : pre ++ x :: mid ++ [d] = pre ++ [x] ++ (mid ++ [d]) := by simp
    rw [List.cons_append, translateAll]
    rcases hstep : translateDescriptor fuel segs cap (map + pre.length * stride) pre.length x st
      with - | r
    · rfl
    rcases translateDescriptor_sound hpaged h ha hstep with
      ⟨e, rfl, -, hblame⟩ | ⟨st', rfl, hwalked⟩
    · have hwalk := hstuck.walkable
      have hroom := hstuck.room
      rw [hsplit] at hwalk hroom
      exact absurd ⟨hwalk.of_append, (runs_prefix_le pre (mid ++ [d]) hwalk (by simp)).trans hroom⟩
        hblame
    · dsimp only
      have hnext := ih hwalked (by rwa [List.append_assoc, List.singleton_append])
      rwa [List.length_append, List.length_singleton] at hnext

/-- … and ends otherwise. -/
theorem translateAll_ends (hpaged : ∀ seg ∈ segs, seg.Paged) (hmap : map % 8 = 0)
    (hstride : stride % 8 = 0) {pre ds : List EfiMemoryDescriptor} {st : SplitState}
    (h : Walked segs cap pre st)
    (hno : ¬∃ mid d post, ds = mid ++ d :: post ∧ Stuck segs cap (pre ++ mid) d)
    {fuel : ℕ} (hfuel : segs.length < fuel) :
    translateAll fuel segs cap map stride ds pre.length st ≠ none := by
  induction ds generalizing pre st with
  | nil => exact nofun
  | cons d rest ih =>
    have ha := descriptor_aligned hmap hstride pre.length
    have hends : translateDescriptor fuel segs cap (map + pre.length * stride) pre.length d st ≠
        none := by
      refine translateDescriptor_ends hpaged h ha (fun hstuck => hno ⟨[], d, rest, rfl, ?_⟩) hfuel
      rwa [List.append_nil]
    rw [translateAll]
    rcases hstep : translateDescriptor fuel segs cap (map + pre.length * stride) pre.length d st
      with - | r
    · exact absurd hstep hends
    rcases translateDescriptor_sound hpaged h ha hstep with ⟨e, rfl, -⟩ | ⟨st', rfl, hwalked⟩
    · exact nofun
    · have hnext := ih hwalked (by
        rintro ⟨mid, d', post, rfl, hstuck⟩
        refine hno ⟨d :: mid, d', post, rfl, ?_⟩
        rwa [List.append_assoc, List.singleton_append] at hstuck)
      rwa [List.length_append, List.length_singleton] at hnext

end Sypas
