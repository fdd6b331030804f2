import Sypas.Loader.Ownership

/-!
# Splitting one descriptor around the kernel's segments

The segment-splitting loop keeps one invariant: the output holds the
classification below the cursor, and the tagged byte count is the number of kernel
addresses below it. It ends unless some segment runs past the descriptor's end
while the output still has room; then the cursor stops at that end for ever.

## Main definitions

- `Sypas.SplitState.Good` — the loop invariant
- `Sypas.ElfSegment.Straddles` — a segment begins before an address and ends after it

## Main results

- `Sypas.splitSegment_spec` — one iteration
- `Sypas.coverDescriptor_sound`, `Sypas.coverDescriptor_hangs`,
  `Sypas.coverDescriptor_ends` — the whole descriptor: its result, when it has
  none, and when it has one
-/

namespace Sypas

open Extent

/-- The number of kernel addresses below `c`. -/
def kernelCount (f : ℕ → Option UInt32) (c : ℕ) : ℕ :=
  Nat.count (fun a => f a = some sypasMemKernel) c

theorem kernelCount_le (f : ℕ → Option UInt32) (c : ℕ) : kernelCount f c ≤ c :=
  Nat.count_le _

/-- A stretch without kernel addresses does not count. -/
theorem kernelCount_of_ne {f : ℕ → Option UInt32} {c c' : ℕ} (hle : c ≤ c')
    (h : ∀ a, c ≤ a → a < c' → f a ≠ some sypasMemKernel) : kernelCount f c' = kernelCount f c := by
  obtain ⟨n, rfl⟩ := Nat.exists_eq_add_of_le hle
  have hnone : Nat.count (fun k => f (c + k) = some sypasMemKernel) n = 0 :=
    Nat.count_of_forall_not fun {k} hk => h _ (by omega) (by omega)
  rw [kernelCount, Nat.count_add, hnone]
  rfl

/-- A stretch of kernel addresses counts in full. -/
theorem kernelCount_of_eq {f : ℕ → Option UInt32} {c c' : ℕ} (hle : c ≤ c')
    (h : ∀ a, c ≤ a → a < c' → f a = some sypasMemKernel) :
    kernelCount f c' = kernelCount f c + (c' - c) := by
  obtain ⟨n, rfl⟩ := Nat.exists_eq_add_of_le hle
  have hall : Nat.count (fun k => f (c + k) = some sypasMemKernel) n = n :=
    Nat.count_of_forall fun {k} hk => h _ (by omega) (by omega)
  rw [kernelCount, Nat.count_add, hall, Nat.add_sub_cancel_left]
  rfl

/-- Below the cursor, the output holds the classification and the kernel addresses
    are counted. -/
structure SplitState.Good (st : SplitState) (f : ℕ → Option UInt32) (cap : UInt64) : Prop where
  out : Represents st.out f st.cursor.toNat cap
  tagged : st.tagged.toNat = kernelCount f st.cursor.toNat
  aligned : st.cursor.toNat % 4096 = 0

/-- The segment begins before address `a` and ends after it. -/
def ElfSegment.Straddles (seg : ElfSegment) (a : ℕ) : Prop :=
  seg.pageBase.toNat < a ∧ a < seg.pageEnd.toNat

instance (seg : ElfSegment) (a : ℕ) : Decidable (seg.Straddles a) :=
  inferInstanceAs (Decidable (_ ∧ _))

variable {segs : List ElfSegment} {f : ℕ → Option UInt32} {cap «end» : UInt64} {st : SplitState}

/-- From the cursor to the end, LOADER memory is classified by the segments. -/
def LoaderStretch (segs : List ElfSegment) (f : ℕ → Option UInt32) (cursor «end» : ℕ) : Prop :=
  ∀ a, cursor ≤ a → a < «end» →
    f a = some (if InSegment segs a then sypasMemKernel else sypasMemLoader)

/-- One iteration: the cursor moves to the end of the chosen segment or of the
    descriptor, and the array is too small exactly when the runs up to there say so. -/
theorem splitSegment_spec (hpaged : ∀ seg ∈ segs, seg.Paged) (hgood : st.Good f cap)
    (hcursor : st.cursor.toNat ≤ «end».toNat) (hend : «end».toNat % 4096 = 0)
    (hf : LoaderStretch segs f st.cursor.toNat «end».toNat) {seg : ElfSegment}
    (hnext : IsNext segs st.cursor.toNat «end».toNat (some seg)) :
    let hi := min seg.pageEnd.toNat «end».toNat
    (runs f hi ≤ cap.toNat ∧ ∃ st', splitSegment cap «end» sypasMemLoader seg st = .ok st' ∧
      st'.cursor.toNat = hi ∧ st'.Good f cap) ∨
    (cap.toNat < runs f hi ∧
      splitSegment cap «end» sypasMemLoader seg st = .error .errOutputFull) := by
  intro hiNat
  obtain ⟨hmem, ⟨hcur, hbase⟩, hleast⟩ := hnext
  have hp := hpaged seg hmem
  have hendlt := «end».toNat_lt
  set lo : UInt64 := if seg.pageBase > st.cursor then seg.pageBase else st.cursor with hlo
  set hi : UInt64 := if seg.pageEnd < «end» then seg.pageEnd else «end» with hhi
  have hloNat : lo.toNat = max seg.pageBase.toNat st.cursor.toNat := Word.toNat_ite_gt _ _
  have hhiNat : hi.toNat = min seg.pageEnd.toNat «end».toNat := Word.toNat_ite_lt _ _
  have hplt := hp.base_lt_end
  have hpb := hp.base_aligned
  have hpe := hp.end_aligned
  have hca := hgood.aligned
  have hgap : ∀ a, st.cursor.toNat ≤ a → a < lo.toNat → f a = some sypasMemLoader := by
    intro a hca hal
    rw [hf a hca (by omega), if_neg]
    rintro ⟨s, hs, hsb, hse⟩
    have := hleast s hs ⟨by omega, by omega⟩
    omega
  have hkernel : ∀ a, lo.toNat ≤ a → a < hi.toNat → f a = some sypasMemKernel := by
    intro a hla hah
    rw [hf a (by omega) (by omega), if_pos ⟨seg, hmem, by omega, by omega⟩]
  have hlohi : lo.toNat ≤ hi.toNat := by omega
  -- after the two records, only the tagged bytes are counted
  obtain ⟨count, hstep, hcounted⟩ : ∃ count, splitSegment cap «end» sypasMemLoader seg st =
        (append st.out cap st.cursor lo sypasMemLoader >>= fun out =>
          append out cap lo hi sypasMemKernel >>= count) ∧
      ∀ out tagged, addOk st.tagged (hi - lo) = some tagged → count out = .ok ⟨hi, out, tagged⟩ :=
    ⟨_, rfl, fun out tagged hadd => by rw [hadd]⟩
  rw [hstep, show hiNat = hi.toNat from hhiNat.symm]
  rcases append_spec hgood.out (show st.cursor.toNat ≤ lo.toNat by omega) hca (by omega) hgap with
    ⟨-, out₁, happ₁, hrep₁⟩ | ⟨hfull, happ₁⟩
  swap
  · rw [happ₁]
    exact Or.inr ⟨hfull.trans_le (runs_mono f hlohi), rfl⟩
  rw [happ₁]
  rcases append_spec hrep₁ hlohi (by omega) (by omega) hkernel with
    ⟨hroom, out₂, happ₂, hrep₂⟩ | ⟨hfull, happ₂⟩
  swap
  · refine Or.inr ⟨hfull, ?_⟩
    change (append out₁ cap lo hi sypasMemKernel >>= _) = _
    rw [happ₂]
    rfl
  have hsub : (hi - lo).toNat = hi.toNat - lo.toNat :=
    UInt64.toNat_sub_of_le _ _ (UInt64.le_iff_toNat_le.2 hlohi)
  have hcount : kernelCount f hi.toNat = st.tagged.toNat + (hi - lo).toNat := by
    rw [kernelCount_of_eq hlohi hkernel, hsub, hgood.tagged]
    congr 1
    refine kernelCount_of_ne (by omega) fun a h₁ h₂ => ?_
    rw [hgap a h₁ h₂]
    decide
  have hfits : st.tagged.toNat + (hi - lo).toNat < 2 ^ 64 := by
    rw [← hcount]
    exact (kernelCount_le f _).trans_lt hi.toNat_lt
  refine Or.inl ⟨hroom, ⟨hi, out₂, st.tagged + (hi - lo)⟩, ?_, rfl, hrep₂, ?_, by
    dsimp only; omega⟩
  · change (append out₁ cap lo hi sypasMemKernel >>= _) = _
    rw [happ₂]
    exact hcounted out₂ _ (addOk_of_lt hfits)
  · rw [Word.toNat_add_of_lt hfits, hcount]

/-- The number of segments that end after the cursor. -/
def segmentsAhead (segs : List ElfSegment) (cursor : ℕ) : ℕ :=
  segs.countP fun seg => cursor < seg.pageEnd.toNat

theorem segmentsAhead_lt {seg : ElfSegment} (hmem : seg ∈ segs) {c c' : ℕ} (hle : c ≤ c')
    (hc : c < seg.pageEnd.toNat) (hc' : seg.pageEnd.toNat ≤ c') :
    segmentsAhead segs c' < segmentsAhead segs c := by
  obtain ⟨pre, post, rfl⟩ := List.append_of_mem hmem
  have hmono : ∀ l : List ElfSegment, segmentsAhead l c' ≤ segmentsAhead l c := by
    intro l
    refine List.countP_mono_left fun s _ hs => ?_
    rw [decide_eq_true_eq] at hs ⊢
    exact hle.trans_lt hs
  have hpre := hmono pre
  have hpost := hmono post
  unfold segmentsAhead at *
  rw [List.countP_append, List.countP_append, List.countP_cons, List.countP_cons,
    if_neg (by rw [decide_eq_true_eq]; omega), if_pos (by rw [decide_eq_true_eq]; omega)]
  omega

/-- Whatever the loop returns is right. -/
theorem splitLoop_sound (hpaged : ∀ seg ∈ segs, seg.Paged) (hend : «end».toNat % 4096 = 0)
    {fuel : ℕ} {st : SplitState} (hgood : st.Good f cap) (hcursor : st.cursor.toNat ≤ «end».toNat)
    (hf : LoaderStretch segs f st.cursor.toNat «end».toNat) {r : Except MapStatus SplitState}
    (hr : splitLoop segs cap «end» sypasMemLoader fuel st = some r) :
    (r = .error .errOutputFull ∧ cap.toNat < runs f «end».toNat) ∨
    ∃ st', r = .ok st' ∧ st'.Good f cap ∧ st.cursor.toNat ≤ st'.cursor.toNat ∧
      st'.cursor.toNat ≤ «end».toNat ∧
      ∀ seg ∈ segs, ¬seg.Meets st'.cursor.toNat «end».toNat := by
  induction fuel generalizing st with
  | zero => cases hr
  | succ fuel ih =>
    have hnext := nextKernelSegment_isNext segs st.cursor «end»
    rw [splitLoop] at hr
    rcases hseg : nextKernelSegment segs st.cursor «end» with - | seg
    · rw [hseg] at hr hnext
      cases hr
      exact Or.inr ⟨st, rfl, hgood, le_rfl, hcursor, hnext⟩
    rw [hseg] at hr hnext
    dsimp only at hr
    have hcur := hnext.2.1.1
    rcases splitSegment_spec hpaged hgood hcursor hend hf hnext with
      ⟨-, st', hstep, hcur', hgood'⟩ | ⟨hfull, hstep⟩
    · rw [hstep] at hr
      have hle : st.cursor.toNat ≤ st'.cursor.toNat := by omega
      rcases ih hgood' (by omega) (fun a h₁ h₂ => hf a (by omega) h₂) hr with
        hfail | ⟨st'', hok, hgood'', hle', hend'', hnone⟩
      · exact Or.inl hfail
      · exact Or.inr ⟨st'', hok, hgood'', hle.trans hle', hend'', hnone⟩
    · rw [hstep] at hr
      cases hr
      exact Or.inl ⟨rfl, hfull.trans_le (runs_mono f (min_le_right _ _))⟩

/-- Unless a segment straddles the end and the array has room, the loop ends: every
    iteration passes a segment for good. -/
theorem splitLoop_ends (hpaged : ∀ seg ∈ segs, seg.Paged) (hend : «end».toNat % 4096 = 0)
    (hno : ¬((∃ seg ∈ segs, seg.Straddles «end».toNat) ∧ runs f «end».toNat ≤ cap.toNat))
    {fuel : ℕ} {st : SplitState} (hgood : st.Good f cap) (hcursor : st.cursor.toNat ≤ «end».toNat)
    (hf : LoaderStretch segs f st.cursor.toNat «end».toNat)
    (hfuel : segmentsAhead segs st.cursor.toNat < fuel) :
    splitLoop segs cap «end» sypasMemLoader fuel st ≠ none := by
  induction fuel generalizing st with
  | zero => exact absurd hfuel (Nat.not_lt_zero _)
  | succ fuel ih =>
    have hnext := nextKernelSegment_isNext segs st.cursor «end»
    rw [splitLoop]
    rcases hseg : nextKernelSegment segs st.cursor «end» with - | seg
    · exact nofun
    rw [hseg] at hnext
    dsimp only
    have hcur := hnext.2.1.1
    rcases splitSegment_spec hpaged hgood hcursor hend hf hnext with
      ⟨hroom, st', hstep, hcur', hgood'⟩ | ⟨-, hstep⟩
    swap
    · rw [hstep]
      exact nofun
    rw [hstep]
    have hpass : seg.pageEnd.toNat ≤ «end».toNat := by
      by_contra hover
      rw [min_eq_right (by omega)] at hroom
      exact hno ⟨⟨seg, hnext.1, hnext.2.1.2, by omega⟩, hroom⟩
    have hless := segmentsAhead_lt hnext.1 (show st.cursor.toNat ≤ st'.cursor.toNat by omega) hcur
      (by omega)
    exact ih hgood' (by omega) (fun a h₁ h₂ => hf a (by omega) h₂) (by omega)

/-! ## One descriptor -/

/-- From the cursor to the end, memory of the type `type` is classified by the segments. -/
def Stretch (segs : List ElfSegment) (type : UInt32) (f : ℕ → Option UInt32)
    (cursor «end» : ℕ) : Prop :=
  ∀ a, cursor ≤ a → a < «end» →
    f a = some (if type = sypasMemLoader ∧ InSegment segs a then sypasMemKernel else type)

theorem Stretch.loader {cursor stop : ℕ} (h : Stretch segs sypasMemLoader f cursor stop) :
    LoaderStretch segs f cursor stop := by
  intro a h₁ h₂
  rw [h a h₁ h₂]
  simp only [true_and]

/-- The last range of a descriptor, appended where no segment is left. -/
theorem close_spec {type : UInt32} (htype : type ≠ sypasMemKernel) (hgood : st.Good f cap)
    (hcursor : st.cursor.toNat ≤ «end».toNat) (hend : «end».toNat % 4096 = 0)
    (hconst : ∀ a, st.cursor.toNat ≤ a → a < «end».toNat → f a = some type)
    {r : Except MapStatus SplitState}
    (hr : (append st.out cap st.cursor «end» type >>= fun out =>
      .ok { st with cursor := «end», out }) = r) :
    (r = .error .errOutputFull ∧ cap.toNat < runs f «end».toNat) ∨
    ∃ st', r = .ok st' ∧ st'.cursor = «end» ∧ st'.Good f cap := by
  rcases append_spec hgood.out hcursor hgood.aligned hend hconst with
    ⟨-, out', happ, hrep⟩ | ⟨hfull, happ⟩
  · rw [happ] at hr
    refine Or.inr ⟨⟨«end», out', st.tagged⟩, hr.symm, rfl, hrep, ?_, hend⟩
    dsimp only
    rw [hgood.tagged, kernelCount_of_ne hcursor fun a h₁ h₂ => ?_]
    rw [hconst a h₁ h₂]
    exact fun h => htype (Option.some.inj h)
  · rw [happ] at hr
    exact Or.inl ⟨hr.symm, hfull⟩

/-- Whatever the body returns is right: the classification up to the descriptor's end,
    or a full array. -/
theorem coverDescriptor_sound {type : UInt32} (htype : type ≠ sypasMemKernel)
    (hpaged : ∀ seg ∈ segs, seg.Paged) (hend : «end».toNat % 4096 = 0) (hgood : st.Good f cap)
    (hcursor : st.cursor.toNat ≤ «end».toNat)
    (hf : Stretch segs type f st.cursor.toNat «end».toNat) {fuel : ℕ}
    {r : Except MapStatus SplitState}
    (hr : coverDescriptor fuel segs cap «end» type st = some r) :
    (r = .error .errOutputFull ∧ cap.toNat < runs f «end».toNat) ∨
    ∃ st', r = .ok st' ∧ st'.cursor = «end» ∧ st'.Good f cap := by
  unfold coverDescriptor at hr
  dsimp only at hr
  split at hr
  swap
  · next hother =>
    refine close_spec htype hgood hcursor hend (fun a h₁ h₂ => ?_) (Option.some.inj hr)
    rw [hf a h₁ h₂, if_neg fun h => hother h.1]
  next hloader =>
  subst hloader
  rcases hloop : splitLoop segs cap «end» sypasMemLoader fuel st with - | r'
  · rw [hloop] at hr
    cases hr
  rw [hloop] at hr
  rcases splitLoop_sound hpaged hend hgood hcursor hf.loader hloop with
    ⟨rfl, hfull⟩ | ⟨st', rfl, hgood', hle, hcursor', hnone⟩
  · exact Or.inl ⟨(Option.some.inj hr).symm, hfull⟩
  · refine close_spec htype hgood' hcursor' hend (fun a h₁ h₂ => ?_) (Option.some.inj hr)
    rw [hf a (by omega) h₂, if_neg]
    rintro ⟨-, seg, hseg, hsb, hse⟩
    exact hnone seg hseg ⟨by omega, by omega⟩

/-- A segment that straddles the end of LOADER memory keeps the loop from ending, if
    the array has room. -/
theorem coverDescriptor_hangs (hpaged : ∀ seg ∈ segs, seg.Paged) (hend : «end».toNat % 4096 = 0)
    (hgood : st.Good f cap) (hcursor : st.cursor.toNat ≤ «end».toNat)
    (hf : Stretch segs sypasMemLoader f st.cursor.toNat «end».toNat)
    (hstraddle : ∃ seg ∈ segs, seg.Straddles «end».toNat)
    (hroom : runs f «end».toNat ≤ cap.toNat) (fuel : ℕ) :
    coverDescriptor fuel segs cap «end» sypasMemLoader st = none := by
  unfold coverDescriptor
  dsimp only
  rw [if_pos rfl]
  rcases hloop : splitLoop segs cap «end» sypasMemLoader fuel st with - | r
  · rfl
  exfalso
  obtain ⟨seg, hseg, hsb, hse⟩ := hstraddle
  rcases splitLoop_sound hpaged hend hgood hcursor hf.loader hloop with
    ⟨-, hfull⟩ | ⟨st', -, -, -, hcursor', hnone⟩
  · omega
  · exact hnone seg hseg ⟨by omega, hsb⟩

/-- In every other case the body ends. -/
theorem coverDescriptor_ends {type : UInt32} (hpaged : ∀ seg ∈ segs, seg.Paged)
    (hend : «end».toNat % 4096 = 0) (hgood : st.Good f cap)
    (hcursor : st.cursor.toNat ≤ «end».toNat)
    (hf : Stretch segs type f st.cursor.toNat «end».toNat)
    (hno : ¬(type = sypasMemLoader ∧ (∃ seg ∈ segs, seg.Straddles «end».toNat) ∧
      runs f «end».toNat ≤ cap.toNat)) {fuel : ℕ} (hfuel : segs.length < fuel) :
    coverDescriptor fuel segs cap «end» type st ≠ none := by
  unfold coverDescriptor
  dsimp only
  split
  swap
  · exact nofun
  next hloader =>
  subst hloader
  have hahead : segmentsAhead segs st.cursor.toNat < fuel := List.countP_le_length.trans_lt hfuel
  have hends := splitLoop_ends hpaged hend (fun h => hno ⟨rfl, h⟩) hgood hcursor hf.loader hahead
  rcases hloop : splitLoop segs cap «end» sypasMemLoader fuel st with - | (status | st')
  · exact absurd hloop hends
  · exact nofun
  · exact nofun

end Sypas
