import Sypas.Kernel.Pmm
import Sypas.Lib.Word

/-!
# Boot memory maps as the loader hands them over

Page-aligned, disjoint entries whose ends are addresses. The sets of pages that
`pmm_init` computes with are read off such a map here, and its first two passes,
which only look at the map, are shown to compute them.

## Main definitions

- `Sypas.LoaderForm` — the form that the loader guarantees
- `Sypas.usablePages`, `Sypas.usableTop` — the usable pages, and where they end
- `Sypas.bitmapSize` — the bytes of a bitmap over all of them
- `Sypas.MemmapEntry.aboveLow` — the bytes of an entry at or above 1 MiB

## Main results

- `Sypas.tally_maxAddr`, `Sypas.tally_sum` — pass 1
- `Sypas.placeBitmap_spec` — pass 2
-/

namespace Sypas

namespace MemmapEntry

/-- Where the entry ends. -/
def stop (e : MemmapEntry) : ℕ := e.base.toNat + e.length.toNat

/-- The pages of an entry. -/
def framePages (e : MemmapEntry) : Finset ℕ := Finset.Ico (e.base.toNat / 4096) (e.stop / 4096)

/-- The bytes of an entry at or above 1 MiB. -/
def aboveLow (e : MemmapEntry) : ℕ := e.stop - max e.base.toNat 0x100000

end MemmapEntry

/-- The form that the loader guarantees: page-aligned, disjoint and free of overflow. -/
structure LoaderForm (map : List MemmapEntry) : Prop where
  base_dvd : ∀ e ∈ map, 4096 ∣ e.base.toNat
  length_dvd : ∀ e ∈ map, 4096 ∣ e.length.toNat
  noWrap : ∀ e ∈ map, e.stop < 2 ^ 64
  disjoint : map.Pairwise fun e f => ∀ a, ¬(e.Has a ∧ f.Has a)

/-- The pages of the usable entries. -/
def usablePages : List MemmapEntry → Finset ℕ
  | [] => ∅
  | e :: rest =>
    if e.type = sypasMemUsable then e.framePages ∪ usablePages rest else usablePages rest

/-- The highest end of a usable entry, or 0. -/
def usableTop : List MemmapEntry → ℕ
  | [] => 0
  | e :: rest => if e.type = sypasMemUsable then max e.stop (usableTop rest) else usableTop rest

/-- The bytes of a bitmap with one bit for each page below the highest usable end. -/
def bitmapSize (map : List MemmapEntry) : ℕ := (usableTop map / 4096 + 7) / 8

variable {map : List MemmapEntry} {e : MemmapEntry}

/-- Entries one of which ends where the other begins, or before. -/
theorem LoaderForm.disjoint_of_stops
    (h : map.Pairwise fun e f => e.stop ≤ f.base.toNat ∨ f.stop ≤ e.base.toNat) :
    map.Pairwise fun e f => ∀ a, ¬(e.Has a ∧ f.Has a) := by
  refine h.imp fun hstops a => ?_
  rintro ⟨⟨hlo, hhi⟩, hlo', hhi'⟩
  unfold MemmapEntry.stop at hstops
  omega

theorem LoaderForm.tail (h : LoaderForm (e :: map)) : LoaderForm map where
  base_dvd := fun x hx => h.base_dvd x (List.mem_cons_of_mem _ hx)
  length_dvd := fun x hx => h.length_dvd x (List.mem_cons_of_mem _ hx)
  noWrap := fun x hx => h.noWrap x (List.mem_cons_of_mem _ hx)
  disjoint := (List.pairwise_cons.1 h.disjoint).2

theorem LoaderForm.stop_dvd (h : LoaderForm map) (he : e ∈ map) : 4096 ∣ e.stop :=
  Nat.dvd_add (h.base_dvd e he) (h.length_dvd e he)

/-- A page belongs to an entry when its first byte does. -/
theorem LoaderForm.mem_framePages (h : LoaderForm map) (he : e ∈ map) {p : ℕ} :
    p ∈ e.framePages ↔ e.Has (4096 * p) := by
  have hbase := h.base_dvd e he
  have hstop := h.stop_dvd he
  rw [MemmapEntry.framePages, Finset.mem_Ico, MemmapEntry.Has]
  unfold MemmapEntry.stop at hstop ⊢
  omega

theorem mem_usablePages {p : ℕ} :
    p ∈ usablePages map ↔ ∃ e ∈ map, e.type = sypasMemUsable ∧ p ∈ e.framePages := by
  induction map with
  | nil => simp [usablePages]
  | cons e rest ih =>
    rw [usablePages, List.exists_mem_cons_iff, ← ih]
    split
    · next h => rw [Finset.mem_union, and_iff_right h]
    · next h => simp [h]

theorem le_usableTop (he : e ∈ map) (husable : e.type = sypasMemUsable) :
    e.stop ≤ usableTop map := by
  induction map with
  | nil => cases he
  | cons f rest ih =>
    rw [usableTop]
    cases he with
    | head =>
      rw [if_pos husable]
      exact le_max_left _ _
    | tail _ he =>
      split
      · exact (ih he).trans (le_max_right _ _)
      · exact ih he

/-- The highest usable end is the end of some usable entry. -/
theorem exists_usableTop (h : 0 < usableTop map) :
    ∃ e ∈ map, e.type = sypasMemUsable ∧ e.stop = usableTop map := by
  induction map with
  | nil => exact absurd h (lt_irrefl 0)
  | cons f rest ih =>
    rw [usableTop] at h ⊢
    split at h
    · next husable =>
      rw [if_pos husable]
      rcases le_total f.stop (usableTop rest) with hle | hle
      · rw [max_eq_right hle] at h ⊢
        obtain ⟨e, he, hrest⟩ := ih h
        exact ⟨e, List.mem_cons_of_mem _ he, hrest⟩
      · rw [max_eq_left hle]
        exact ⟨f, List.mem_cons_self, husable, rfl⟩
    · next hother =>
      rw [if_neg hother]
      obtain ⟨e, he, hrest⟩ := ih h
      exact ⟨e, List.mem_cons_of_mem _ he, hrest⟩

theorem LoaderForm.usableTop_dvd (h : LoaderForm map) : 4096 ∣ usableTop map := by
  rcases Nat.eq_zero_or_pos (usableTop map) with hzero | hpos
  · exact hzero ▸ dvd_zero 4096
  · obtain ⟨e, he, -, htop⟩ := exists_usableTop hpos
    exact htop ▸ h.stop_dvd he

theorem LoaderForm.usableTop_lt (h : LoaderForm map) : usableTop map < 2 ^ 64 := by
  rcases Nat.eq_zero_or_pos (usableTop map) with hzero | hpos
  · omega
  · obtain ⟨e, he, -, htop⟩ := exists_usableTop hpos
    exact htop ▸ h.noWrap e he

/-- Usable pages are below the highest usable end. -/
theorem lt_of_mem_usablePages {p : ℕ} (hp : p ∈ usablePages map) : p < usableTop map / 4096 := by
  obtain ⟨e, he, husable, hin⟩ := mem_usablePages.1 hp
  have hle := le_usableTop he husable
  have hlt := (Finset.mem_Ico.1 hin).2
  omega

/-- No page belongs to two entries. -/
theorem LoaderForm.disjoint_usablePages (h : LoaderForm (e :: map)) :
    Disjoint e.framePages (usablePages map) := by
  rw [Finset.disjoint_left]
  intro p hp hrest
  obtain ⟨f, hf, -, hpf⟩ := mem_usablePages.1 hrest
  exact (List.pairwise_cons.1 h.disjoint).1 f hf (4096 * p)
    ⟨(h.mem_framePages List.mem_cons_self).1 hp,
      (h.mem_framePages (List.mem_cons_of_mem _ hf)).1 hpf⟩

/-! ## Pass 1 -/

theorem toNat_stop (h : e.stop < 2 ^ 64) : (e.base + e.length).toNat = e.stop :=
  Word.toNat_add_of_lt h

theorem foldl_tally_maxAddr (t : Tally) (h : ∀ e ∈ map, e.stop < 2 ^ 64) :
    (map.foldl tallyEntry t).maxAddr.toNat = max t.maxAddr.toNat (usableTop map) := by
  induction map generalizing t with
  | nil => exact (max_eq_left (Nat.zero_le _)).symm
  | cons e rest ih =>
    rw [List.foldl_cons, ih _ fun x hx => h x (List.mem_cons_of_mem _ hx), usableTop, tallyEntry]
    split
    · dsimp only
      rw [Word.toNat_ite_gt, toNat_stop (h e List.mem_cons_self)]
      omega
    · split <;> rfl

theorem tally_maxAddr (h : ∀ e ∈ map, e.stop < 2 ^ 64) :
    (tally map).maxAddr.toNat = usableTop map := by
  rw [tally, foldl_tally_maxAddr _ h]
  exact max_eq_right (Nat.zero_le _)

/-- What pass 1 has counted so far. -/
def Tally.sum (t : Tally) : ℕ := t.usableBytes.toNat + t.reservedBytes.toNat + t.mmioBytes.toNat

theorem tallyEntry_sum (t : Tally) (e : MemmapEntry) (h : t.sum + e.length.toNat < 2 ^ 64) :
    (tallyEntry t e).sum = t.sum + e.length.toNat := by
  unfold Tally.sum at h ⊢
  -- exactly one of the three sums grows
  rw [tallyEntry]
  split
  · dsimp only
    rw [Word.toNat_add_of_lt (by omega)]
    omega
  · split
    · dsimp only
      rw [Word.toNat_add_of_lt (by omega)]
      omega
    · dsimp only
      rw [Word.toNat_add_of_lt (by omega)]
      omega

theorem foldl_tally_sum (t : Tally)
    (h : t.sum + (map.map fun e => e.length.toNat).sum < 2 ^ 64) :
    (map.foldl tallyEntry t).sum = t.sum + (map.map fun e => e.length.toNat).sum := by
  induction map generalizing t with
  | nil => rfl
  | cons e rest ih =>
    rw [List.map_cons, List.sum_cons] at h ⊢
    have hstep := tallyEntry_sum t e (by omega)
    rw [List.foldl_cons, ih _ (by omega), hstep]
    omega

/-- Disjoint entries contain as many addresses as their lengths add up to. -/
theorem exists_addresses (h : map.Pairwise fun e f => ∀ a, ¬(e.Has a ∧ f.Has a)) :
    ∃ s : Finset ℕ, s.card = (map.map fun e => e.length.toNat).sum ∧
      ∀ a ∈ s, ∃ e ∈ map, e.Has a := by
  induction map with
  | nil => exact ⟨∅, rfl, fun a ha => absurd ha (Finset.notMem_empty a)⟩
  | cons e rest ih =>
    obtain ⟨hhead, htail⟩ := List.pairwise_cons.1 h
    obtain ⟨s, hcard, hmem⟩ := ih htail
    have hdisjoint : Disjoint (Finset.Ico e.base.toNat e.stop) s := by
      rw [Finset.disjoint_left]
      intro a ha has
      obtain ⟨f, hf, hfa⟩ := hmem a has
      exact hhead f hf a ⟨Finset.mem_Ico.1 ha, hfa⟩
    refine ⟨Finset.Ico e.base.toNat e.stop ∪ s, ?_, fun a ha => ?_⟩
    · rw [Finset.card_union_of_disjoint hdisjoint, Nat.card_Ico, hcard, List.map_cons,
        List.sum_cons, MemmapEntry.stop, Nat.add_sub_cancel_left]
    · rcases Finset.mem_union.1 ha with ha | ha
      · exact ⟨e, List.mem_cons_self, Finset.mem_Ico.1 ha⟩
      · obtain ⟨f, hf, hfa⟩ := hmem a ha
        exact ⟨f, List.mem_cons_of_mem _ hf, hfa⟩

theorem LoaderForm.sum_length_lt (h : LoaderForm map) :
    (map.map fun e => e.length.toNat).sum < 2 ^ 64 := by
  obtain ⟨s, hcard, hmem⟩ := exists_addresses h.disjoint
  have hsub : s ⊆ Finset.range (2 ^ 64 - 1) := by
    intro a ha
    obtain ⟨e, he, -, hlt⟩ := hmem a ha
    have hstop := h.noWrap e he
    unfold MemmapEntry.stop at hstop
    exact Finset.mem_range.2 (by omega)
  have hle := Finset.card_le_card hsub
  rw [Finset.card_range, hcard] at hle
  omega

/-- The three sums of pass 1 add up to all the lengths. -/
theorem tally_sum (h : LoaderForm map) :
    (tally map).sum = (map.map fun e => e.length.toNat).sum := by
  have hzero : (⟨0, 0, 0, 0⟩ : Tally).sum = 0 := rfl
  rw [tally, foldl_tally_sum _ (by rw [hzero, Nat.zero_add]; exact h.sum_length_lt), hzero,
    Nat.zero_add]

/-! ## Pass 2 -/

theorem aboveLowMemory_none (h : aboveLowMemory e = none) : e.aboveLow = 0 := by
  have hlow : lowMemoryEnd.toNat = 0x100000 := rfl
  unfold aboveLowMemory at h
  split at h
  · next hbelow =>
    rw [UInt64.lt_iff_toNat_lt, hlow] at hbelow
    have hskip : (lowMemoryEnd - e.base).toNat = 0x100000 - e.base.toNat := by
      rw [UInt64.toNat_sub_of_le _ _ (UInt64.le_iff_toNat_le.2 (by omega)), hlow]
    dsimp only at h
    split at h
    · next hshort =>
      rw [UInt64.le_iff_toNat_le, hskip] at hshort
      unfold MemmapEntry.aboveLow MemmapEntry.stop
      omega
    · cases h
  · cases h

theorem aboveLowMemory_some {base len : UInt64} (h : aboveLowMemory e = some (base, len)) :
    base.toNat = max e.base.toNat 0x100000 ∧ len.toNat = e.aboveLow := by
  have hlow : lowMemoryEnd.toNat = 0x100000 := rfl
  unfold aboveLowMemory at h
  split at h
  · next hbelow =>
    rw [UInt64.lt_iff_toNat_lt, hlow] at hbelow
    have hskip : (lowMemoryEnd - e.base).toNat = 0x100000 - e.base.toNat := by
      rw [UInt64.toNat_sub_of_le _ _ (UInt64.le_iff_toNat_le.2 (by omega)), hlow]
    dsimp only at h
    split at h
    · cases h
    · next hlong =>
      rw [UInt64.le_iff_toNat_le, hskip] at hlong
      obtain ⟨rfl, rfl⟩ := Prod.mk.inj (Option.some.inj h)
      constructor
      · rw [Word.toNat_add_of_lt (by omega), hskip]
        omega
      · rw [UInt64.toNat_sub_of_le _ _ (UInt64.le_iff_toNat_le.2 (by omega)), hskip]
        unfold MemmapEntry.aboveLow MemmapEntry.stop
        omega
  · next habove =>
    rw [UInt64.lt_iff_toNat_lt, hlow] at habove
    obtain ⟨rfl, rfl⟩ := Prod.mk.inj (Option.some.inj h)
    unfold MemmapEntry.aboveLow MemmapEntry.stop
    omega

/-- Entry `e` is the first usable one with `n` bytes at or above 1 MiB. -/
def FirstFit (n : ℕ) (map : List MemmapEntry) (e : MemmapEntry) : Prop :=
  ∃ pre post, map = pre ++ e :: post ∧
    (∀ x ∈ pre, x.type = sypasMemUsable → x.aboveLow < n) ∧
    e.type = sypasMemUsable ∧ n ≤ e.aboveLow

theorem FirstFit.mem {n : ℕ} (h : FirstFit n map e) : e ∈ map := by
  obtain ⟨pre, post, rfl, -⟩ := h
  exact List.mem_append_right _ List.mem_cons_self

theorem FirstFit.usable {n : ℕ} (h : FirstFit n map e) : e.type = sypasMemUsable := by
  obtain ⟨_, _, _, _, husable, -⟩ := h
  exact husable

theorem FirstFit.room {n : ℕ} (h : FirstFit n map e) : n ≤ e.aboveLow := by
  obtain ⟨_, _, _, _, -, hfit⟩ := h
  exact hfit

theorem FirstFit.cons {n : ℕ} {f : MemmapEntry} (h : FirstFit n map e)
    (hf : f.type = sypasMemUsable → f.aboveLow < n) : FirstFit n (f :: map) e := by
  obtain ⟨pre, post, rfl, hpre, hrest⟩ := h
  refine ⟨f :: pre, post, rfl, fun x hx => ?_, hrest⟩
  obtain rfl | hx := List.mem_cons.1 hx
  · exact hf
  · exact hpre x hx

/-- The first fit is unique. -/
theorem FirstFit.unique {n : ℕ} {f : MemmapEntry} (he : FirstFit n map e) (hf : FirstFit n map f) :
    e = f := by
  obtain ⟨pre, post, rfl, hpre, husable, hfit⟩ := he
  obtain ⟨pre', post', heq, hpre', husable', hfit'⟩ := hf
  rcases List.append_eq_append_iff.1 heq with ⟨mid, rfl, hmid⟩ | ⟨mid, rfl, hmid⟩
  · cases mid with
    | nil => exact (List.cons.inj hmid).1
    | cons x mid =>
      obtain ⟨rfl, -⟩ := List.cons.inj hmid
      exact absurd (hpre' e (List.mem_append_right _ List.mem_cons_self) husable) (by omega)
  · cases mid with
    | nil => exact (List.cons.inj hmid).1.symm
    | cons x mid =>
      obtain ⟨rfl, -⟩ := List.cons.inj hmid
      exact absurd (hpre f (List.mem_append_right _ List.mem_cons_self) husable') (by omega)

/-- Pass 2 finds the first fit, at the part of it above 1 MiB, or there is none. -/
theorem placeBitmap_spec (n : UInt64) (hn : 0 < n.toNat) (map : List MemmapEntry) :
    (placeBitmap n map = 0 ∧ ∀ e ∈ map, e.type = sypasMemUsable → e.aboveLow < n.toNat) ∨
    ∃ e, FirstFit n.toNat map e ∧ (placeBitmap n map).toNat = max e.base.toNat 0x100000 := by
  induction map with
  | nil => exact .inl ⟨rfl, fun e he => absurd he List.not_mem_nil⟩
  | cons f rest ih =>
    -- an entry that is passed over adds nothing to either side
    have hskip (hf : f.type = sypasMemUsable → f.aboveLow < n.toNat)
        (heq : placeBitmap n (f :: rest) = placeBitmap n rest) :
        (placeBitmap n (f :: rest) = 0 ∧
          ∀ e ∈ f :: rest, e.type = sypasMemUsable → e.aboveLow < n.toNat) ∨
        ∃ e, FirstFit n.toNat (f :: rest) e ∧
          (placeBitmap n (f :: rest)).toNat = max e.base.toNat 0x100000 := by
      rw [heq]
      obtain ⟨hzero, hall⟩ | ⟨e, hfit, hplace⟩ := ih
      · refine .inl ⟨hzero, fun e he => ?_⟩
        obtain rfl | he := List.mem_cons.1 he
        · exact hf
        · exact hall e he
      · exact .inr ⟨e, hfit.cons hf, hplace⟩
    by_cases husable : f.type = sypasMemUsable
    swap
    · exact hskip (fun h => absurd h husable) (by rw [placeBitmap, if_pos husable])
    cases habove : aboveLowMemory f with
    | none =>
      refine hskip (fun _ => ?_) (by rw [placeBitmap, if_neg (not_not.2 husable), habove])
      rw [aboveLowMemory_none habove]
      exact hn
    | some part =>
      obtain ⟨base, len⟩ := part
      obtain ⟨hbase, hlen⟩ := aboveLowMemory_some habove
      by_cases hfit : len ≥ n
      · refine .inr ⟨f, ⟨[], rest, rfl, fun x hx => absurd hx List.not_mem_nil, husable, ?_⟩, ?_⟩
        · rw [← hlen]
          exact UInt64.le_iff_toNat_le.1 hfit
        · rw [placeBitmap, if_neg (not_not.2 husable), habove]
          dsimp only
          rw [if_pos hfit, hbase]
      · refine hskip (fun _ => ?_) ?_
        · rw [← hlen]
          exact not_le.1 (mt UInt64.le_iff_toNat_le.2 hfit)
        · rw [placeBitmap, if_neg (not_not.2 husable), habove]
          dsimp only
          rw [if_neg hfit]

end Sypas
