import Mathlib

/-!
# Coalesced lists of tagged address ranges

A partial classification of addresses `f : ℕ → Option τ` is represented by an
ascending list of disjoint tagged ranges in which touching ranges with one tag
are merged. The list is built from left to right, and its length is the number of
maximal runs of the classification.

## Main definitions

- `Extent` — a tagged address range
- `Extent.Canonical` — ascending, non-empty, disjoint and coalesced
- `Extent.push` — append a range, merging it with the last one where they touch
- `Extent.runs` — how many maximal runs of a classification start below a bound
- `Extent.Covers` — a list represents a classification below a bound

## Main results

- `Extent.Covers.push`, `Extent.Covers.skip` — one more run, one more gap
- `Extent.Canonical.look_eq` — every range of a canonical list is seen by `look`
-/

/-- The addresses from `start` up to, but not including, `stop`. -/
@[ext] structure Extent (τ : Type*) where
  start : ℕ
  stop : ℕ
  tag : τ
deriving DecidableEq, Repr

namespace Extent

variable {τ : Type*}

/-- The range contains address `a`. -/
def Has (e : Extent τ) (a : ℕ) : Prop := e.start ≤ a ∧ a < e.stop

instance (e : Extent τ) (a : ℕ) : Decidable (e.Has a) := inferInstanceAs (Decidable (_ ∧ _))

/-- The tag of the first range that contains `a`. -/
def look : List (Extent τ) → ℕ → Option τ
  | [], _ => none
  | e :: l, a => if e.Has a then some e.tag else look l a

theorem look_append (l l' : List (Extent τ)) (a : ℕ) :
    look (l ++ l') a = (look l a).or (look l' a) := by
  induction l with
  | nil => rfl
  | cons e l ih =>
    rw [List.cons_append, look, look]
    split
    · rfl
    · exact ih

theorem look_eq_none_of_stop_le {l : List (Extent τ)} {a : ℕ} (h : ∀ e ∈ l, e.stop ≤ a) :
    look l a = none := by
  induction l with
  | nil => rfl
  | cons e l ih =>
    have hstop := h e List.mem_cons_self
    rw [look, if_neg (fun hin => absurd hin.2 (by omega))]
    exact ih fun e' he' => h e' (List.mem_cons_of_mem _ he')

theorem look_eq_some {l : List (Extent τ)} {a : ℕ} {t : τ} (h : look l a = some t) :
    ∃ e ∈ l, e.Has a ∧ e.tag = t := by
  induction l with
  | nil => cases h
  | cons e l ih =>
    rw [look] at h
    split at h
    · next hin => exact ⟨e, List.mem_cons_self, hin, Option.some.inj h⟩
    · obtain ⟨e', he', hin, htag⟩ := ih h
      exact ⟨e', List.mem_cons_of_mem _ he', hin, htag⟩

/-- Ascending, non-empty and disjoint, with no two touching ranges of one tag. -/
structure Canonical (l : List (Extent τ)) : Prop where
  nonempty : ∀ e ∈ l, e.start < e.stop
  ordered : l.Pairwise fun e e' => e.stop ≤ e'.start
  coalesced : l.IsChain fun e e' => e.stop = e'.start → e.tag ≠ e'.tag

theorem Canonical.nil : Canonical ([] : List (Extent τ)) where
  nonempty := fun _ h => absurd h List.not_mem_nil
  ordered := List.Pairwise.nil
  coalesced := List.IsChain.nil

/-- Every range of a canonical list is the one `look` finds for its addresses. -/
theorem Canonical.look_eq {l : List (Extent τ)} (h : Canonical l) {e : Extent τ} (he : e ∈ l)
    {a : ℕ} (ha : e.Has a) : look l a = some e.tag := by
  have hordered := h.ordered
  clear h
  induction l with
  | nil => cases he
  | cons e' l ih =>
    obtain ⟨hhead, htail⟩ := List.pairwise_cons.1 hordered
    rw [look]
    rcases List.mem_cons.1 he with rfl | he
    · rw [if_pos ha]
    · have hle := hhead e he
      rw [if_neg (fun hin => absurd hin.2 (by have := ha.1; omega))]
      exact ih he htail

/-! ## Appending -/

variable [DecidableEq τ]

/-- Append a range, merging it with the last one when they touch and agree. -/
def push (l : List (Extent τ)) (e : Extent τ) : List (Extent τ) :=
  match l.getLast? with
  | some p => if p.tag = e.tag ∧ p.stop = e.start then l.dropLast ++ [{ p with stop := e.stop }]
      else l ++ [e]
  | none => l ++ [e]

theorem push_concat_of_touch {init : List (Extent τ)} {p e : Extent τ}
    (h : p.tag = e.tag ∧ p.stop = e.start) :
    push (init ++ [p]) e = init ++ [{ p with stop := e.stop }] := by
  rw [push, List.getLast?_concat, List.dropLast_concat]
  exact if_pos h

theorem push_concat_of_not {init : List (Extent τ)} {p e : Extent τ}
    (h : ¬(p.tag = e.tag ∧ p.stop = e.start)) : push (init ++ [p]) e = init ++ [p] ++ [e] := by
  rw [push, List.getLast?_concat]
  exact if_neg h

/-- A maximal run of the classification starts at `a`. -/
def RunStart (f : ℕ → Option τ) (a : ℕ) : Prop := f a ≠ none ∧ (a = 0 ∨ f (a - 1) ≠ f a)

instance (f : ℕ → Option τ) : DecidablePred (RunStart f) :=
  fun _ => inferInstanceAs (Decidable (_ ∧ _))

/-- The number of maximal runs that start below `c`. -/
def runs (f : ℕ → Option τ) (c : ℕ) : ℕ := Nat.count (RunStart f) c

theorem runs_mono (f : ℕ → Option τ) {c c' : ℕ} (h : c ≤ c') : runs f c ≤ runs f c' :=
  Nat.count_monotone _ h

theorem runs_congr {f g : ℕ → Option τ} {c : ℕ} (h : ∀ a < c, f a = g a) : runs f c = runs g c := by
  induction c with
  | zero => rfl
  | succ n ih =>
    have hiff : RunStart f n ↔ RunStart g n := by
      rw [RunStart, RunStart, h n (by omega), h (n - 1) (by omega)]
    have hn := ih fun a ha => h a (by omega)
    rw [runs, runs] at hn ⊢
    rw [Nat.count_succ, Nat.count_succ, hn]
    simp only [hiff]

/-- There are no more runs than places where one can start. -/
theorem runs_le_card {f : ℕ → Option τ} {c : ℕ} (S : Finset ℕ)
    (h : ∀ a < c, RunStart f a → a ∈ S) : runs f c ≤ S.card := by
  rw [runs, Nat.count_eq_card_filter_range]
  apply Finset.card_le_card
  intro a ha
  obtain ⟨hlt, hstart⟩ := Finset.mem_filter.1 ha
  exact h a (Finset.mem_range.1 hlt) hstart

/-- No run starts inside a gap. -/
theorem runs_skip {f : ℕ → Option τ} {c c' : ℕ} (hle : c ≤ c')
    (hnone : ∀ a, c ≤ a → a < c' → f a = none) : runs f c' = runs f c := by
  induction c', hle using Nat.le_induction with
  | base => rfl
  | succ n hn ih =>
    have hno : ¬RunStart f n := fun h => h.1 (hnone n hn (Nat.lt_succ_self n))
    rw [runs, Nat.count_succ_eq_count hno]
    exact ih fun a hca ha => hnone a hca (by omega)

/-- A constant stretch starts a run exactly when its first address does. -/
theorem runs_const {f : ℕ → Option τ} {c c' : ℕ} {t : τ} (hlt : c < c')
    (hconst : ∀ a, c ≤ a → a < c' → f a = some t) :
    runs f c' = runs f c + if RunStart f c then 1 else 0 := by
  induction c', Nat.succ_le_of_lt hlt using Nat.le_induction with
  | base => rw [runs, Nat.count_succ, runs]
  | succ n hn ih =>
    have hno : ¬RunStart f n := by
      rintro ⟨-, hzero | hne⟩
      · omega
      · exact hne (by rw [hconst n (by omega) (by omega), hconst (n - 1) (by omega) (by omega)])
    rw [runs, Nat.count_succ_eq_count hno]
    exact ih (by omega) fun a hca ha => hconst a hca (by omega)

/-- Below `c`, the list represents the classification `f`. -/
structure Covers (l : List (Extent τ)) (f : ℕ → Option τ) (c : ℕ) : Prop where
  canonical : Canonical l
  stop_le : ∀ e ∈ l, e.stop ≤ c
  look_eq : ∀ a < c, look l a = f a
  length_eq : l.length = runs f c

theorem Covers.nil (f : ℕ → Option τ) : Covers [] f 0 where
  canonical := Canonical.nil
  stop_le := fun _ h => absurd h List.not_mem_nil
  look_eq := fun _ h => absurd h (Nat.not_lt_zero _)
  length_eq := rfl

/-- Only the classification below the bound matters. -/
theorem Covers.congr {l : List (Extent τ)} {f g : ℕ → Option τ} {c : ℕ} (h : Covers l f c)
    (heq : ∀ a < c, f a = g a) : Covers l g c where
  canonical := h.canonical
  stop_le := h.stop_le
  look_eq := fun a ha => (h.look_eq a ha).trans (heq a ha)
  length_eq := h.length_eq.trans (runs_congr heq)

/-- A gap extends the representation without changing the list. -/
theorem Covers.skip {l : List (Extent τ)} {f : ℕ → Option τ} {c c' : ℕ} (h : Covers l f c)
    (hle : c ≤ c') (hnone : ∀ a, c ≤ a → a < c' → f a = none) : Covers l f c' where
  canonical := h.canonical
  stop_le := fun e he => (h.stop_le e he).trans hle
  look_eq := by
    intro a ha
    rcases Nat.lt_or_ge a c with hlt | hge
    · exact h.look_eq a hlt
    · rw [hnone a hge ha]
      exact look_eq_none_of_stop_le fun e he => (h.stop_le e he).trans hge
  length_eq := by rw [h.length_eq, runs_skip hle hnone]

/-- Where the last range neither touches nor agrees, a run starts. -/
theorem Covers.runStart_iff {l : List (Extent τ)} {f : ℕ → Option τ} {c : ℕ} {t : τ}
    (h : Covers l f c) (hc : f c = some t) :
    RunStart f c ↔ ∀ p, l.getLast? = some p → ¬(p.tag = t ∧ p.stop = c) := by
  rw [RunStart, hc]
  constructor
  · rintro ⟨-, hstart⟩ p hp ⟨htag, hstop⟩
    have hmem : p ∈ l := List.mem_of_getLast? hp
    have hlt := h.canonical.nonempty p hmem
    have hlook : look l (c - 1) = some p.tag :=
      h.canonical.look_eq hmem ⟨by omega, by omega⟩
    rcases hstart with hzero | hne
    · omega
    · rw [← h.look_eq (c - 1) (by omega), hlook, htag] at hne
      exact hne rfl
  · intro hlast
    refine ⟨nofun, or_iff_not_imp_left.2 fun hpos heq => ?_⟩
    rw [← h.look_eq (c - 1) (by omega)] at heq
    obtain ⟨e, he, hin, htag⟩ := look_eq_some heq
    obtain ⟨l', rfl⟩ | ⟨p, hp, hne⟩ : (∃ l', l = l' ++ [e]) ∨
        ∃ p ∈ l, e.stop ≤ p.start := by
      obtain ⟨pre, post, rfl⟩ := List.append_of_mem he
      rcases post with - | ⟨p, post⟩
      · exact Or.inl ⟨pre, rfl⟩
      · have hord := (List.pairwise_append.1 h.canonical.ordered).2.1
        exact Or.inr ⟨p, by simp, (List.pairwise_cons.1 hord).1 p List.mem_cons_self⟩
    · have hstop := h.stop_le e he
      have hin' := hin.2
      exact hlast e List.getLast?_concat ⟨htag, by omega⟩
    · have h₁ := h.canonical.nonempty p hp
      have h₂ := h.stop_le p hp
      have h₃ := hin.2
      omega

/-- The next stretch, represented as what came before it was. -/
theorem Covers.look_eq_of_split {l m : List (Extent τ)} {f : ℕ → Option τ} {c c' : ℕ} {t : τ}
    (h : Covers l f c) (hconst : ∀ a, c ≤ a → a < c' → f a = some t)
    (hlow : ∀ a < c, look m a = look l a) (hhigh : ∀ a, c ≤ a → a < c' → look m a = some t) :
    ∀ a < c', look m a = f a := by
  intro a ha
  rcases Nat.lt_or_ge a c with hac | hac
  · rw [hlow a hac, h.look_eq a hac]
  · rw [hhigh a hac ha, hconst a hac ha]

/-- A stretch that does not continue the last range is a new one. -/
theorem Covers.new {l : List (Extent τ)} {f : ℕ → Option τ} {c c' : ℕ} {t : τ}
    (h : Covers l f c) (hlt : c < c') (hconst : ∀ a, c ≤ a → a < c' → f a = some t)
    (hlast : ∀ p, l.getLast? = some p → ¬(p.tag = t ∧ p.stop = c)) :
    Covers (l ++ [⟨c, c', t⟩]) f c' where
  canonical := by
    refine ⟨?_, ?_, ?_⟩
    · intro e he
      rcases List.mem_append.1 he with he | he
      · exact h.canonical.nonempty e he
      · rw [List.mem_singleton.1 he]
        exact hlt
    · refine List.pairwise_append.2 ⟨h.canonical.ordered, List.pairwise_singleton _ _, ?_⟩
      intro e he e' he'
      rw [List.mem_singleton.1 he']
      exact h.stop_le e he
    · refine List.isChain_append.2 ⟨h.canonical.coalesced, List.isChain_singleton _, ?_⟩
      intro p hp e he hstop htag
      obtain rfl : e = ⟨c, c', t⟩ := by simpa using he.symm
      exact hlast p hp ⟨htag, hstop⟩
  stop_le := by
    intro e he
    rcases List.mem_append.1 he with he | he
    · exact (h.stop_le e he).trans hlt.le
    · rw [List.mem_singleton.1 he]
  look_eq := by
    refine h.look_eq_of_split hconst (fun a ha => ?_) fun a hca ha => ?_
    · rw [look_append, look, if_neg fun hin => absurd hin.1 (by simpa using ha), look,
        Option.or_none]
    · rw [look_append, look_eq_none_of_stop_le fun e he => (h.stop_le e he).trans hca,
        Option.none_or, look, if_pos ⟨hca, ha⟩]
  length_eq := by
    have hstart := (h.runStart_iff (hconst c le_rfl hlt)).2 hlast
    rw [List.length_append, h.length_eq, runs_const hlt hconst, if_pos hstart,
      List.length_singleton]

/-- A stretch that continues the last range moves its stop. -/
theorem Covers.merge {init : List (Extent τ)} {p : Extent τ} {f : ℕ → Option τ} {c c' : ℕ}
    (h : Covers (init ++ [p]) f c) (hlt : c < c')
    (hconst : ∀ a, c ≤ a → a < c' → f a = some p.tag) (hstop : p.stop = c) :
    Covers (init ++ [{ p with stop := c' }]) f c' := by
  have hpne := h.canonical.nonempty p (by simp)
  obtain ⟨hinit, -, hbefore⟩ := List.pairwise_append.1 h.canonical.ordered
  have hinitStop : ∀ e ∈ init, e.stop ≤ p.start := fun e he => hbefore e he p (by simp)
  refine ⟨⟨?_, ?_, ?_⟩, ?_, h.look_eq_of_split hconst ?_ ?_, ?_⟩
  · intro e he
    rcases List.mem_append.1 he with he | he
    · exact h.canonical.nonempty e (by simp [he])
    · rw [List.mem_singleton.1 he]
      dsimp only
      omega
  · refine List.pairwise_append.2 ⟨hinit, List.pairwise_singleton _ _, ?_⟩
    intro e he e' he'
    rw [List.mem_singleton.1 he']
    exact hinitStop e he
  · obtain ⟨hchain, -, hlink⟩ := List.isChain_append.1 h.canonical.coalesced
    refine List.isChain_append.2 ⟨hchain, List.isChain_singleton _, ?_⟩
    intro q hq e he
    obtain rfl : e = { p with stop := c' } := by simpa using he.symm
    exact hlink q hq p (by simp)
  · intro e he
    rcases List.mem_append.1 he with he | he
    · exact (h.stop_le e (by simp [he])).trans hlt.le
    · rw [List.mem_singleton.1 he]
  · intro a ha
    have hiff : Has { p with stop := c' } a ↔ p.Has a := by
      unfold Has
      dsimp only
      omega
    rw [look_append, look_append, look, look]
    simp only [hiff]
    rfl
  · intro a hca ha
    rw [look_append, look_eq_none_of_stop_le fun e he => (hinitStop e he).trans (by omega),
      Option.none_or, look, if_pos ⟨by dsimp only; omega, ha⟩]
  · -- no run starts at `c`, and the list is as long as before
    have hno : ¬RunStart f c := fun hrun =>
      (h.runStart_iff (hconst c le_rfl hlt)).1 hrun p List.getLast?_concat ⟨rfl, hstop⟩
    rw [runs_const hlt hconst, if_neg hno, ← h.length_eq]
    simp

/-- Appending the next run keeps the representation. -/
theorem Covers.push {l : List (Extent τ)} {f : ℕ → Option τ} {c c' : ℕ} {t : τ}
    (h : Covers l f c) (hlt : c < c') (hconst : ∀ a, c ≤ a → a < c' → f a = some t) :
    Covers (push l ⟨c, c', t⟩) f c' := by
  rcases List.eq_nil_or_concat l with rfl | ⟨init, p, rfl⟩
  · exact h.new hlt hconst fun p hp => by cases hp
  rw [List.concat_eq_append] at *
  by_cases hmerge : p.tag = t ∧ p.stop = c
  · rw [push_concat_of_touch hmerge]
    obtain ⟨rfl, hstop⟩ := hmerge
    exact h.merge hlt hconst hstop
  · rw [push_concat_of_not hmerge]
    refine h.new hlt hconst fun p' hp' => ?_
    rw [List.getLast?_concat] at hp'
    cases hp'
    exact hmerge

end Extent
