import Mathlib

/-!
# Linked chains and runs of numbers

A table of links chains numbers together, and an allocator that hands out numbers in
order gives each request a run of them.

## Main definitions

- `LinkedChain` — the numbers visited by following links up to an end mark
- `Run`, `Run.EndToEnd` — runs of numbers that lie end to end

## Main results

- `LinkedChain.unique` — a table has one chain from each start
- `Run.linked` — a run whose links ascend is a chain
- `Run.EndToEnd.pairwise` — runs that lie end to end are disjoint
-/

/-- Following `next` from a start visits the list, whose last element links to `last`. -/
inductive LinkedChain {α : Type*} (next : α → α) (last : α) : α → List α → Prop
  | stop {c : α} : next c = last → LinkedChain next last c [c]
  | link {c : α} {cs : List α} : next c ≠ last → LinkedChain next last (next c) cs →
      LinkedChain next last c (c :: cs)

theorem LinkedChain.unique {α : Type*} {next : α → α} {last c : α} {cs ds : List α}
    (hcs : LinkedChain next last c cs) (hds : LinkedChain next last c ds) : cs = ds := by
  induction hcs generalizing ds with
  | stop hlast =>
    cases hds with
    | stop _ => rfl
    | link hnext _ => exact absurd hlast hnext
  | link hnext _ ih =>
    cases hds with
    | stop hlast => exact absurd hlast hnext
    | link _ hrest => rw [ih hrest]

theorem LinkedChain.ne_nil {α : Type*} {next : α → α} {last c : α} {cs : List α}
    (h : LinkedChain next last c cs) : cs ≠ [] := by
  cases h <;> exact List.cons_ne_nil _ _

theorem LinkedChain.start_mem {α : Type*} {next : α → α} {last c : α} {cs : List α}
    (h : LinkedChain next last c cs) : c ∈ cs := by
  cases h <;> exact List.mem_cons_self

/-- `count` numbers from `start` on. -/
structure Run where
  start : ℕ
  count : ℕ
deriving DecidableEq, Repr

namespace Run

def members (r : Run) : List ℕ := List.range' r.start r.count

@[simp] theorem length_members (r : Run) : r.members.length = r.count := List.length_range'

@[simp] theorem mem_members {r : Run} {c : ℕ} :
    c ∈ r.members ↔ r.start ≤ c ∧ c < r.start + r.count := by
  rw [members, List.mem_range'_1]

/-- The link of each number of the run: the next one, or the end mark. -/
def linkOf (r : Run) (last c : ℕ) : ℕ := if c + 1 < r.start + r.count then c + 1 else last

/-- A run whose numbers link to their successors, the last one to the end mark. -/
theorem linked {r : Run} {next : ℕ → ℕ} {last : ℕ} (hpos : r.count ≠ 0)
    (hlinks : ∀ c ∈ r.members, next c = r.linkOf last c) (hlast : r.start + r.count ≤ last) :
    LinkedChain next last r.start r.members := by
  obtain ⟨start, count⟩ := r
  induction count generalizing start with
  | zero => exact absurd rfl hpos
  | succ n ih =>
    have hfirst := hlinks start (by simp)
    unfold linkOf at hfirst hlinks
    cases n with
    | zero => exact .stop (hfirst.trans (if_neg (by simp)))
    | succ n =>
      dsimp only at hfirst hlast
      rw [if_pos (by omega)] at hfirst
      have hrest : LinkedChain next last (start + 1) (members ⟨start + 1, n + 1⟩) := by
        refine ih (start + 1) (Nat.succ_ne_zero n) (fun c hc => ?_) (by dsimp only; omega)
        rw [mem_members] at hc
        dsimp only at hc
        rw [hlinks c (mem_members.2 (by dsimp only; omega)), linkOf]
        dsimp only
        congr 1
        exact propext (by omega)
      have hne : next start ≠ last := by omega
      refine .link hne ?_
      rw [hfirst]
      exact hrest

/-! ## Runs end to end -/

/-- The runs follow each other from `s` to `e`. An empty run stands nowhere. -/
def EndToEnd : ℕ → List Run → ℕ → Prop
  | s, [], e => s = e
  | s, r :: rs, e => (r.count ≠ 0 → r.start = s) ∧ EndToEnd (s + r.count) rs e

theorem EndToEnd.append {s m e : ℕ} {rs ts : List Run} (hrs : EndToEnd s rs m)
    (hts : EndToEnd m ts e) : EndToEnd s (rs ++ ts) e := by
  induction rs generalizing s with
  | nil =>
    cases (show s = m from hrs)
    exact hts
  | cons r rs ih => exact ⟨hrs.1, ih hrs.2⟩

theorem EndToEnd.le {s e : ℕ} {rs : List Run} (h : EndToEnd s rs e) : s ≤ e := by
  induction rs generalizing s with
  | nil => exact Nat.le_of_eq h
  | cons r rs ih => exact (Nat.le_add_right _ _).trans (ih h.2)

/-- Every run lies between the ends. -/
theorem EndToEnd.bounds {s e : ℕ} {rs : List Run} (h : EndToEnd s rs e) {r : Run} (hr : r ∈ rs)
    (hpos : r.count ≠ 0) : s ≤ r.start ∧ r.start + r.count ≤ e := by
  induction rs generalizing s with
  | nil => cases hr
  | cons r' rs ih =>
    obtain ⟨hstart, hrest⟩ := h
    have hle := hrest.le
    cases hr with
    | head =>
      have := hstart hpos
      omega
    | tail _ hr =>
      have := ih hrest hr
      omega

/-- Two runs share no number. -/
def Apart (r r' : Run) : Prop := ∀ c ∈ r.members, c ∉ r'.members

theorem Apart.symm {r r' : Run} (h : r.Apart r') : r'.Apart r := fun c hc hc' => h c hc' hc

/-- Runs that share no number lie one before the other. -/
theorem Apart.before_or_after {r r' : Run} (h : r.Apart r') (hr : r.count ≠ 0)
    (hr' : r'.count ≠ 0) : r.start + r.count ≤ r'.start ∨ r'.start + r'.count ≤ r.start := by
  by_contra hcross
  refine h (max r.start r'.start) (mem_members.2 ?_) (mem_members.2 ?_) <;> omega

theorem EndToEnd.pairwise {s e : ℕ} {rs : List Run} (h : EndToEnd s rs e) :
    rs.Pairwise Apart := by
  induction rs generalizing s with
  | nil => exact List.Pairwise.nil
  | cons r rs ih =>
    obtain ⟨hstart, hrest⟩ := h
    refine List.pairwise_cons.2 ⟨fun r' hr' c hc hc' => ?_, ih hrest⟩
    rw [mem_members] at hc hc'
    have hlow := hstart (by omega)
    have hhigh := (hrest.bounds hr' (by omega)).1
    omega

end Run

/-! ## Paired lists -/

namespace List.Forall₂

variable {α β : Type*} {R : α → β → Prop} {l : List α} {l' : List β}

theorem exists_left (h : Forall₂ R l l') {b : β} (hb : b ∈ l') : ∃ a ∈ l, R a b := by
  induction h with
  | nil => cases hb
  | cons hab _ ih =>
    cases hb with
    | head => exact ⟨_, mem_cons_self, hab⟩
    | tail _ hb =>
      obtain ⟨a, ha, hab⟩ := ih hb
      exact ⟨a, mem_cons_of_mem _ ha, hab⟩

theorem exists_right (h : Forall₂ R l l') {a : α} (ha : a ∈ l) : ∃ b ∈ l', R a b := by
  induction h with
  | nil => cases ha
  | cons hab _ ih =>
    cases ha with
    | head => exact ⟨_, mem_cons_self, hab⟩
    | tail _ ha =>
      obtain ⟨b, hb, hab⟩ := ih ha
      exact ⟨b, mem_cons_of_mem _ hb, hab⟩

/-- What holds between any two elements of one list holds between their partners. -/
theorem pairwise (h : Forall₂ R l l') {P : α → α → Prop} {Q : β → β → Prop} (hP : l.Pairwise P)
    (hQ : ∀ a ∈ l, ∀ a' ∈ l, ∀ b b', R a b → R a' b' → P a a' → Q b b') : l'.Pairwise Q := by
  induction h with
  | nil => exact Pairwise.nil
  | @cons a b l l' hab hrest ih =>
    obtain ⟨hhead, htail⟩ := pairwise_cons.1 hP
    refine pairwise_cons.2 ⟨fun b' hb' => ?_, ih htail fun c hc c' hc' =>
      hQ c (mem_cons_of_mem _ hc) c' (mem_cons_of_mem _ hc')⟩
    obtain ⟨a', ha', hab'⟩ := hrest.exists_left hb'
    exact hQ a mem_cons_self a' (mem_cons_of_mem _ ha') b b' hab hab' (hhead a' ha')

end List.Forall₂
