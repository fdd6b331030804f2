import Mathlib

/-!
# State-passing programs and counted loops

Imperative code is embedded in `StateM`, applied directly to its start state.
This file gives the equations that run such programs, and the counted loop
`forRange` together with its invariant rules.

## Main definitions

- `Prog.forRange` — `for (i = lo; i < hi; i++) body(i)`

## Main results

- `Prog.forRange_invariant` — an indexed invariant survives a counted loop
- `Prog.forRange_preserves` — a plain invariant survives a counted loop
-/

namespace Prog

universe u

variable {σ α β : Type u}

@[simp] theorem bind_run (x : StateM σ α) (f : α → StateM σ β) (s : σ) :
    (x >>= f) s = f (x s).1 (x s).2 := rfl

@[simp] theorem pure_run (a : α) (s : σ) : (pure a : StateM σ α) s = (a, s) := rfl

@[simp] theorem map_run (f : α → β) (x : StateM σ α) (s : σ) :
    (f <$> x) s = (f (x s).1, (x s).2) := rfl

@[simp] theorem get_run (s : σ) : (get : StateM σ σ) s = (s, s) := rfl

@[simp] theorem set_run (t s : σ) : (set t : StateM σ PUnit) s = (⟨⟩, t) := rfl

@[simp] theorem modify_run (f : σ → σ) (s : σ) :
    (modify f : StateM σ PUnit) s = (⟨⟩, f s) := rfl

@[simp] theorem ite_run (c : Prop) [Decidable c] (x y : StateM σ α) (s : σ) :
    (if c then x else y) s = if c then x s else y s := by
  split <;> rfl

/-- A fallible program returns exactly when its first part does and then the rest. -/
theorem bind_eq_ok_iff {ε : Type*} {x : Except ε α} {f : α → Except ε β} {b : β} :
    (x >>= f) = .ok b ↔ ∃ a, x = .ok a ∧ f a = .ok b := by
  cases x with
  | error e => simp [bind, Except.bind]
  | ok a => simp [bind, Except.bind]

/-- A fallible program returns for a list exactly when it does for each element. -/
theorem mapM_eq_ok_iff {ε : Type u} {f : α → Except ε β} {l : List α} {bs : List β} :
    l.mapM f = .ok bs ↔ List.Forall₂ (fun a b => f a = .ok b) l bs := by
  induction l generalizing bs with
  | nil =>
    rw [List.mapM_nil, List.forall₂_nil_left_iff]
    exact ⟨fun h => (Except.ok.inj h).symm, fun h => congrArg _ h.symm⟩
  | cons a l ih =>
    rw [List.mapM_cons, bind_eq_ok_iff, List.forall₂_cons_left_iff]
    refine exists_congr fun b => ?_
    rw [bind_eq_ok_iff]
    constructor
    · rintro ⟨hb, bs', hbs, h⟩
      exact ⟨bs', hb, ih.1 hbs, (Except.ok.inj h).symm⟩
    · rintro ⟨bs', hb, hbs, rfl⟩
      exact ⟨hb, bs', ih.2 hbs, rfl⟩

/-- The first `n` rounds of a counted loop that starts at `lo`. -/
def rounds (body : ℕ → StateM σ PUnit) (lo : ℕ) : ℕ → StateM σ PUnit
  | 0 => pure ⟨⟩
  | n + 1 => do
    rounds body lo n
    body (lo + n)

/-- `for (i = lo; i < hi; i++) body(i)`. -/
def forRange (lo hi : ℕ) (body : ℕ → StateM σ PUnit) : StateM σ PUnit :=
  rounds body lo (hi - lo)

theorem rounds_invariant {body : ℕ → StateM σ PUnit} {lo : ℕ} (I : ℕ → σ → Prop)
    (n : ℕ) {s : σ} (h : I lo s)
    (hstep : ∀ i t, lo ≤ i → i < lo + n → I i t → I (i + 1) (body i t).2) :
    I (lo + n) (rounds body lo n s).2 := by
  induction n with
  | zero => exact h
  | succ n ih =>
    have hn := ih (fun i t hlo hi => hstep i t hlo (by omega))
    exact hstep (lo + n) _ (by omega) (by omega) hn

/-- An invariant indexed by the loop counter holds at the loop's exit. -/
theorem forRange_invariant {body : ℕ → StateM σ PUnit} {lo hi : ℕ} (I : ℕ → σ → Prop)
    (hle : lo ≤ hi) {s : σ} (h : I lo s)
    (hstep : ∀ i t, lo ≤ i → i < hi → I i t → I (i + 1) (body i t).2) :
    I hi (forRange lo hi body s).2 := by
  have hrun := rounds_invariant I (hi - lo) h
    (fun i t hlo hi' => hstep i t hlo (by omega))
  rwa [Nat.add_sub_cancel' hle] at hrun

/-- A property that every round keeps holds after the loop, whatever its bounds. -/
theorem forRange_preserves {body : ℕ → StateM σ PUnit} {lo hi : ℕ} (I : σ → Prop)
    {s : σ} (h : I s) (hstep : ∀ i t, lo ≤ i → i < hi → I t → I (body i t).2) :
    I (forRange lo hi body s).2 :=
  rounds_invariant (fun _ => I) (hi - lo) h
    (fun i t hlo hi' => hstep i t hlo (by omega))

/-- A loop whose range is empty does nothing. -/
theorem forRange_of_le {body : ℕ → StateM σ PUnit} {lo hi : ℕ} (h : hi ≤ lo) (s : σ) :
    forRange lo hi body s = (⟨⟩, s) := by
  rw [forRange, Nat.sub_eq_zero_of_le h]
  rfl

end Prog
