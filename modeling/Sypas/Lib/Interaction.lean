import Sypas.Lib.State

/-!
# Programs that call an environment

A program over a store that calls an environment is the tree of its calls: the
environment answers a call with a value and with a new store. A contract says what the
program guarantees at each call and what it may rely on afterwards, both over a ghost
state that no code sees. What is proved of the tree by the rules below holds of every
run against an environment that keeps the contract.

## Main definitions

- `Interaction` — the tree of calls
- `Interaction.Contract` — guarantees and relies
- `Interaction.Run` — the runs against environments that keep a contract
- `Interaction.may` — what some such environment brings about
- `Interaction.Within` — a bound on the cost of the calls
- `Program` — programs with an early exit
- `Program.wp` — weakest preconditions of programs under a contract

## Main results

- `Interaction.Run.wp`, `Interaction.Run.guarantee`, `Interaction.Run.result` — adequacy
- `Interaction.may.run` — what may happen happens in a run
- `Interaction.wp.exists_run` — where every permitted call has an answer, a run comes to its end
- `Interaction.Run.exists_step` — what has come to hold has come about in some call
- `Program.wp_bind`, `Program.wp_ask` — the rules of sequencing and of a call
-/

/-- A program over a store `σ` whose calls `c : C` are answered by a value of `A c`. -/
inductive Interaction (σ C : Type) (A : C → Type) (ρ : Type) : Type where
  | done (r : ρ) (s : σ)
  | call (c : C) (s : σ) (next : A c → σ → Interaction σ C A ρ)

namespace Interaction

variable {σ C γ ρ τ : Type} {A : C → Type}

/-- Go on with the result and the store. -/
def bind : Interaction σ C A ρ → (ρ → σ → Interaction σ C A τ) → Interaction σ C A τ
  | done r s, f => f r s
  | call c s next, f => call c s fun a s' => (next a s').bind f

/-- What a program guarantees at a call, and what it relies on when the call has been
    answered; `γ` is the ghost state. -/
structure Contract (γ σ C : Type) (A : C → Type) where
  guarantee : γ → σ → C → Prop
  rely : γ → σ → (c : C) → A c → σ → γ → Prop

/-- The program keeps its guarantees, and what it returns satisfies `Q`, as long as it can
    rely on the contract. -/
def wp (K : Contract γ σ C A) (Q : ρ → σ → γ → Prop) : Interaction σ C A ρ → γ → Prop
  | done r s, g => Q r s g
  | call c s next, g =>
    K.guarantee g s c ∧ ∀ a s' g', K.rely g s c a s' g' → (next a s').wp K Q g'

variable {K : Contract γ σ C A}

theorem wp_mono {Q Q' : ρ → σ → γ → Prop} (h : ∀ r s g, Q r s g → Q' r s g)
    {x : Interaction σ C A ρ} {g : γ} (hx : x.wp K Q g) : x.wp K Q' g := by
  induction x generalizing g with
  | done r s => exact h r s g hx
  | call c s next ih => exact ⟨hx.1, fun a s' g' hrely => ih a s' (hx.2 a s' g' hrely)⟩

/-- The sequencing rule. -/
theorem wp_bind {Q : τ → σ → γ → Prop} (x : Interaction σ C A ρ)
    (f : ρ → σ → Interaction σ C A τ) (g : γ) :
    (x.bind f).wp K Q g ↔ x.wp K (fun r s g' => (f r s).wp K Q g') g := by
  induction x generalizing g with
  | done r s => exact Iff.rfl
  | call c s next ih =>
    refine and_congr_right fun _ => ?_
    exact forall_congr' fun a => forall_congr' fun s' => forall_congr' fun g' =>
      imp_congr_right fun _ => ih a s' g'

/-- What the environment only lets grow has grown at the end. -/
theorem wp_grow {β : Type} [Preorder β] {f : γ → β}
    (hgrow : ∀ g s c a s' g', K.rely g s c a s' g' → f g ≤ f g') {Q : ρ → σ → γ → Prop}
    {x : Interaction σ C A ρ} {b : β} {g : γ} (hb : b ≤ f g)
    (h : x.wp K (fun r s g' => b ≤ f g' → Q r s g') g) : x.wp K Q g := by
  induction x generalizing g with
  | done r s => exact h hb
  | call c s next ih =>
    exact ⟨h.1, fun a s' g' hrely => ih a s' (hb.trans (hgrow g s c a s' g' hrely))
      (h.2 a s' g' hrely)⟩

/-! ## Runs -/

/-- One call with the store at the call, the answer and the store after it. -/
structure Event (σ C : Type) (A : C → Type) where
  call : C
  before : σ
  answer : A call
  after : σ

/-- The runs from `x` against an environment that keeps the contract: the calls so far,
    latest last, and what is left to do. -/
inductive Run (K : Contract γ σ C A) (g : γ) (x : Interaction σ C A ρ) :
    List (Event σ C A) → γ → Interaction σ C A ρ → Prop where
  | nil : Run K g x [] g x
  | step {trace : List (Event σ C A)} {g' g'' : γ} {c : C} {s s' : σ}
      {next : A c → σ → Interaction σ C A ρ} {a : A c}
      (run : Run K g x trace g' (.call c s next)) (h : K.rely g' s c a s' g'') :
      Run K g x (trace ++ [⟨c, s, a, s'⟩]) g'' (next a s')

section Adequacy

variable {Q : ρ → σ → γ → Prop} {x y : Interaction σ C A ρ} {g g' : γ}
  {trace : List (Event σ C A)}

/-- What is left to do after a run still meets the specification. -/
theorem Run.wp (h : x.wp K Q g) (hrun : Run K g x trace g' y) : y.wp K Q g' := by
  induction hrun with
  | nil => exact h
  | step _ hrely ih => exact ih.2 _ _ _ hrely

/-- At every call of a run the guarantee holds. -/
theorem Run.guarantee (h : x.wp K Q g) {c : C} {s : σ} {next : A c → σ → Interaction σ C A ρ}
    (hrun : Run K g x trace g' (.call c s next)) : K.guarantee g' s c :=
  (hrun.wp h).1

/-- At the end of a run the postcondition holds. -/
theorem Run.result (h : x.wp K Q g) {r : ρ} {s : σ} (hrun : Run K g x trace g' (.done r s)) :
    Q r s g' :=
  hrun.wp h

end Adequacy

/-- What has come to hold in a run has come about in one of its calls. -/
theorem Run.exists_step {x y : Interaction σ C A ρ} {g₀ g : γ} {trace : List (Event σ C A)}
    {P : γ → Prop} (hrun : Run K g₀ x trace g y) (hstart : ¬P g₀) (hend : P g) :
    ∃ trace' g₁ c s next a s' g₂, Run K g₀ x trace' g₁ (.call c s next) ∧
      K.rely g₁ s c a s' g₂ ∧ ¬P g₁ ∧ P g₂ := by
  induction hrun with
  | nil => exact absurd hend hstart
  | @step trace g₁ g₂ c s s' next a hrun hrely ih =>
    by_cases hbefore : P g₁
    · exact ih hbefore
    · exact ⟨trace, g₁, c, s, next, a, s', g₂, hrun, hrely, hbefore, hend⟩

/-! ## What an environment can bring about -/

/-- Some environment that keeps the contract leads the program to `Q`. -/
def may (K : Contract γ σ C A) (Q : ρ → σ → γ → Prop) : Interaction σ C A ρ → γ → Prop
  | done r s, g => Q r s g
  | call c s next, g => ∃ a s' g', K.rely g s c a s' g' ∧ (next a s').may K Q g'

theorem may_bind {Q : τ → σ → γ → Prop} (x : Interaction σ C A ρ)
    (f : ρ → σ → Interaction σ C A τ) (g : γ) :
    (x.bind f).may K Q g ↔ x.may K (fun r s g' => (f r s).may K Q g') g := by
  induction x generalizing g with
  | done r s => exact Iff.rfl
  | call c s next ih =>
    exact exists_congr fun a => exists_congr fun s' => exists_congr fun g' =>
      and_congr_right fun _ => ih a s' g'

theorem may_mono {Q Q' : ρ → σ → γ → Prop} (h : ∀ r s g, Q r s g → Q' r s g)
    {x : Interaction σ C A ρ} {g : γ} (hx : x.may K Q g) : x.may K Q' g := by
  induction x generalizing g with
  | done r s => exact h r s g hx
  | call c s next ih =>
    obtain ⟨a, s', g', hrely, hnext⟩ := hx
    exact ⟨a, s', g', hrely, ih a s' hnext⟩

/-- Then there is a run that ends so. -/
theorem may.run {Q : ρ → σ → γ → Prop} {x y : Interaction σ C A ρ} {g₀ g : γ}
    {trace : List (Event σ C A)} (hrun : Run K g₀ x trace g y) (h : y.may K Q g) :
    ∃ trace' g' r s, Run K g₀ x trace' g' (.done r s) ∧ Q r s g' := by
  induction y generalizing trace g with
  | done r s => exact ⟨trace, g, r, s, hrun, h⟩
  | call c s next ih =>
    obtain ⟨a, s', g', hrely, hnext⟩ := h
    exact ih a s' (hrun.step hrely) hnext

/-! ## Costs -/

/-- Whatever is answered, the calls cost at most `n`. -/
def Within (cost : C → ℕ) : Interaction σ C A ρ → ℕ → Prop
  | done _ _, _ => True
  | call c _ next, n => cost c ≤ n ∧ ∀ a s', (next a s').Within cost (n - cost c)

variable {cost : C → ℕ}

theorem Within.mono {x : Interaction σ C A ρ} {m n : ℕ} (h : x.Within cost m) (hle : m ≤ n) :
    x.Within cost n := by
  induction x generalizing m n with
  | done r s => trivial
  | call c s next ih =>
    exact ⟨h.1.trans hle, fun a s' => ih a s' (h.2 a s') (Nat.sub_le_sub_right hle _)⟩

/-- Costs add up. -/
theorem Within.bind {x : Interaction σ C A ρ} {f : ρ → σ → Interaction σ C A τ} {m n : ℕ}
    (hx : x.Within cost m) (hf : ∀ r s, (f r s).Within cost n) :
    (x.bind f).Within cost (m + n) := by
  induction x generalizing m with
  | done r s => exact (hf r s).mono (Nat.le_add_left n m)
  | call c s next ih =>
    refine ⟨hx.1.trans (Nat.le_add_right m n), fun a s' => (ih a s' (hx.2 a s')).mono ?_⟩
    have hle := hx.1
    omega

theorem within_zero (x : Interaction σ C A ρ) : x.Within (fun _ => 0) 0 := by
  induction x with
  | done r s => trivial
  | call c s next ih => exact ⟨le_rfl, ih⟩

/-- Every permitted call can be answered so that `f` grows by no more than its cost. -/
def Contract.Answers (K : Contract γ σ C A) (f : γ → ℕ) (cost : C → ℕ) : Prop :=
  ∀ g s c, K.guarantee g s c → ∃ a s' g', K.rely g s c a s' g' ∧ f g' ≤ f g + cost c

theorem wp.may {f : γ → ℕ} (hanswers : K.Answers f cost) {Q : ρ → σ → γ → Prop}
    {x : Interaction σ C A ρ} {g : γ} {n : ℕ} (h : x.wp K Q g) (hn : x.Within cost n) :
    x.may K (fun r s g' => Q r s g' ∧ f g' ≤ f g + n) g := by
  induction x generalizing g n with
  | done r s => exact ⟨h, Nat.le_add_right _ _⟩
  | call c s next ih =>
    obtain ⟨a, s', g', hrely, hgrow⟩ := hanswers g s c h.1
    refine ⟨a, s', g', hrely, may_mono ?_ (ih a s' (h.2 a s' g' hrely) (hn.2 a s'))⟩
    rintro r s'' g'' ⟨hq, hle⟩
    have hcost := hn.1
    exact ⟨hq, by omega⟩

/-- A program that keeps its guarantees has a run to the end, in which `f` grows by no more than
    the cost of its calls. -/
theorem wp.exists_run_within {f : γ → ℕ} (hanswers : K.Answers f cost) {Q : ρ → σ → γ → Prop}
    {x : Interaction σ C A ρ} {g : γ} {n : ℕ} (h : x.wp K Q g) (hn : x.Within cost n) :
    ∃ trace g' r s, Run K g x trace g' (.done r s) ∧ f g' ≤ f g + n := by
  obtain ⟨trace, g', r, s, hrun, -, hle⟩ := may.run .nil (h.may hanswers hn)
  exact ⟨trace, g', r, s, hrun, hle⟩

/-- A program that keeps its guarantees has a run to the end. -/
theorem wp.exists_run {f : γ → ℕ} (hanswers : K.Answers f cost) {Q : ρ → σ → γ → Prop}
    {x : Interaction σ C A ρ} {g : γ} (h : x.wp K Q g) :
    ∃ trace g' r s, Run K g x trace g' (.done r s) := by
  have hplain : K.Answers (fun _ => 0) fun _ => 0 := fun g s c hc => by
    obtain ⟨a, s', g', hrely, -⟩ := hanswers g s c hc
    exact ⟨a, s', g', hrely, le_rfl⟩
  obtain ⟨trace, g', r, s, hrun, -⟩ := h.exists_run_within hplain (within_zero x)
  exact ⟨trace, g', r, s, hrun⟩

end Interaction

/-! ## Programs with an early exit -/

/-- A program that is started on a store and returns `α`, or leaves early with `ε`. -/
def Program (σ C : Type) (A : C → Type) (ε α : Type) : Type :=
  σ → Interaction σ C A (Except ε α)

namespace Program

open Interaction

variable {σ C γ ε α β : Type} {A : C → Type}

/-- What follows a result: the next program, unless the first one has left. -/
def resume (f : α → Program σ C A ε β) : Except ε α → Program σ C A ε β
  | .ok a => f a
  | .error e => fun s => .done (.error e) s

instance : Monad (Program σ C A ε) where
  pure a := fun s => .done (.ok a) s
  bind x f := fun s => (x s).bind fun r s' => resume f r s'

/-- Leave with `e`. -/
def exit (e : ε) : Program σ C A ε α := fun s => .done (.error e) s

/-- Call the environment. -/
def ask (c : C) : Program σ C A ε (A c) := fun s => .call c s fun a s' => .done (.ok a) s'

/-- Run a part that calls nothing. -/
def compute (x : σ → α × σ) : Program σ C A ε α := fun s => .done (.ok (x s).1) (x s).2

/-- Started on `s` with the ghost state `g`, the program keeps its guarantees, returns
    where `Q` holds and leaves early only where `R` holds. -/
def wp (K : Contract γ σ C A) (R : ε → σ → γ → Prop) (Q : α → σ → γ → Prop)
    (x : Program σ C A ε α) (s : σ) (g : γ) : Prop :=
  (x s).wp K (fun r s' g' => Except.casesOn r (fun e => R e s' g') fun a => Q a s' g') g

section Rules

variable {K : Contract γ σ C A} {R : ε → σ → γ → Prop} {Q Q' : α → σ → γ → Prop} {s : σ} {g : γ}

theorem wp_pure {a : α} (h : Q a s g) : (pure a : Program σ C A ε α).wp K R Q s g := h

theorem wp_exit {e : ε} (h : R e s g) : (exit e : Program σ C A ε α).wp K R Q s g := h

theorem wp_compute {x : σ → α × σ} (h : Q (x s).1 (x s).2 g) :
    (compute x : Program σ C A ε α).wp K R Q s g := h

/-- A call: the guarantee at the call, the postcondition from the rely. -/
theorem wp_ask {c : C} {Q : A c → σ → γ → Prop} (hcall : K.guarantee g s c)
    (hanswer : ∀ a s' g', K.rely g s c a s' g' → Q a s' g') :
    (ask c : Program σ C A ε (A c)).wp K R Q s g :=
  ⟨hcall, hanswer⟩

/-- The sequencing rule. -/
theorem wp_bind {x : Program σ C A ε β} {f : β → Program σ C A ε α}
    (h : x.wp K R (fun b s' g' => (f b).wp K R Q s' g') s g) : (x >>= f).wp K R Q s g := by
  refine (Interaction.wp_bind _ _ _).2 (Interaction.wp_mono (fun r s' g' hr => ?_) h)
  cases r with
  | ok b => exact hr
  | error e => exact hr

/-- What the environment only lets grow has grown, however the program ends. -/
theorem wp_grow {β : Type} [Preorder β] {f : γ → β}
    (hgrow : ∀ g s c a s' g', K.rely g s c a s' g' → f g ≤ f g') {x : Program σ C A ε α}
    (h : x.wp K (fun e s' g' => f g ≤ f g' → R e s' g') (fun a s' g' => f g ≤ f g' → Q a s' g')
      s g) : x.wp K R Q s g := by
  refine Interaction.wp_grow hgrow le_rfl (Interaction.wp_mono (fun r s' g' hr => ?_) h)
  cases r with
  | ok a => exact hr
  | error e => exact hr

theorem wp_ite {c : Prop} [Decidable c] {x y : Program σ C A ε α}
    (hx : c → x.wp K R Q s g) (hy : ¬c → y.wp K R Q s g) : (if c then x else y).wp K R Q s g := by
  split
  · next h => exact hx h
  · next h => exact hy h

end Rules

/-- Started on `s`, some environment leads the program to leave with `e` where `R` holds. -/
def mayExit (K : Contract γ σ C A) (R : ε → σ → γ → Prop) (x : Program σ C A ε α) (s : σ) (g : γ) :
    Prop :=
  (x s).may K (fun r s' g' => Except.casesOn r (fun e => R e s' g') fun _ => False) g

/-- Some environment leads the program to return where `Q` holds. -/
def mayReturn (K : Contract γ σ C A) (Q : α → σ → γ → Prop) (x : Program σ C A ε α) (s : σ)
    (g : γ) : Prop :=
  (x s).may K (fun r s' g' => Except.casesOn r (fun _ => False) fun a => Q a s' g') g

section Possibilities

variable {K : Contract γ σ C A} {R : ε → σ → γ → Prop} {Q : α → σ → γ → Prop} {s : σ} {g : γ}

/-- A part that may return, and an end that may be reached from there. -/
theorem mayExit_bind {x : Program σ C A ε β} {f : β → Program σ C A ε α}
    (h : x.mayReturn K (fun b s' g' => (f b).mayExit K R s' g') s g) :
    (x >>= f).mayExit K R s g := by
  refine (Interaction.may_bind _ _ _).2 (Interaction.may_mono (fun r s' g' hr => ?_) h)
  cases r with
  | ok b => exact hr
  | error e => exact hr.elim

theorem mayReturn_bind {x : Program σ C A ε β} {f : β → Program σ C A ε α}
    (h : x.mayReturn K (fun b s' g' => (f b).mayReturn K Q s' g') s g) :
    (x >>= f).mayReturn K Q s g := by
  refine (Interaction.may_bind _ _ _).2 (Interaction.may_mono (fun r s' g' hr => ?_) h)
  cases r with
  | ok b => exact hr
  | error e => exact hr.elim

theorem mayReturn_mono {Q' : α → σ → γ → Prop} {x : Program σ C A ε α}
    (hpost : ∀ a s' g', Q a s' g' → Q' a s' g') (h : x.mayReturn K Q s g) :
    x.mayReturn K Q' s g := by
  refine Interaction.may_mono (fun r s' g' hr => ?_) h
  cases r with
  | ok a => exact hpost a s' g' hr
  | error e => exact hr

theorem mayReturn_ask {c : C} {Q : A c → σ → γ → Prop} (a : A c) (s' : σ) (g' : γ)
    (hrely : K.rely g s c a s' g') (h : Q a s' g') :
    (ask c : Program σ C A ε (A c)).mayReturn K Q s g :=
  ⟨a, s', g', hrely, h⟩

theorem mayReturn_compute {x : σ → α × σ} (h : Q (x s).1 (x s).2 g) :
    (compute x : Program σ C A ε α).mayReturn K Q s g := h

theorem mayReturn_pure {a : α} (h : Q a s g) : (pure a : Program σ C A ε α).mayReturn K Q s g := h

theorem mayExit_exit {e : ε} (h : R e s g) : (exit e : Program σ C A ε α).mayExit K R s g := h

end Possibilities

/-! ## Costs -/

/-- Whatever is answered, and whatever it is started on, the calls cost at most `n`. -/
def Within (cost : C → ℕ) (n : ℕ) (x : Program σ C A ε α) : Prop := ∀ s, (x s).Within cost n

section Costs

variable {cost : C → ℕ} {m n : ℕ}

theorem Within.mono {x : Program σ C A ε α} (h : x.Within cost m) (hle : m ≤ n) :
    x.Within cost n := fun s => (h s).mono hle

theorem within_pure {a : α} : (pure a : Program σ C A ε α).Within cost n := fun _ => trivial

theorem within_exit {e : ε} : (exit e : Program σ C A ε α).Within cost n := fun _ => trivial

theorem within_compute {x : σ → α × σ} : (compute x : Program σ C A ε α).Within cost n :=
  fun _ => trivial

theorem within_ask {c : C} (h : cost c ≤ n) : (ask c : Program σ C A ε (A c)).Within cost n :=
  fun _ => ⟨h, fun _ _ => trivial⟩

/-- The sequencing rule. -/
theorem within_bind {x : Program σ C A ε β} {f : β → Program σ C A ε α} (hx : x.Within cost m)
    (hf : ∀ b, (f b).Within cost n) : (x >>= f).Within cost (m + n) := by
  refine fun s => (hx s).bind fun r s' => ?_
  cases r with
  | ok b => exact hf b s'
  | error e => trivial

/-- A part that costs nothing. -/
theorem within_bind_free {x : Program σ C A ε β} {f : β → Program σ C A ε α}
    (hx : x.Within cost 0) (hf : ∀ b, (f b).Within cost n) : (x >>= f).Within cost n :=
  (within_bind hx hf).mono (Nat.zero_add n).le

theorem within_ite {c : Prop} [Decidable c] {x y : Program σ C A ε α} (hx : x.Within cost n)
    (hy : y.Within cost n) : (if c then x else y).Within cost n := by
  split
  · exact hx
  · exact hy

end Costs

end Program
