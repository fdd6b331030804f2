import Sypas.Lib.State

/-!
# Pixel memory

A linear framebuffer is a function from pixel indices to pixels. The pixel at line `y`
and column `x` has the index `y * pitch + x`, so that a pixel inside the pitch
determines its line and column. Programs over it are `StateM (Raster α)` computations
that record every index they touch.

## Main definitions

- `Raster` — pixel memory with the indices accessed so far
- `Raster.pixel` — the pixel at a line and column
- `Raster.storeRun`, `Raster.copyRun` — the loops over a stretch of one line
- `Raster.Below` — programs that touch only indices below a bound

## Main results

- `Raster.storeRun_px`, `Raster.storeRuns_px` — a stretch of stores, a line of stretches
- `Raster.copyRun_px` — a copy towards lower indices, overlapping or not
- `Raster.index_inj` — lines and columns from indices
-/

/-- Pixels by index, and the indices accessed, latest first. -/
structure Raster (α : Type) where
  px : ℕ → α
  log : List ℕ

namespace Raster

open Prog

variable {α : Type}

def load (i : ℕ) : StateM (Raster α) α := do
  modify fun s => { s with log := i :: s.log }
  let s ← get
  pure (s.px i)

def store (i : ℕ) (v : α) : StateM (Raster α) Unit :=
  modify fun s => ⟨Function.update s.px i v, i :: s.log⟩

@[simp] theorem load_run (i : ℕ) (s : Raster α) : load i s = (s.px i, ⟨s.px, i :: s.log⟩) := rfl

@[simp] theorem store_run (i : ℕ) (v : α) (s : Raster α) :
    store i v s = ((), ⟨Function.update s.px i v, i :: s.log⟩) := rfl

/-! ## Runs of one line -/

/-- `for (i = 0; i < n; i++) line[i] = f(i)` -/
def storeRun (line n : ℕ) (f : ℕ → α) : StateM (Raster α) Unit :=
  forRange 0 n fun i => store (line + i) (f i)

/-- `for (i = 0; i < n; i++) dst[i] = src[i]` -/
def copyRun (dst src n : ℕ) : StateM (Raster α) Unit :=
  forRange 0 n fun i => do
    let v ← load (src + i)
    store (dst + i) v

theorem storeRun_px (line n : ℕ) (f : ℕ → α) (s : Raster α) (i : ℕ) :
    (storeRun line n f s).2.px i = if line ≤ i ∧ i < line + n then f (i - line) else s.px i := by
  have hrun := @forRange_invariant _ (fun i => store (line + i) (f i)) 0 n
    (fun k (t : Raster α) =>
      ∀ i, t.px i = if line ≤ i ∧ i < line + k then f (i - line) else s.px i)
    (Nat.zero_le n) s (fun i => by rw [if_neg (by omega)]) ?_
  · exact hrun i
  · intro k t _ _ ht i
    simp only [store_run]
    by_cases hi : i = line + k
    · subst hi
      rw [Function.update_self, if_pos (by omega), Nat.add_sub_cancel_left]
    · rw [Function.update_of_ne hi, ht]
      exact if_congr (by omega) rfl rfl

/-- Runs of length `k` one behind the other, each of one value: an enlarged line. -/
theorem storeRuns_px (line n k : ℕ) (f : ℕ → α) (s : Raster α) (i : ℕ) :
    (forRange 0 n (fun g => storeRun (line + g * k) k fun _ => f g) s).2.px i =
      if line ≤ i ∧ i < line + n * k then f ((i - line) / k) else s.px i := by
  have hrun := @forRange_invariant _ (fun g => storeRun (line + g * k) k fun _ => f g) 0 n
    (fun m (t : Raster α) =>
      ∀ i, t.px i = if line ≤ i ∧ i < line + m * k then f ((i - line) / k) else s.px i)
    (Nat.zero_le n) s (fun i => by rw [if_neg (by omega)]) ?_
  · exact hrun i
  · intro m t _ _ ht i
    rw [storeRun_px, ht, Nat.add_mul, Nat.one_mul]
    by_cases hi : line + m * k ≤ i ∧ i < line + m * k + k
    · have hdiv : (i - line) / k = m := by
        apply Nat.div_eq_of_lt_le
        · omega
        · rw [Nat.add_mul, Nat.one_mul]
          omega
      rw [if_pos hi, if_pos (by omega), hdiv]
    · rw [if_neg hi]
      exact if_congr (by omega) rfl rfl

/-- A copy towards lower indices moves the pixels as they were, even when the two
    stretches overlap: what is overwritten has been read. -/
theorem copyRun_px {dst src : ℕ} (n : ℕ) (h : dst ≤ src) (s : Raster α) (i : ℕ) :
    (copyRun dst src n s).2.px i =
      if dst ≤ i ∧ i < dst + n then s.px (src + (i - dst)) else s.px i := by
  have hrun := @forRange_invariant _
    (fun i => (do let v ← load (src + i); store (dst + i) v : StateM (Raster α) Unit)) 0 n
    (fun k (t : Raster α) =>
      ∀ i, t.px i = if dst ≤ i ∧ i < dst + k then s.px (src + (i - dst)) else s.px i)
    (Nat.zero_le n) s (fun i => by rw [if_neg (by omega)]) ?_
  · exact hrun i
  · intro k t _ _ ht i
    simp only [bind_run, load_run, store_run]
    by_cases hi : i = dst + k
    · subst hi
      rw [Function.update_self, ht, if_neg (by omega), if_pos (by omega), Nat.add_sub_cancel_left]
    · rw [Function.update_of_ne hi, ht]
      exact if_congr (by omega) rfl rfl

/-! ## Bounds -/

/-- A program that touches only indices below `n`. -/
def Below {β : Type} (n : ℕ) (x : StateM (Raster α) β) : Prop :=
  ∀ s, ∀ i ∈ (x s).2.log, i ∈ s.log ∨ i < n

theorem Below.bind {β γ : Type} {n : ℕ} {x : StateM (Raster α) β} {f : β → StateM (Raster α) γ}
    (hx : Below n x) (hf : ∀ b, Below n (f b)) : Below n (x >>= f) := by
  intro s i hi
  obtain hi | hi := hf _ _ i hi
  · exact hx s i hi
  · exact .inr hi

theorem Below.load {n i : ℕ} (h : i < n) : Below n (load i : StateM (Raster α) α) := by
  intro s j hj
  obtain rfl | hj := List.mem_cons.1 hj
  · exact .inr h
  · exact .inl hj

theorem Below.store {n i : ℕ} (v : α) (h : i < n) : Below n (store i v) := by
  intro s j hj
  obtain rfl | hj := List.mem_cons.1 hj
  · exact .inr h
  · exact .inl hj

theorem Below.forRange {n lo hi : ℕ} {body : ℕ → StateM (Raster α) Unit}
    (h : ∀ k, lo ≤ k → k < hi → Below n (body k)) : Below n (Prog.forRange lo hi body) := by
  intro s
  refine forRange_preserves (fun t : Raster α => ∀ i ∈ t.log, i ∈ s.log ∨ i < n)
    (fun i hi => .inl hi) ?_
  intro k t hlo hhi ht i hi
  obtain hi | hi := h k hlo hhi t i hi
  · exact ht i hi
  · exact .inr hi

theorem storeRun_below {bound line n : ℕ} (f : ℕ → α) (h : line + n ≤ bound) :
    Below bound (storeRun line n f) :=
  .forRange fun _ _ hi => .store _ (by omega)

theorem copyRun_below {bound dst src n : ℕ} (hdst : dst + n ≤ bound) (hsrc : src + n ≤ bound) :
    Below bound (copyRun dst src n : StateM (Raster α) Unit) :=
  .forRange fun _ _ hi => .bind (.load (by omega)) fun _ => .store _ (by omega)

/-! ## Lines and columns -/

/-- The pixel at line `y` and column `x`. -/
def pixel (s : Raster α) (pitch y x : ℕ) : α := s.px (y * pitch + x)

/-- Inside the pitch, the index determines line and column. -/
theorem index_inj {pitch y x y' x' : ℕ} (hx : x < pitch) (hx' : x' < pitch) :
    y * pitch + x = y' * pitch + x' ↔ y = y' ∧ x = x' := by
  constructor
  · intro h
    have hpos : 0 < pitch := by omega
    have hy : (y * pitch + x) / pitch = (y' * pitch + x') / pitch := by rw [h]
    rw [Nat.mul_comm, Nat.mul_comm y', Nat.mul_add_div hpos, Nat.mul_add_div hpos,
      Nat.div_eq_of_lt hx, Nat.div_eq_of_lt hx', Nat.add_zero, Nat.add_zero] at hy
    subst hy
    exact ⟨rfl, Nat.add_left_cancel h⟩
  · rintro ⟨rfl, rfl⟩
    rfl

/-- A stretch of one line, seen by lines and columns. -/
theorem mem_line_iff {pitch y x w y' x' : ℕ} (hw : x + w ≤ pitch) (hx' : x' < pitch) :
    (y * pitch + x ≤ y' * pitch + x' ∧ y' * pitch + x' < y * pitch + x + w) ↔
      y' = y ∧ x ≤ x' ∧ x' < x + w := by
  constructor
  · rintro ⟨hlo, hhi⟩
    have hcol : y' * pitch + x' = y * pitch + (x + (y' * pitch + x' - (y * pitch + x))) := by
      omega
    obtain ⟨rfl, hx⟩ := (index_inj hx' (by omega)).1 hcol
    exact ⟨rfl, by omega, by omega⟩
  · rintro ⟨rfl, hlo, hhi⟩
    omega

/-- A stretch of whole lines, seen by lines and columns. -/
theorem mem_lines_iff {pitch y n y' x' : ℕ} (hx' : x' < pitch) :
    (y * pitch ≤ y' * pitch + x' ∧ y' * pitch + x' < y * pitch + n * pitch) ↔
      y ≤ y' ∧ y' < y + n := by
  rw [← Nat.add_mul]
  constructor
  · rintro ⟨hlo, hhi⟩
    constructor
    · by_contra hlt
      have := Nat.mul_le_mul_right pitch (show y' + 1 ≤ y by omega)
      rw [Nat.add_mul, Nat.one_mul] at this
      omega
    · by_contra hge
      have := Nat.mul_le_mul_right pitch (show y + n ≤ y' by omega)
      omega
  · rintro ⟨hlo, hhi⟩
    have h₁ := Nat.mul_le_mul_right pitch hlo
    have h₂ := Nat.mul_le_mul_right pitch (show y' + 1 ≤ y + n by omega)
    rw [Nat.add_mul y' 1, Nat.one_mul] at h₂
    omega

end Raster
