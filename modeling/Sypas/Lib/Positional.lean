import Mathlib

/-!
# Positional notation

Digits of a number in a base, most significant first, as they are written.

## Main definitions

- `Positional.value` — the number that a digit string denotes
- `Positional.digits` — the digit string of a number, `[0]` for zero

## Main results

- `Positional.digits_step` — the recursion of the usual division loop
- `Positional.value_digits`, `Positional.head_digits_ne_zero` — the string denotes the number
  without a leading zero
- `Positional.length_digits_le` — a bound on the number of digits
-/

namespace Positional

/-- The number denoted by the digits `ds` in base `b`. -/
def value (b : ℕ) (ds : List ℕ) : ℕ := ds.foldl (fun v d => v * b + d) 0

/-- The digits of `v` in base `b`, at least one. -/
def digits (b v : ℕ) : List ℕ := if v = 0 then [0] else (Nat.digits b v).reverse

variable {b v k : ℕ}

@[simp] theorem value_nil : value b [] = 0 := rfl

theorem value_append_singleton (ds : List ℕ) (d : ℕ) :
    value b (ds ++ [d]) = value b ds * b + d := by
  rw [value, List.foldl_append]
  rfl

theorem digits_of_lt (h : v < b) : digits b v = [v] := by
  unfold digits
  split
  · subst v
    rfl
  · rw [Nat.digits_of_lt b v ‹_› h]
    rfl

/-- The last digit is the remainder, the others are the digits of the quotient. -/
theorem digits_of_le (hb : 1 < b) (h : b ≤ v) : digits b v = digits b (v / b) ++ [v % b] := by
  have hv : v ≠ 0 := by omega
  have hquot : v / b ≠ 0 := (Nat.div_pos h (by omega)).ne'
  rw [digits, digits, if_neg hv, if_neg hquot, Nat.digits_def' hb (by omega), List.reverse_cons]

theorem digits_step (hb : 1 < b) :
    digits b v = if v / b = 0 then [v % b] else digits b (v / b) ++ [v % b] := by
  by_cases h : v < b
  · rw [if_pos (Nat.div_eq_of_lt h), digits_of_lt h, Nat.mod_eq_of_lt h]
  · have hle := not_lt.1 h
    rw [if_neg (Nat.div_pos hle (by omega)).ne', digits_of_le hb hle]

theorem length_digits_pos : 0 < (digits b v).length := by
  unfold digits
  split
  · exact Nat.one_pos
  · rw [List.length_reverse, List.length_pos_iff]
    exact Nat.digits_ne_nil_iff_ne_zero.2 ‹_›

theorem length_digits_le (hb : 1 < b) (hk : 0 < k) (hv : v < b ^ k) :
    (digits b v).length ≤ k := by
  unfold digits
  split
  · exact hk
  · rw [List.length_reverse]
    exact (Nat.digits_length_le_iff hb v).2 hv

theorem lt_of_mem_digits (hb : 1 < b) {d : ℕ} (hd : d ∈ digits b v) : d < b := by
  unfold digits at hd
  split at hd
  · rw [List.mem_singleton] at hd
    omega
  · exact Nat.digits_lt_base hb (List.mem_reverse.1 hd)

theorem value_digits (hb : 1 < b) (v : ℕ) : value b (digits b v) = v := by
  induction v using Nat.strong_induction_on with
  | _ v ih =>
    by_cases h : v < b
    · rw [digits_of_lt h, value]
      simp
    · have hle := not_lt.1 h
      have hless : v / b < v := Nat.div_lt_self (by omega) hb
      rw [digits_of_le hb hle, value_append_singleton, ih _ hless, Nat.div_add_mod']

theorem head_digits_ne_zero (hv : v ≠ 0) : (digits b v).head? ≠ some 0 := by
  rw [digits, if_neg hv, List.head?_reverse]
  intro h
  have hnil : Nat.digits b v ≠ [] := Nat.digits_ne_nil_iff_ne_zero.2 hv
  rw [List.getLast?_eq_some_getLast hnil, Option.some.injEq] at h
  exact Nat.getLast_digit_ne_zero b hv h

end Positional
