import Mathlib

/-!
# Machine words as natural numbers

Bridges from the wrapping operations on `UInt64` to arithmetic on `ℕ`: masks,
alignment, powers of two, and additions that do not wrap.

## Main results

- `Word.toNat_and_mask` — a low mask is a remainder
- `Word.toNat_and_not_mask` — a high mask rounds down
- `Word.and_pred_eq_zero_iff` — the one-bit test recognises powers of two
- `Word.sub_and_mask_eq_zero_iff` — a masked difference tests a congruence
-/

namespace Word

theorem toNat_add_of_lt {x y : UInt64} (h : x.toNat + y.toNat < 2 ^ 64) :
    (x + y).toNat = x.toNat + y.toNat := by
  rw [UInt64.toNat_add, Nat.mod_eq_of_lt h]

theorem toNat_mul_of_lt {x y : UInt64} (h : x.toNat * y.toNat < 2 ^ 64) :
    (x * y).toNat = x.toNat * y.toNat := by
  rw [UInt64.toNat_mul, Nat.mod_eq_of_lt h]

theorem toNat_max : (0xFFFFFFFFFFFFFFFF : UInt64).toNat = 2 ^ 64 - 1 := rfl

theorem toNat_ofNat_of_lt {n : ℕ} (h : n < 2 ^ 64) : (UInt64.ofNat n).toNat = n := by
  rw [UInt64.toNat_ofNat', Nat.mod_eq_of_lt h]

/-- `x > y ? x : y` -/
theorem toNat_ite_gt (x y : UInt64) : (if x > y then x else y).toNat = max x.toNat y.toNat := by
  split
  · next h => exact (max_eq_left (UInt64.lt_iff_toNat_lt.1 h).le).symm
  · next h => exact (max_eq_right (not_lt.1 (mt UInt64.lt_iff_toNat_lt.2 h))).symm

/-- `x < y ? x : y` -/
theorem toNat_ite_lt (x y : UInt64) : (if x < y then x else y).toNat = min x.toNat y.toNat := by
  split
  · next h => exact (min_eq_left (UInt64.lt_iff_toNat_lt.1 h).le).symm
  · next h => exact (min_eq_right (not_lt.1 (mt UInt64.lt_iff_toNat_lt.2 h))).symm

/-- `x & (2^k - 1)` is the remainder modulo `2^k`. -/
theorem toNat_and_mask (x : UInt64) {m : UInt64} {k : ℕ} (hm : m.toNat = 2 ^ k - 1) :
    (x &&& m).toNat = x.toNat % 2 ^ k := by
  rw [UInt64.toNat_and, hm, Nat.and_two_pow_sub_one_eq_mod]

/-- `x & ~(2^k - 1)` rounds down to a multiple of `2^k`, at any width. -/
theorem toNat_and_not_mask_bitVec {w : ℕ} (x : BitVec w) {m : BitVec w} {k : ℕ}
    (hm : m.toNat = 2 ^ k - 1) : (x &&& ~~~m).toNat = x.toNat / 2 ^ k * 2 ^ k := by
  have hnot : (~~~m).toNat = 2 ^ w - (m.toNat + 1) := by
    rw [BitVec.toNat_not]
    omega
  apply Nat.eq_of_testBit_eq
  intro i
  rw [BitVec.toNat_and, Nat.testBit_and, hnot, Nat.testBit_two_pow_sub_succ m.isLt, hm,
    Nat.testBit_two_pow_sub_one, Nat.testBit_mul_two_pow, ← Nat.shiftRight_eq_div_pow,
    Nat.testBit_shiftRight]
  by_cases hik : i < k
  · simp [hik]
  · have hki : k ≤ i := by omega
    rw [Nat.add_sub_cancel' hki]
    by_cases hi : i < w
    · simp [hik, hi, hki]
    · have hbig : x.toNat.testBit i = false :=
        Nat.testBit_lt_two_pow (lt_of_lt_of_le x.isLt (Nat.pow_le_pow_right (by omega)
          (by omega)))
      simp [hbig]

theorem toNat_and_not_mask (x : UInt64) {m : UInt64} {k : ℕ} (hm : m.toNat = 2 ^ k - 1) :
    (x &&& ~~~m).toNat = x.toNat / 2 ^ k * 2 ^ k :=
  toNat_and_not_mask_bitVec x.toBitVec hm

/-- The bit trick `n & (n - 1)` clears the lowest set bit of a positive number. -/
theorem and_pred_eq_zero_iff {n : ℕ} (hn : n ≠ 0) : n &&& (n - 1) = 0 ↔ ∃ k, n = 2 ^ k := by
  induction n using Nat.strong_induction_on with
  | _ n ih =>
    rcases Nat.even_or_odd' n with ⟨m, rfl | rfl⟩
    · have hm : m ≠ 0 := by omega
      have hpred : 2 * m - 1 = 2 * (m - 1) + 1 := by omega
      have hhalf : 2 * m &&& (2 * m - 1) = 2 * (m &&& (m - 1)) := by
        apply Nat.eq_of_testBit_eq
        rintro (_ | i)
        · simp
        · have h₁ : (2 * (m - 1) + 1) / 2 = m - 1 := by omega
          have h₂ : 2 * m / 2 = m := by omega
          have h₃ : 2 * (m &&& (m - 1)) / 2 = m &&& (m - 1) := by omega
          rw [Nat.testBit_and, hpred, Nat.testBit_succ, Nat.testBit_succ, Nat.testBit_succ, h₁,
            h₂, h₃, Nat.testBit_and]
      rw [hhalf, Nat.mul_eq_zero, or_iff_right (by omega), ih m (by omega) hm]
      constructor
      · rintro ⟨k, rfl⟩
        exact ⟨k + 1, by rw [pow_succ, mul_comm]⟩
      · rintro ⟨k, hk⟩
        cases k with
        | zero => omega
        | succ k => exact ⟨k, by rw [pow_succ] at hk; omega⟩
    · have hclear : (2 * m + 1) &&& (2 * m + 1 - 1) = 2 * m := by
        apply Nat.eq_of_testBit_eq
        rintro (_ | i)
        · simp
        · have h₁ : (2 * m + 1) / 2 = m := by omega
          have h₂ : 2 * m / 2 = m := by omega
          rw [Nat.testBit_and, Nat.add_sub_cancel, Nat.testBit_succ, Nat.testBit_succ, h₁, h₂,
            Bool.and_self]
      rw [hclear]
      constructor
      · intro h
        exact ⟨0, by omega⟩
      · rintro ⟨k, hk⟩
        cases k with
        | zero => omega
        | succ k => rw [pow_succ] at hk; omega

/-- A wrapping difference masked by `2^k - 1` vanishes exactly on congruent words. -/
theorem sub_and_mask_eq_zero_iff (x y : UInt64) {m : UInt64} {k : ℕ} (hk : k ≤ 64)
    (hm : m.toNat = 2 ^ k - 1) : (x - y) &&& m = 0 ↔ x.toNat ≡ y.toNat [MOD 2 ^ k] := by
  have hdvd : 2 ^ k ∣ 2 ^ 64 := Nat.pow_dvd_pow 2 hk
  have hx := x.toNat_lt
  have hy := y.toNat_lt
  rw [← UInt64.toNat_inj, toNat_and_mask _ hm, UInt64.toNat_sub, UInt64.toNat_zero,
    Nat.mod_mod_of_dvd _ hdvd, ← Nat.dvd_iff_mod_eq_zero]
  have hsum : 2 ^ 64 - y.toNat + x.toNat + y.toNat = x.toNat + 2 ^ 64 := by omega
  constructor
  · intro h
    have hmod : 2 ^ 64 - y.toNat + x.toNat ≡ 0 [MOD 2 ^ k] := (Nat.modEq_zero_iff_dvd).2 h
    have h₁ : x.toNat + 2 ^ 64 ≡ y.toNat [MOD 2 ^ k] := by
      rw [← hsum]
      simpa using hmod.add_right y.toNat
    have h₂ : x.toNat + 2 ^ 64 ≡ x.toNat [MOD 2 ^ k] := by
      simpa using ((Nat.modEq_zero_iff_dvd).2 hdvd).add_left x.toNat
    exact h₂.symm.trans h₁
  · intro h
    have h₂ : x.toNat + 2 ^ 64 ≡ x.toNat [MOD 2 ^ k] := by
      simpa using ((Nat.modEq_zero_iff_dvd).2 hdvd).add_left x.toNat
    have h₃ : 2 ^ 64 - y.toNat + x.toNat + y.toNat ≡ 0 + y.toNat [MOD 2 ^ k] := by
      rw [hsum, Nat.zero_add]
      exact h₂.trans h
    exact (Nat.modEq_zero_iff_dvd).1 (Nat.ModEq.add_right_cancel' _ h₃)

end Word
