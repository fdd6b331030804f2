import Mathlib

/-!
# Byte sums

The checksum of a range of memory: the sum of its bytes modulo 256.

## Main definitions

- `Checksum.byteSum` — the sum of the bytes of a range
- `Checksum.sum8` — the same sum in one byte, as a loop computes it

## Main results

- `Checksum.toNat_sum8` — the loop computes the sum modulo 256
- `Checksum.byteSum_congr` — the sum depends on the range only
- `Checksum.not_both_zero` — no change of one byte of the range goes unnoticed
-/

namespace Checksum

/-- The sum of the `n` bytes from `a` on. -/
def byteSum (mem : ℕ → UInt8) (a n : ℕ) : ℕ := ∑ i ∈ Finset.range n, (mem (a + i)).toNat

/-- The sum of the `n` bytes from `a` on, accumulated in a byte. -/
def sum8 (mem : ℕ → UInt8) (a n : ℕ) : UInt8 :=
  (List.range n).foldl (fun sum i => sum + mem (a + i)) 0

variable {mem mem' : ℕ → UInt8} {a n : ℕ}

theorem toNat_sum8 (mem : ℕ → UInt8) (a n : ℕ) : (sum8 mem a n).toNat = byteSum mem a n % 256 := by
  induction n with
  | zero => rfl
  | succ n ih =>
    have hstep : sum8 mem a (n + 1) = sum8 mem a n + mem (a + n) := by
      rw [sum8, List.range_succ, List.foldl_append]
      rfl
    rw [hstep, UInt8.toNat_add, ih, byteSum, byteSum, Finset.sum_range_succ, Nat.mod_add_mod]

theorem sum8_eq_zero_iff : sum8 mem a n = 0 ↔ byteSum mem a n % 256 = 0 := by
  rw [← UInt8.toNat_inj, toNat_sum8]
  rfl

theorem byteSum_congr (h : ∀ i < n, mem (a + i) = mem' (a + i)) :
    byteSum mem a n = byteSum mem' a n :=
  Finset.sum_congr rfl fun i hi => by rw [h i (Finset.mem_range.1 hi)]

/-- A change of one byte changes the sum by the change of the byte. -/
theorem byteSum_update {k : ℕ} (hk : k < n) (b : UInt8) :
    byteSum (Function.update mem (a + k) b) a n + (mem (a + k)).toNat =
      byteSum mem a n + b.toNat := by
  have hmem : k ∈ Finset.range n := Finset.mem_range.2 hk
  have hrest : ∑ i ∈ (Finset.range n).erase k, (Function.update mem (a + k) b (a + i)).toNat =
      ∑ i ∈ (Finset.range n).erase k, (mem (a + i)).toNat := by
    apply Finset.sum_congr rfl
    intro i hi
    rw [Function.update_of_ne]
    intro heq
    exact Finset.ne_of_mem_erase hi (Nat.add_left_cancel heq)
  rw [byteSum, byteSum, ← Finset.add_sum_erase _ _ hmem, ← Finset.add_sum_erase _ _ hmem, hrest,
    Function.update_self]
  ring

/-- If the sum is zero before and after a change of one byte, the byte did not change. -/
theorem not_both_zero {k : ℕ} (hk : k < n) {b : UInt8} (hne : b ≠ mem (a + k))
    (hzero : byteSum mem a n % 256 = 0) :
    byteSum (Function.update mem (a + k) b) a n % 256 ≠ 0 := by
  intro hzero'
  have hupdate : byteSum (Function.update mem (a + k) b) a n + (mem (a + k)).toNat =
      byteSum mem a n + b.toNat := byteSum_update hk b
  have hold := (mem (a + k)).toNat_lt
  have hnew := b.toNat_lt
  have hne' : b.toNat ≠ (mem (a + k)).toNat := fun h => hne (UInt8.toNat_inj.1 h)
  omega

end Checksum
