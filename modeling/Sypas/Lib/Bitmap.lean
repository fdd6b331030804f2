import Sypas.Lib.Memory

/-!
# Bitmaps in memory

Bit `i` of the bitmap at address `base` is bit `i % 8` of the byte at
`base + i / 8`. Setting and clearing one bit through its byte leaves every other
bit of the bitmap, and every other byte of memory, alone.

## Main definitions

- `Bitmap.bitAt` — a bit of a bitmap in memory
- `Bitmap.setBit`, `Bitmap.clearBit` — memory with one bit changed

## Main results

- `Bitmap.bitAt_setBit`, `Bitmap.bitAt_clearBit` — what the other bits are
- `Bitmap.byte_eq_ones_iff` — a byte of all ones
-/

namespace Bitmap

/-- Bit `i` of the bitmap at `base`. -/
def bitAt (mem : ℕ → UInt8) (base i : ℕ) : Bool := (mem (base + i / 8)).toNat.testBit (i % 8)

/-- The one-bit mask `1 << k`. -/
def mask (k : ℕ) : UInt8 := 1 <<< UInt8.ofNat k

/-- `bitmap[i >> 3] |= 1 << (i & 7)` -/
def setBit (mem : ℕ → UInt8) (base i : ℕ) : ℕ → UInt8 :=
  Function.update mem (base + i / 8) (mem (base + i / 8) ||| mask (i % 8))

/-- `bitmap[i >> 3] &= ~(1 << (i & 7))` -/
def clearBit (mem : ℕ → UInt8) (base i : ℕ) : ℕ → UInt8 :=
  Function.update mem (base + i / 8) (mem (base + i / 8) &&& ~~~mask (i % 8))

theorem toNat_mask {k : ℕ} (hk : k < 8) : (mask k).toNat = 2 ^ k := by
  interval_cases k <;> rfl

theorem testBit_mask {k : ℕ} (hk : k < 8) (j : ℕ) : (mask k).toNat.testBit j = decide (k = j) := by
  rw [toNat_mask hk, Nat.testBit_two_pow]

theorem testBit_not_mask {k j : ℕ} (hk : k < 8) (hj : j < 8) :
    (~~~mask k).toNat.testBit j = !decide (k = j) := by
  interval_cases k <;> interval_cases j <;> rfl

/-- The test `byte & (1 << k)`. -/
theorem and_mask_ne_zero_iff (b : UInt8) {k : ℕ} (hk : k < 8) :
    b &&& mask k ≠ 0 ↔ b.toNat.testBit k = true := by
  rw [ne_eq, ← UInt8.toNat_inj, UInt8.toNat_and, toNat_mask hk, UInt8.toNat_zero,
    Nat.and_two_pow]
  cases b.toNat.testBit k with
  | false => simp
  | true => simp

theorem testBit_of_le (b : UInt8) {k : ℕ} (hk : 8 ≤ k) : b.toNat.testBit k = false := by
  refine Nat.testBit_lt_two_pow (b.toNat_lt.trans_le ?_)
  exact Nat.pow_le_pow_right (by decide) hk

/-- A byte is all ones exactly when each of its eight bits is set. -/
theorem byte_eq_ones_iff (b : UInt8) : b = 0xFF ↔ ∀ k < 8, b.toNat.testBit k = true := by
  constructor
  · rintro rfl k hk
    interval_cases k <;> rfl
  · intro hall
    rw [← UInt8.toNat_inj]
    apply Nat.eq_of_testBit_eq
    intro k
    rcases Nat.lt_or_ge k 8 with hk | hk
    · rw [hall k hk]
      interval_cases k <;> rfl
    · rw [testBit_of_le _ hk, testBit_of_le _ hk]

section Bits

variable {mem : ℕ → UInt8} {base i j : ℕ}

theorem bitAt_setBit : bitAt (setBit mem base i) base j = (decide (j = i) || bitAt mem base j) := by
  have hi := Nat.mod_lt i (show 8 > 0 by decide)
  unfold bitAt setBit
  by_cases hbyte : base + j / 8 = base + i / 8
  · have hiff : i % 8 = j % 8 ↔ j = i := by omega
    rw [hbyte, Function.update_self, UInt8.toNat_or, Nat.testBit_or, testBit_mask hi, Bool.or_comm]
    simp only [hiff]
  · have hne : j ≠ i := fun h => hbyte (by rw [h])
    rw [Function.update_of_ne hbyte, decide_eq_false hne, Bool.false_or]

theorem bitAt_clearBit :
    bitAt (clearBit mem base i) base j = (!decide (j = i) && bitAt mem base j) := by
  have hi := Nat.mod_lt i (show 8 > 0 by decide)
  have hj := Nat.mod_lt j (show 8 > 0 by decide)
  unfold bitAt clearBit
  by_cases hbyte : base + j / 8 = base + i / 8
  · have hiff : i % 8 = j % 8 ↔ j = i := by omega
    rw [hbyte, Function.update_self, UInt8.toNat_and, Nat.testBit_and, testBit_not_mask hi hj,
      Bool.and_comm]
    simp only [hiff]
  · have hne : j ≠ i := fun h => hbyte (by rw [h])
    rw [Function.update_of_ne hbyte, decide_eq_false hne, Bool.not_false, Bool.true_and]

/-- All eight bits of a byte of ones are set. -/
theorem bitAt_of_ones {k : ℕ} (h : mem (base + k) = 0xFF) (hj : j / 8 = k) :
    bitAt mem base j = true := by
  rw [bitAt, hj, h]
  exact (byte_eq_ones_iff 0xFF).1 rfl _ (Nat.mod_lt _ (by decide))

/-- Two bitmaps with the same bits have the same bytes. -/
theorem byte_eq_of_bits {mem' : ℕ → UInt8} {k : ℕ}
    (h : ∀ i, i / 8 = k → bitAt mem base i = bitAt mem' base i) :
    mem (base + k) = mem' (base + k) := by
  rw [← UInt8.toNat_inj]
  apply Nat.eq_of_testBit_eq
  intro b
  rcases Nat.lt_or_ge b 8 with hb | hb
  · have hbit := h (8 * k + b) (by omega)
    unfold bitAt at hbit
    rwa [show (8 * k + b) / 8 = k by omega, show (8 * k + b) % 8 = b by omega] at hbit
  · rw [testBit_of_le _ hb, testBit_of_le _ hb]

end Bits

end Bitmap
