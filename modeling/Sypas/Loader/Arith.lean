import Sypas.Lib.Word

/-!
# Checked arithmetic of the loader

`add_ok` and `mul_ok` are written out in every loader file (`elf.c`, `reloc.c`,
`memory_map.c` and `main.c` each carry their own identical static copy); the
model has one definition of each. `none` is the C return value 0.

The definitions test for wraparound on natural numbers, which the kernel can
evaluate on symbolic words; `addOk_eq_guard` and `mulOk_eq_guard` give them the
form of the C text.
-/

namespace Sypas

/-- a + b, or `none` on wraparound. -/
def addOk (a b : UInt64) : Option UInt64 :=
  if a.toNat + b.toNat < 2 ^ 64 then some (a + b) else none

/-- a * b, or `none` on wraparound. -/
def mulOk (a b : UInt64) : Option UInt64 :=
  if a.toNat * b.toNat < 2 ^ 64 then some (a * b) else none

/-- The C text of `add_ok`: its guard rejects exactly the sums that leave 64 bits. -/
theorem addOk_eq_guard (a b : UInt64) :
    addOk a b = if a > 0xFFFFFFFFFFFFFFFF - b then none else some (a + b) := by
  have ha := a.toNat_lt
  have hb := b.toNat_lt
  have hle : b ≤ 0xFFFFFFFFFFFFFFFF := by
    rw [UInt64.le_iff_toNat_le, Word.toNat_max]
    omega
  have hguard : a > 0xFFFFFFFFFFFFFFFF - b ↔ ¬a.toNat + b.toNat < 2 ^ 64 := by
    rw [gt_iff_lt, UInt64.lt_iff_toNat_lt, UInt64.toNat_sub_of_le _ _ hle, Word.toNat_max]
    omega
  rw [addOk, if_congr hguard rfl rfl, ite_not]

/-- The C text of `mul_ok`. -/
theorem mulOk_eq_guard (a b : UInt64) :
    mulOk a b = if a ≠ 0 ∧ b > 0xFFFFFFFFFFFFFFFF / a then none else some (a * b) := by
  have hguard : (a ≠ 0 ∧ b > 0xFFFFFFFFFFFFFFFF / a) ↔ ¬a.toNat * b.toNat < 2 ^ 64 := by
    rw [gt_iff_lt, UInt64.lt_iff_toNat_lt, UInt64.toNat_div, Word.toNat_max, ne_eq,
      ← UInt64.toNat_inj, UInt64.toNat_zero]
    rcases Nat.eq_zero_or_pos a.toNat with ha | ha
    · simp [ha]
    · rw [Nat.div_lt_iff_lt_mul ha, mul_comm]
      omega
  rw [mulOk, if_congr hguard rfl rfl, ite_not]

theorem addOk_eq_some_iff {a b c : UInt64} :
    addOk a b = some c ↔ a.toNat + b.toNat < 2 ^ 64 ∧ c.toNat = a.toNat + b.toNat := by
  unfold addOk
  split
  · next h =>
    rw [Option.some.injEq, ← UInt64.toNat_inj, Word.toNat_add_of_lt h]
    exact ⟨fun heq => ⟨h, heq.symm⟩, fun heq => heq.2.symm⟩
  · next h =>
    constructor
    · intro hnone
      cases hnone
    · rintro ⟨hlt, -⟩
      exact absurd hlt h

theorem addOk_eq_none_iff {a b : UInt64} : addOk a b = none ↔ 2 ^ 64 ≤ a.toNat + b.toNat := by
  unfold addOk
  split
  · next h => simpa using h
  · next h => simpa using h

/-- A checked sum that fits is the wrapping sum. -/
theorem addOk_of_lt {a b : UInt64} (h : a.toNat + b.toNat < 2 ^ 64) : addOk a b = some (a + b) :=
  if_pos h

theorem mulOk_eq_some_iff {a b c : UInt64} :
    mulOk a b = some c ↔ a.toNat * b.toNat < 2 ^ 64 ∧ c.toNat = a.toNat * b.toNat := by
  unfold mulOk
  split
  · next h =>
    rw [Option.some.injEq, ← UInt64.toNat_inj, Word.toNat_mul_of_lt h]
    exact ⟨fun heq => ⟨h, heq.symm⟩, fun heq => heq.2.symm⟩
  · next h =>
    constructor
    · intro hnone
      cases hnone
    · rintro ⟨hlt, -⟩
      exact absurd hlt h

end Sypas
