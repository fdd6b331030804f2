import Mathlib

/-!
# A counter of the 8254 interval timer

The control word and the reload value of counter 0; its count and its output are left out.

## Main definitions

- `PitCounter` — the counter
- `PitCounter.writeControl`, `PitCounter.writeCount` — the two ports
-/

/-- `access` says which bytes of the reload value are written, 3 that both are, the low one first;
    `low` is the low byte when the high one is yet to come. -/
structure PitCounter where
  mode : UInt8
  access : UInt8
  low : Option UInt8
  reload : UInt16
deriving DecidableEq, Repr

namespace PitCounter

/-- A write to the control port. The control words of other counters and the latch command, which
    has access 0, change nothing here. -/
def writeControl (p : PitCounter) (v : UInt8) : PitCounter :=
  if v >>> 6 = 0 ∧ v >>> 4 &&& 3 ≠ 0 then
    { p with mode := v >>> 1 &&& 7, access := v >>> 4 &&& 3, low := none }
  else p

/-- A write to the counter. -/
def writeCount (p : PitCounter) (v : UInt8) : PitCounter :=
  if p.access = 1 then { p with reload := v.toUInt16 }
  else if p.access = 2 then { p with reload := v.toUInt16 <<< 8 }
  else match p.low with
    | none => { p with low := some v }
    | some low => { p with low := none, reload := low.toUInt16 ||| v.toUInt16 <<< 8 }

/-- The counter divides the clock by `n`, over and over. -/
def Divides (p : PitCounter) (n : UInt16) : Prop := p.mode = 2 ∧ p.low = none ∧ p.reload = n

/-- The control word for counter 0 in mode 2, and both bytes of the divisor. -/
theorem divides_program (p : PitCounter) (n : UInt16) :
    (((p.writeControl 0x34).writeCount (n &&& 0xFF).toUInt8).writeCount
      (n >>> 8).toUInt8).Divides n := by
  have hcontrol : p.writeControl 0x34 = { p with mode := 2, access := 3, low := none } := by
    unfold writeControl
    rw [if_pos (by decide)]
    rfl
  have hjoin : (n &&& 0xFF).toUInt8.toUInt16 ||| (n >>> 8).toUInt8.toUInt16 <<< 8 = n := by
    have hn := n.toNat_lt
    have hmask : n.toNat &&& 255 = n.toNat % 256 := Nat.and_two_pow_sub_one_eq_mod _ 8
    have hlow : n.toNat % 256 < 2 ^ 8 := Nat.mod_lt _ (by decide)
    have hor := Nat.two_pow_add_eq_or_of_lt hlow (n.toNat / 256)
    apply UInt16.toNat_inj.1
    simp only [UInt16.toNat_or, UInt8.toNat_toUInt16, UInt16.toNat_toUInt8, UInt16.toNat_and,
      UInt16.toNat_shiftLeft, UInt16.toNat_shiftRight, Nat.shiftLeft_eq, Nat.shiftRight_eq_div_pow]
    change (n.toNat &&& 255) % 256 ||| n.toNat / 256 % 256 * 256 % 65536 = n.toNat
    rw [hmask, Nat.mod_mod, Nat.mod_eq_of_lt (show n.toNat / 256 < 256 by omega),
      Nat.mod_eq_of_lt (show n.toNat / 256 * 256 < 65536 by omega), Nat.or_comm, Nat.mul_comm,
      ← hor]
    omega
  rw [hcontrol]
  unfold writeCount
  exact ⟨rfl, rfl, hjoin⟩

end PitCounter
