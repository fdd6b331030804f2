import Mathlib

/-!
# The 8259A interrupt controller

One controller in fully nested mode, seen through its command port: an acknowledged request
sets its bit of the in-service register, a non-specific end of interrupt clears the bit of the
highest priority that is set, and a read returns the register an operation command word has
selected.

## Main definitions

- `Pic8259` — the registers behind the command port
- `Pic8259.acknowledge`, `Pic8259.nonSpecificEoi` — how a request enters and leaves service
- `Pic8259.writeCommand`, `Pic8259.readCommand` — the command port

## Main results

- `Pic8259.inService_nonSpecificEoi` — an end of interrupt ends the most urgent request only
- `Pic8259.idle_eoi_acknowledge` — on an idle controller it undoes an acknowledge
-/

/-- `irr` and `isr` are the request and the in-service register; `readIsr` says which one a read
    returns. -/
structure Pic8259 where
  irr : UInt8
  isr : UInt8
  readIsr : Bool
deriving DecidableEq, Repr

namespace Pic8259

/-- The request on line `i` is in service. -/
def inService (p : Pic8259) (i : Fin 8) : Bool :=
  p.isr.toNat.testBit i

/-- The lowest-numbered line in service: line 0 has the highest priority. -/
def highestPriority (p : Pic8259) : Option (Fin 8) :=
  (List.finRange 8).find? p.inService

/-- The mask of line `i`. -/
def lineBit (i : Fin 8) : UInt8 := 1 <<< UInt8.ofNat i

/-- The processor takes the request on line `i`. -/
def acknowledge (p : Pic8259) (i : Fin 8) : Pic8259 :=
  { p with isr := p.isr ||| lineBit i, irr := p.irr &&& ~~~lineBit i }

/-- A non-specific end of interrupt. -/
def nonSpecificEoi (p : Pic8259) : Pic8259 :=
  match p.highestPriority with
  | none => p
  | some i => { p with isr := p.isr &&& ~~~lineBit i }

/-- A write to the command port: `0x20` is a non-specific end of interrupt, `0x0A` and `0x0B`
    select the register to read. Other command words are outside this model and change nothing. -/
def writeCommand (p : Pic8259) (command : UInt8) : Pic8259 :=
  if command = 0x20 then p.nonSpecificEoi
  else if command = 0x0A then { p with readIsr := false }
  else if command = 0x0B then { p with readIsr := true }
  else p

/-- A read of the command port. -/
def readCommand (p : Pic8259) : UInt8 := if p.readIsr then p.isr else p.irr

theorem toNat_lineBit (i : Fin 8) : (lineBit i).toNat = 2 ^ (i : ℕ) := by
  revert i
  decide

theorem testBit_lineBit (i j : Fin 8) : (lineBit i).toNat.testBit j = decide (i = j) := by
  rw [toNat_lineBit, Nat.testBit_two_pow]
  exact decide_eq_decide.mpr Fin.ext_iff.symm

@[simp] theorem inService_acknowledge (p : Pic8259) (i j : Fin 8) :
    (p.acknowledge i).inService j = (p.inService j || decide (i = j)) := by
  simp [acknowledge, inService, testBit_lineBit]

theorem testBit_not_lineBit (i j : Fin 8) :
    (~~~lineBit i).toNat.testBit j = !decide (i = j) := by
  revert i j
  decide

/-- An end of interrupt takes the most urgent request out of service and no other. -/
theorem inService_nonSpecificEoi (p : Pic8259) (j : Fin 8) :
    p.nonSpecificEoi.inService j = (p.inService j && decide (p.highestPriority ≠ some j)) := by
  unfold nonSpecificEoi
  cases hp : p.highestPriority with
  | none => simp
  | some i =>
    simp only [inService, UInt8.toNat_and, Nat.testBit_and, testBit_not_lineBit]
    simp

/-- A controller with no request in service. -/
def Idle (p : Pic8259) : Prop := p.isr = 0

theorem idle_iff (p : Pic8259) : p.Idle ↔ ∀ i, p.inService i = false := by
  constructor
  · intro h i
    simp [inService, show p.isr = 0 from h]
  · intro h
    apply UInt8.toNat_inj.mp
    apply Nat.eq_of_testBit_eq
    intro i
    by_cases hi : i < 8
    · simpa [inService] using h ⟨i, hi⟩
    · have hlt : p.isr.toNat < 2 ^ i :=
        p.isr.toNat_lt.trans_le (Nat.pow_le_pow_right (by omega) (by omega))
      simpa using Nat.testBit_lt_two_pow hlt

theorem highestPriority_acknowledge {p : Pic8259} (hp : p.Idle) (i : Fin 8) :
    (p.acknowledge i).highestPriority = some i := by
  have hfun : (p.acknowledge i).inService = fun j => decide (i = j) := by
    funext j
    simp [(idle_iff p).mp hp j]
  rw [highestPriority, hfun]
  clear hfun
  revert i
  decide

/-- An end of interrupt undoes an acknowledge on an idle controller. -/
theorem idle_eoi_acknowledge {p : Pic8259} (hp : p.Idle) (i : Fin 8) :
    (p.acknowledge i).nonSpecificEoi.Idle := by
  rw [idle_iff]
  intro j
  rw [inService_nonSpecificEoi, highestPriority_acknowledge hp]
  by_cases hij : i = j
  · simp [hij]
  · simp [hij, (idle_iff p).mp hp j]

end Pic8259
