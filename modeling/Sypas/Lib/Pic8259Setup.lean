import Sypas.Lib.Pic8259

/-!
# Setting up an 8259A

The whole controller: the registers of `Pic8259`, the mask, and what the initialization
command words leave behind.

## Main definitions

- `PicChip` — the controller with its settings
- `PicChip.writeCommand`, `PicChip.writeData` — the two ports
- `PicChip.vector` — the vector of a line

## Main results

- `PicChip.operating` — four command words and a mask make any controller `Ready`
-/

/-- What the controller expects at its data port: one of the initialization command words 2 to 4,
    or a mask. `single` and `icw4` are the bits of the first command word. -/
inductive PicStage where
  | icw2 (single icw4 : Bool)
  | icw3 (icw4 : Bool)
  | icw4
  | operating
deriving DecidableEq, Repr

structure PicChip where
  core : Pic8259
  imr : UInt8
  offset : UInt8
  cascade : UInt8
  mode : UInt8
  stage : PicStage
deriving DecidableEq, Repr

namespace PicChip

/-- A write to the command port. Bit 4 marks the first initialization command word. -/
def writeCommand (p : PicChip) (v : UInt8) : PicChip :=
  if v &&& 0x10 ≠ 0 then
    { p with
      core := ⟨0, 0, false⟩
      imr := 0
      mode := 0
      stage := .icw2 (v &&& 2 ≠ 0) (v &&& 1 ≠ 0) }
  else { p with core := p.core.writeCommand v }

/-- What follows the word that names the cascade. -/
def afterIcw3 (icw4 : Bool) : PicStage := if icw4 then .icw4 else .operating

/-- A write to the data port. -/
def writeData (p : PicChip) (v : UInt8) : PicChip :=
  match p.stage with
  | .icw2 single icw4 =>
    { p with offset := v &&& 0xF8, stage := if single then afterIcw3 icw4 else .icw3 icw4 }
  | .icw3 icw4 => { p with cascade := v, stage := afterIcw3 icw4 }
  | .icw4 => { p with mode := v, stage := .operating }
  | .operating => { p with imr := v }

/-- The line is not masked. -/
def Opens (p : PicChip) (i : Fin 8) : Prop :=
  p.stage = .operating ∧ p.imr.toNat.testBit i = false

/-- The vector that the controller puts on the bus for a line. -/
def vector (p : PicChip) (i : Fin 8) : UInt8 := p.offset + UInt8.ofNat i

/-- In 8086 mode with normal end of interrupt, at the given place in the cascade. -/
structure Ready (p : PicChip) (offset cascade : UInt8) : Prop where
  stage : p.stage = .operating
  offset_eq : p.offset = offset
  cascade_eq : p.cascade = cascade
  mode_eq : p.mode = 1

/-- A mask without one of its bits, which is computed in 32 bits: bits from 8 on are not in the
    mask. -/
def clearBit (mask bit : UInt8) : UInt8 := (mask.toUInt32 &&& ~~~(1 <<< bit.toUInt32)).toUInt8

/-- A mask for the data port that opens a line. -/
def openMask (p : PicChip) (bit : UInt8) : UInt8 := clearBit p.imr bit

theorem clearBit_line (mask : UInt8) (i : Fin 8) :
    clearBit mask (UInt8.ofNat i) = mask &&& ~~~(1 <<< UInt8.ofNat i) := by
  have hbit : ∀ i : Fin 8, (~~~((1 : UInt32) <<< (UInt8.ofNat i).toUInt32)).toUInt8 =
      ~~~(1 <<< UInt8.ofNat i) := by decide
  rw [clearBit, UInt32.toUInt8_and, UInt8.toUInt8_toUInt32, hbit]

theorem writeData_operating {p : PicChip} (h : p.stage = .operating) (v : UInt8) :
    p.writeData v = { p with imr := v } := by
  unfold writeData
  rw [h]

/-- Opening a line leaves the other lines alone. -/
theorem opens_openMask {p : PicChip} (h : p.stage = .operating) (i j : Fin 8) :
    (p.writeData (p.openMask (UInt8.ofNat i))).Opens j ↔ j = i ∨ p.Opens j := by
  have hbit : (~~~((1 : UInt8) <<< UInt8.ofNat i)).toNat.testBit j = !decide (i = j) :=
    Pic8259.testBit_not_lineBit i j
  have hmask : (p.openMask (UInt8.ofNat i)).toNat.testBit j =
      (p.imr.toNat.testBit j && !decide (i = j)) := by
    rw [openMask, clearBit_line, UInt8.toNat_and, Nat.testBit_and, hbit]
  rw [writeData_operating h, Opens, Opens, h]
  simp only [hmask, true_and, Bool.and_eq_false_iff, Bool.not_eq_false', decide_eq_true_eq]
  rw [or_comm, eq_comm]

/-- The settings are the same, and `q` is idle if `p` is. -/
structure Like (p q : PicChip) : Prop where
  settings : q = { p with core := q.core }
  idle : p.core.Idle → q.core.Idle

variable {p q : PicChip} {v : UInt8}

/-- What a data word changes has nothing to do with requests. -/
theorem writeData_core (p : PicChip) (c : Pic8259) (v : UInt8) :
    ({ p with core := c } : PicChip).writeData v = { p.writeData v with core := c } := by
  obtain ⟨core, imr, offset, cascade, mode, stage⟩ := p
  cases stage <;> rfl

theorem core_writeData (p : PicChip) (v : UInt8) : (p.writeData v).core = p.core := by
  obtain ⟨core, imr, offset, cascade, mode, stage⟩ := p
  cases stage <;> rfl

theorem Like.writeData (h : p.Like q) : (p.writeData v).Like (q.writeData v) where
  settings := by
    rw [core_writeData q, ← writeData_core, ← h.settings]
  idle := by
    rw [core_writeData, core_writeData]
    exact h.idle

/-- The first command word forgets all requests. -/
theorem Like.writeCommand (h : p.Like q) (hv : v &&& 0x10 ≠ 0) :
    (p.writeCommand v).Like (q.writeCommand v) := by
  have hsame : q.writeCommand v = p.writeCommand v := by
    rw [h.settings]
    unfold PicChip.writeCommand
    rw [if_pos hv, if_pos hv]
  rw [hsame]
  exact ⟨rfl, id⟩

/-- The command words that set up a controller, and its mask: from any state, it forgets all
    requests and is ready. -/
theorem operating (p : PicChip) {offset cascade mask : UInt8} (hoffset : offset &&& 0xF8 = offset) :
    ((((p.writeCommand 0x11).writeData offset).writeData cascade).writeData 1).writeData mask =
      { core := ⟨0, 0, false⟩, imr := mask, offset, cascade, mode := 1, stage := .operating } := by
  have hfirst : p.writeCommand 0x11 =
      { p with core := ⟨0, 0, false⟩, imr := 0, mode := 0, stage := .icw2 false true } := by
    unfold writeCommand
    rw [if_pos (by decide)]
    rfl
  rw [hfirst]
  unfold writeData
  simp only [hoffset]
  rfl

end PicChip
