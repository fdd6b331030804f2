import Mathlib

/-!
# The 16550A serial port

The transmitter, the receiver and the control registers of one port, seen through its
eight addresses. Between two accesses any number of bytes leaves the transmitter, and in
normal operation any number arrives. Interrupts of the port and the modem status are left
out, and so is the meaning of the line settings.

## Main definitions

- `Uart16550` — the registers, both queues and what has been sent
- `Uart16550.Elapses` — time passes
- `Uart16550.write`, `Uart16550.Reads` — an access

## Main results

- `Uart16550.Elapses.queued` — between accesses no byte is lost or made up
- `Uart16550.queued_transmit` — a byte that finds the transmitter not full is not lost
-/

/-- The registers that hold what has been written to them. -/
structure UartSettings where
  ier : UInt8
  fcr : UInt8
  lcr : UInt8
  mcr : UInt8
  scratch : UInt8
  dll : UInt8
  dlm : UInt8
deriving DecidableEq

/-- `tx` is what the transmitter has yet to send, `rx` what has yet to be read. `waits` counts
    the reads of the line status, since the last byte was written, that found the
    transmitter busy. -/
structure Uart16550 extends UartSettings where
  tx : List UInt8
  rx : List UInt8
  sent : List UInt8
  waits : ℕ

namespace UartSettings

/-- The divisor latch is at the first two addresses. -/
def Dlab (u : UartSettings) : Prop := u.lcr &&& 0x80 ≠ 0

instance (u : UartSettings) : Decidable u.Dlab := inferInstanceAs (Decidable (_ ≠ _))

/-- What a write to the address `reg` changes. -/
def write (u : UartSettings) (reg : UInt16) (v : UInt8) : UartSettings :=
  if reg = 0 then if u.Dlab then { u with dll := v } else u
  else if reg = 1 then if u.Dlab then { u with dlm := v } else { u with ier := v }
  else if reg = 2 then { u with fcr := v }
  else if reg = 3 then { u with lcr := v }
  else if reg = 4 then { u with mcr := v }
  else if reg = 7 then { u with scratch := v }
  else u

/-- 115200 baud, 8 bits, no parity, one stop bit, with the FIFO on and no loopback. -/
structure Operating (u : UartSettings) : Prop where
  fcr : u.fcr &&& 1 ≠ 0
  lcr : u.lcr = 3
  mcr : u.mcr = 0x0F
  divisor : u.dll = 1 ∧ u.dlm = 0

theorem Operating.not_dlab {u : UartSettings} (h : u.Operating) : ¬u.Dlab := by
  unfold Dlab
  rw [h.lcr]
  decide

end UartSettings

namespace Uart16550

/-- The transmitter is connected to the receiver of the same port. -/
def Loopback (u : Uart16550) : Prop := u.mcr &&& 0x10 ≠ 0

/-- How many bytes the transmitter holds. -/
def depth (u : Uart16550) : ℕ := if u.fcr &&& 1 ≠ 0 then 16 else 1

instance (u : Uart16550) : Decidable u.Loopback := inferInstanceAs (Decidable (_ ≠ _))

/-- What has been sent and what is left to send. -/
def queued (u : Uart16550) : List UInt8 := u.sent ++ u.tx

/-- The first `k` bytes leave the transmitter, and `incoming` arrives. -/
def elapse (u : Uart16550) (k : ℕ) (incoming : List UInt8) : Uart16550 :=
  if u.Loopback then { u with tx := u.tx.drop k, rx := u.rx ++ u.tx.take k }
  else { u with tx := u.tx.drop k, rx := u.rx ++ incoming, sent := u.sent ++ u.tx.take k }

/-- Time passes. -/
def Elapses (u u' : Uart16550) : Prop := ∃ k incoming, u' = u.elapse k incoming

/-- A byte for the transmitter; a byte that finds it full is lost. -/
def transmit (u : Uart16550) (v : UInt8) : Uart16550 :=
  if u.tx.length < u.depth then { u with tx := u.tx ++ [v], waits := 0 } else { u with waits := 0 }

/-- A write to the address `reg`. A byte for the data port is sent, unless the divisor latch is
    there; the bits 1 and 2 of the FIFO control register clear the receiver and the
    transmitter. -/
def write (u : Uart16550) (reg : UInt16) (v : UInt8) : Uart16550 :=
  if reg = 0 ∧ ¬u.Dlab then u.transmit v
  else if reg = 2 then
    { u with
      toUartSettings := u.toUartSettings.write reg v
      rx := if v &&& 2 ≠ 0 then [] else u.rx
      tx := if v &&& 4 ≠ 0 then [] else u.tx }
  else { u with toUartSettings := u.toUartSettings.write reg v }

/-- A read of the address `reg` may return `v` and leave `u'`. Nothing is said of registers that
    are not modelled, nor of what an empty receiver returns. -/
def Reads (u : Uart16550) (reg : UInt16) (v : UInt8) (u' : Uart16550) : Prop :=
  if reg = 0 ∧ ¬u.Dlab then (∀ b ∈ u.rx.head?, v = b) ∧ u' = { u with rx := u.rx.tail }
  else if reg = 5 then (v &&& 0x20 ≠ 0 ↔ u.tx = []) ∧
    u' = { u with waits := if u.tx = [] then u.waits else u.waits + 1 }
  else (reg = 7 → v = u.scratch) ∧ u' = u

variable {u u' : Uart16550} {v : UInt8}

/-- The settings of the port do not change by themselves. -/
theorem Elapses.settings (h : u.Elapses u') :
    u'.toUartSettings = u.toUartSettings ∧ u'.waits = u.waits := by
  obtain ⟨k, incoming, rfl⟩ := h
  unfold elapse
  split <;> exact ⟨rfl, rfl⟩

theorem toUartSettings_transmit (u : Uart16550) (v : UInt8) :
    (u.transmit v).toUartSettings = u.toUartSettings := by
  unfold transmit
  split <;> rfl

@[simp] theorem waits_transmit (u : Uart16550) (v : UInt8) : (u.transmit v).waits = 0 := by
  unfold transmit
  split <;> rfl

theorem toUartSettings_write (u : Uart16550) (reg : UInt16) (v : UInt8) :
    (u.write reg v).toUartSettings = u.toUartSettings.write reg v := by
  unfold write
  by_cases hdata : reg = 0 ∧ ¬u.Dlab
  · rw [if_pos hdata, toUartSettings_transmit, UartSettings.write, if_pos hdata.1, if_neg hdata.2]
  · rw [if_neg hdata]
    split <;> rfl

/-- In normal operation, no byte is lost and none is made up. -/
theorem Elapses.queued (h : u.Elapses u') (hloop : ¬u.Loopback) : u'.queued = u.queued := by
  obtain ⟨k, incoming, rfl⟩ := h
  unfold elapse Uart16550.queued
  rw [if_neg hloop]
  change u.sent ++ u.tx.take k ++ u.tx.drop k = u.sent ++ u.tx
  rw [List.append_assoc, List.take_append_drop]

theorem Elapses.length_tx (h : u.Elapses u') : u'.tx.length ≤ u.tx.length := by
  obtain ⟨k, incoming, rfl⟩ := h
  have hdrop : (u.tx.drop k).length ≤ u.tx.length := by
    rw [List.length_drop]
    exact Nat.sub_le _ _
  unfold elapse
  split <;> exact hdrop

theorem not_loopback (h : u.Operating) : ¬u.Loopback := by
  unfold Loopback
  rw [h.mcr]
  decide

theorem depth_eq (h : u.Operating) : u.depth = 16 := if_pos h.fcr

/-- The data port of a port in operation. -/
theorem write_data (h : u.Operating) (v : UInt8) : u.write 0 v = u.transmit v :=
  if_pos ⟨rfl, h.not_dlab⟩

/-- A byte for a transmitter that is not full is not lost. -/
theorem queued_transmit (h : u.tx.length < u.depth) (v : UInt8) :
    (u.transmit v).queued = u.queued ++ [v] := by
  unfold Uart16550.transmit Uart16550.queued
  rw [if_pos h]
  exact (List.append_assoc ..).symm

/-- Sooner or later everything has been sent. -/
theorem exists_elapses_empty (u : Uart16550) : ∃ u', u.Elapses u' ∧ u'.tx = [] := by
  refine ⟨u.elapse u.tx.length [], ⟨_, _, rfl⟩, ?_⟩
  unfold elapse
  split <;> exact List.drop_length

/-- Every address can be read. -/
theorem exists_reads (u : Uart16550) (reg : UInt16) : ∃ v u', u.Reads reg v u' ∧ u'.tx = u.tx := by
  unfold Reads
  by_cases hdata : reg = 0 ∧ ¬u.Dlab
  · simp only [if_pos hdata]
    refine ⟨u.rx.head?.getD 0, _, ⟨fun v hv => ?_, rfl⟩, rfl⟩
    rw [Option.mem_def.1 hv, Option.getD_some]
  · simp only [if_neg hdata]
    by_cases hstatus : reg = 5
    · simp only [if_pos hstatus]
      refine ⟨if u.tx = [] then 0x20 else 0, _, ⟨?_, rfl⟩, rfl⟩
      split <;> simp_all
    · simp only [if_neg hstatus]
      exact ⟨u.scratch, u, ⟨fun _ => rfl, rfl⟩, rfl⟩

end Uart16550
