import Sypas.Kernel.Fbcon
import Sypas.Kernel.Idt
import Sypas.Kernel.Kprintf
import Sypas.Kernel.Pmm
import Sypas.Lib.Interaction
import Sypas.Lib.Pic8259Setup
import Sypas.Lib.Pit8254
import Sypas.Lib.Uart16550

/-!
# The kernel and the board it runs on

The kernel's static variables are the store of its programs. What it does outside of
memory is a call: an access to a port, an instruction that identifies or halts the
processor, a place where interrupts may come. The board is the ghost state. While the
processor accepts interrupts, any number of them may come before any call, and the
dispatcher runs.

## Main definitions

- `Sypas.Kernel`, `Sypas.Board` — the store and the ghost state
- `Sypas.KernelCall` — the calls
- `Sypas.Meanwhile` — the interrupts that come before a call
- `Sypas.hardware` — the contract

## Main results

- `Sypas.At.meanwhile` — what interrupts leave alone
- `Sypas.At.issue_wp` — the rule of a call
- `Sypas.hardware_answers` — every permitted call can be answered
-/

namespace Sypas

open Interaction Program X86

/-! ## The kernel -/

/-- The functions that the kernel registers as `console_putc_fn`. -/
inductive Sink where
  | serialPutc
  | fbconPutc
deriving DecidableEq

/-- `MAX_SINKS` -/
def maxSinks : ℕ := 4

/-- The static variables of the kernel, the memory that they point into (`pmm.ram`), and the
    processor's registers for tables and segments. -/
structure Kernel where
  gdtr : TableRegister
  idtr : TableRegister
  cs : UInt16
  segs : Seg → UInt16
  present : Bool
  sinks : List Sink
  nsinks_le : sinks.length ≤ maxSinks
  fbcon : Fbcon
  pmm : Pmm
  irqHandlers : Fin 16 → Option (Handler UInt64)
  isrTestHits : UInt64
  spuriousIrqs : UInt64
  ticks : UInt64

/-- Where the linker has put the tables, the pointers to them and the stubs. -/
structure KernelImage where
  gdt : UInt64
  gp : UInt64
  idt : UInt64
  idtp : UInt64
  isrStubTable : UInt8 → UInt64

/-- The processor as the interrupt hardware sees it. -/
def Kernel.core (s : Kernel) : Core where
  regs := fun _ => 0
  rsp := 0
  rflags := 0
  cs := s.cs
  segs := s.segs
  gdtr := s.gdtr
  idtr := s.idtr
  mem := s.pmm.ram.mem

/-- The kernel's segments and a gate for every vector. -/
structure Kernel.Installed (img : KernelImage) (s : Kernel) : Prop where
  idt : KernelIdt img.idt img.isrStubTable s.core
  segments : KernelSegments img.gdt s.core

/-! ## The board -/

/-- What `cpuid` returns in `eax`, `ebx`, `ecx` and `edx`. -/
structure CpuidResult where
  a : UInt32
  b : UInt32
  c : UInt32
  d : UInt32
deriving DecidableEq

/-- The devices, the answers of `cpuid`, whether the processor accepts interrupts, and how many
    interrupts of the timer it has taken. -/
structure Board where
  uart : Option Uart16550
  master : PicChip
  slave : PicChip
  pit : PitCounter
  cpuid : UInt32 → UInt32 → CpuidResult
  interrupts : Bool
  timerIrqs : ℕ

def com1 : UInt16 := 0x3F8

/-- The port belongs to the serial port. -/
def InCom1 (port : UInt16) : Prop := com1 ≤ port ∧ port < com1 + 8

instance (port : UInt16) : Decidable (InCom1 port) := instDecidableAnd

def pic1Data : UInt16 := 0x21
def pic2Data : UInt16 := 0xA1
def pitCh0 : UInt16 := 0x40
def pitCmd : UInt16 := 0x43

/-- The port that nothing listens to, of `io_wait`. -/
def ioWaitPort : UInt16 := 0x80

namespace Board

variable (g : Board)

/-- Time passes for the serial port. -/
def Elapses (g' : Board) : Prop :=
  match g.uart with
  | none => g' = g
  | some u => ∃ u', u.Elapses u' ∧ g' = { g with uart := some u' }

/-- `outb`. -/
def write (port : UInt16) (v : UInt8) : Board :=
  if InCom1 port then { g with uart := g.uart.map fun u => u.write (port - com1) v }
  else if port = pic1Cmd then { g with master := g.master.writeCommand v }
  else if port = pic1Data then { g with master := g.master.writeData v }
  else if port = pic2Cmd then { g with slave := g.slave.writeCommand v }
  else if port = pic2Data then { g with slave := g.slave.writeData v }
  else if port = pitCh0 then { g with pit := g.pit.writeCount v }
  else if port = pitCmd then { g with pit := g.pit.writeControl v }
  else g

/-- `inb` may return `v` and leave `g'`. Where there is no serial port the bus floats. -/
def Reads (port : UInt16) (v : UInt8) (g' : Board) : Prop :=
  if InCom1 port then
    match g.uart with
    | none => v = 0xFF ∧ g' = g
    | some u => ∃ u', u.Reads (port - com1) v u' ∧ g' = { g with uart := some u' }
  else (port = pic1Data → v = g.master.imr) ∧ (port = pic2Data → v = g.slave.imr) ∧ g' = g

/-- The controllers let the interrupt through. A spurious one needs no request. -/
def Allows : Delivery → Prop
  | .irq n =>
    if h : n.val < 8 then g.master.Opens ⟨n, h⟩
    else g.master.Opens cascade ∧ g.slave.Opens (slaveLine n h)
  | .spurious7 => g.master.stage = .operating
  | .spurious15 => g.master.Opens cascade ∧ g.slave.stage = .operating
  | .test => False

/-- The vector that the processor gets. -/
def vector : Delivery → UInt8
  | .irq n =>
    if h : n.val < 8 then g.master.vector ⟨n, h⟩ else g.slave.vector (slaveLine n h)
  | .spurious7 => g.master.vector lowestLine
  | .spurious15 => g.slave.vector lowestLine
  | .test => sypasTestVector.toUInt8

end Board

/-! ## Interrupts -/

/-- What the dispatcher works on. -/
def machine (s : Kernel) (g : Board) : Machine UInt64 where
  master := g.master.core
  slave := g.slave.core
  irqHandlers := s.irqHandlers
  isrTestHits := s.isrTestHits
  spuriousIrqs := s.spuriousIrqs
  world := s.ticks
  calls := []

/-- The kernel when the dispatcher has returned. -/
def Kernel.returned (s : Kernel) (m : Machine UInt64) : Kernel :=
  { s with
    irqHandlers := m.irqHandlers
    isrTestHits := m.isrTestHits
    spuriousIrqs := m.spuriousIrqs
    ticks := m.world }

def Board.returned (g : Board) (m : Machine UInt64) : Board :=
  { g with master := { g.master with core := m.master }, slave := { g.slave with core := m.slave } }

/-- Count an interrupt of the timer. -/
def Board.tick (g : Board) (d : Delivery) : Board :=
  { g with timerIrqs := if d = .irq timerIrq then g.timerIrqs + 1 else g.timerIrqs }

/-- The dispatcher on the frame of an interrupt that has come. -/
def dispatched (p : Kernel × Board) (d : Delivery) (cpu : InterruptFrame) :
    Except FramePanic (Machine UInt64) :=
  isrDispatch (isrStub (p.2.vector d) cpu) (d.raise (machine p.1 p.2))

/-- An interrupt comes, and its handler returns. -/
def Taken (p q : Kernel × Board) : Prop :=
  p.2.interrupts = true ∧ ∃ d cpu m, p.2.Allows d ∧ dispatched p d cpu = .ok m ∧
    q = (p.1.returned m, (p.2.returned m).tick d)

/-- Any number of interrupts. -/
def Meanwhile : Kernel × Board → Kernel × Board → Prop := Relation.ReflTransGen Taken

/-! ## Calls -/

inductive ControlRegister where
  | cr0 | cr2 | cr3 | cr4
deriving DecidableEq

/-- `boundary` is a place where interrupts may come, such as between two reads of a volatile
    variable. -/
inductive KernelCall where
  | boundary
  | outb (port : UInt16) (v : UInt8)
  | inb (port : UInt16)
  | cpuid (leaf subleaf : UInt32)
  | rdtsc
  | readCr (r : ControlRegister)
  | int (vec : UInt8)
  | sti
  | cli
  | hlt
deriving DecidableEq

@[reducible] def KernelCall.Answer : KernelCall → Type
  | inb _ => UInt8
  | cpuid .. => CpuidResult
  | rdtsc | readCr _ => UInt64
  | _ => Unit

/-- The ports of the devices other than the serial port. -/
def DevicePort (port : UInt16) : Prop :=
  port ∈ [pic1Cmd, pic1Data, pic2Cmd, pic2Data, pitCh0, pitCmd, ioWaitPort]

instance (port : UInt16) : Decidable (DevicePort port) := inferInstanceAs (Decidable (_ ∈ _))

/-- The ports that the kernel uses. -/
def KnownPort (port : UInt16) : Prop := InCom1 port ∨ DevicePort port

/-- PIT ticks of 100 Hz: `PIT_INPUT_HZ / PIT_HZ`. -/
def pitDivisor : UInt16 := UInt16.ofNat (1193182 / 100)

/-- What a call requires. The processor is only halted when the timer will wake it. -/
def KernelCall.Legal (img : KernelImage) (s : Kernel) (g : Board) : KernelCall → Prop
  | outb port _ | inb port => KnownPort port
  | int vec => s.Installed img ∧ vec = sypasTestVector.toUInt8
  | sti => s.Installed img
  | hlt => g.interrupts = true ∧ g.master.Opens timerLine ∧ g.pit.Divides pitDivisor
  | _ => True

/-- The guarantee at a call: no interrupt that may come before it is lost in a table that is not
    there, or ends in a panic. -/
structure Permits (img : KernelImage) (s : Kernel) (g : Board) (c : KernelCall) : Prop where
  legal : c.Legal img s g
  installed : g.interrupts = true → s.Installed img
  handled : ∀ p, Meanwhile (s, g) p → p.2.interrupts = true → ∀ d cpu, p.2.Allows d →
    ∃ m, dispatched p d cpu = .ok m

/-- What the answer to a call means. On a `prompt` board the transmitter is empty before the
    kernel loses patience, and it is the timer that ends a halt. -/
def Answers (prompt : Bool) (s : Kernel) (g : Board) :
    (c : KernelCall) → c.Answer → Kernel → Board → Prop
  | .outb port v, _, s', g' => s' = s ∧ ∃ g₁, g.Elapses g₁ ∧ g' = g₁.write port v
  | .inb port, v, s', g' => s' = s ∧ (∃ g₁, g.Elapses g₁ ∧ g₁.Reads port v g') ∧
    (prompt = true → ∀ u ∈ g'.uart, u.tx ≠ [] → u.waits < 100000)
  | .cpuid leaf subleaf, r, s', g' => r = g.cpuid leaf subleaf ∧ s' = s ∧ g' = g
  | .int vec, _, s', g' => ∃ cpu m, isrDispatch (isrStub vec cpu) (machine s g) = .ok m ∧
    s' = s.returned m ∧ g' = g.returned m
  | .sti, _, s', g' => s' = s ∧ g' = { g with interrupts := true }
  | .cli, _, s', g' => s' = s ∧ g' = { g with interrupts := false }
  | .hlt, _, s', g' => Relation.TransGen Taken (s, g) (s', g') ∧
    (prompt = true → g.timerIrqs < g'.timerIrqs)
  | _, _, s', g' => s' = s ∧ g' = g

/-- The contract with the board. -/
def hardware (img : KernelImage) (prompt : Bool) :
    Contract Board Kernel KernelCall KernelCall.Answer where
  guarantee g s c := Permits img s g c
  rely g s c a s' g' := ∃ p, Meanwhile (s, g) p ∧ Answers prompt p.1 p.2 c a s' g'

/-- How a run of the kernel ends: with a panic, on whose format and arguments it has been called
    or for an interrupted frame; in what C leaves undefined; still waiting for a tick; or with
    the kernel initialized. -/
inductive KernelEnd where
  | panicked (fmt : String) (args : List Arg)
  | panickedWithFrame (reason : String) (frame : InterruptFrame)
  | undefined (fault : Fault)
  | waiting
  | running

/-- Programs of the kernel. -/
abbrev KernelM : Type → Type := Program Kernel KernelCall KernelCall.Answer KernelEnd

/-- Issue a call. -/
def issue (c : KernelCall) : KernelM c.Answer := ask c

/-! ## What interrupts leave alone -/

/-- The timer has the only handler. -/
def timerHandlers : Fin 16 → Option (Handler UInt64) :=
  Function.update (fun _ => none) timerIrq (some pitIrq)

/-- The controllers are set up and have nothing in service. -/
structure Board.Quiet (g : Board) : Prop where
  master : g.master.Ready 0x20 4
  slave : g.slave.Ready 0x28 2
  master_idle : g.master.core.Idle
  slave_idle : g.slave.core.Idle

/-- The kernel is `k` but for what the handlers change. -/
def Kernel.Same (k s : Kernel) : Prop :=
  s = { k with spuriousIrqs := s.spuriousIrqs, ticks := s.ticks }

/-- The board is `b` but for what interrupts change. -/
def Board.Same (b g : Board) : Prop :=
  g = { b with
    master := { b.master with core := g.master.core }
    slave := { b.slave with core := g.slave.core }
    timerIrqs := g.timerIrqs }

theorem Kernel.Same.refl (k : Kernel) : k.Same k := rfl

theorem Board.Same.refl (b : Board) : b.Same b := rfl

theorem Taken.timerIrqs_le {p q : Kernel × Board} (h : Taken p q) :
    p.2.timerIrqs ≤ q.2.timerIrqs := by
  obtain ⟨-, d, cpu, m, -, -, rfl⟩ := h
  change p.2.timerIrqs ≤ if d = .irq timerIrq then p.2.timerIrqs + 1 else p.2.timerIrqs
  split <;> omega

theorem Meanwhile.timerIrqs_le {p q : Kernel × Board} (h : Meanwhile p q) :
    p.2.timerIrqs ≤ q.2.timerIrqs := by
  induction h with
  | refl => exact le_rfl
  | tail _ ht ih => exact ih.trans ht.timerIrqs_le

/-- The kernel is `k` and the board is `b`, but for interrupts; if they may come, everything is
    there to handle them. -/
structure At (img : KernelImage) (k : Kernel) (b : Board) (s : Kernel) (g : Board) : Prop where
  kernel : k.Same s
  board : b.Same g
  clock : s.ticks = UInt64.ofNat g.timerIrqs
  master_idle : b.master.core.Idle → g.master.core.Idle
  slave_idle : b.slave.core.Idle → g.slave.core.Idle
  quiet : b.interrupts = true → b.Quiet
  installed : b.interrupts = true → k.Installed img
  handlers : b.interrupts = true → k.irqHandlers = timerHandlers

theorem At.board_quiet {img : KernelImage} {k s : Kernel} {b g : Board} (h : At img k b s g)
    (hq : b.Quiet) : g.Quiet where
  master := by
    rw [h.board]
    exact ⟨hq.master.stage, hq.master.offset_eq, hq.master.cascade_eq, hq.master.mode_eq⟩
  slave := by
    rw [h.board]
    exact ⟨hq.slave.stage, hq.slave.offset_eq, hq.slave.cascade_eq, hq.slave.mode_eq⟩
  master_idle := h.master_idle hq.master_idle
  slave_idle := h.slave_idle hq.slave_idle

theorem vector_of_quiet {g : Board} (h : g.Quiet) (d : Delivery) : g.vector d = d.vector := by
  have hmaster : ∀ i : Fin 8, g.master.vector i = 0x20 + UInt8.ofNat i := fun i => by
    rw [PicChip.vector, h.master.offset_eq]
  have hslave : ∀ i : Fin 8, g.slave.vector i = 0x28 + UInt8.ofNat i := fun i => by
    rw [PicChip.vector, h.slave.offset_eq]
  cases d with
  | irq n =>
    by_cases hn : n.val < 8
    · rw [Board.vector, dif_pos hn, hmaster]
      rfl
    · have hall : ∀ n : Fin 16, ¬n.val < 8 →
          (0x28 : UInt8) + UInt8.ofNat (n.val - 8) = 32 + UInt8.ofNat n.val := by decide
      rw [Board.vector, dif_neg hn, hslave]
      exact hall n hn
  | spurious7 => exact (hmaster lowestLine).trans (by decide)
  | spurious15 => exact (hslave lowestLine).trans (by decide)
  | test => rfl

section Interrupts

variable {img : KernelImage} {k : Kernel} {b : Board} {p q : Kernel × Board} {d : Delivery}
  {cpu : InterruptFrame}

/-- Every interrupt that may come is handled. -/
theorem At.dispatched (h : At img k b p.1 p.2) (hon : p.2.interrupts = true) (d : Delivery)
    (cpu : InterruptFrame) : ∃ m, dispatched p d cpu = .ok m ∧
      Accounted [⟨d, cpu⟩] (machine p.1 p.2) m := by
  have hon' : b.interrupts = true := by
    rw [← hon, h.board]
  have hquiet := h.board_quiet (h.quiet hon')
  unfold Sypas.dispatched
  rw [vector_of_quiet hquiet]
  exact deliver_accounted ⟨d, cpu⟩ hquiet.master_idle hquiet.slave_idle

theorem At.taken (h : At img k b p.1 p.2) (ht : Taken p q) : At img k b q.1 q.2 := by
  obtain ⟨hon, d, cpu, m, hallows, hdispatch, rfl⟩ := ht
  obtain ⟨m', hm', hacc⟩ := h.dispatched hon d cpu
  obtain rfl : m' = m := Except.ok.inj (hm'.symm.trans hdispatch)
  have hon' : b.interrupts = true := by
    rw [← hon, h.board]
  have hhandlers : p.1.irqHandlers = timerHandlers := by
    rw [h.kernel]
    exact h.handlers hon'
  have hirq : m'.irqHandlers = p.1.irqHandlers := hacc.irqHandlers
  have htest : m'.isrTestHits = p.1.isrTestHits := by
    rw [hacc.isrTestHits, List.countP_cons_of_neg, List.countP_nil]
    · exact UInt64.add_zero _
    · cases d <;> simp [Interrupt.isTest, Board.Allows] at hallows ⊢
  have hworld : m'.world = if d = .irq timerIrq then p.1.ticks + 1 else p.1.ticks := by
    rw [hacc.world]
    change List.foldl (runCall p.1.irqHandlers) p.1.ticks _ = _
    rw [hhandlers]
    cases d with
    | irq n =>
      by_cases hn : n = timerIrq
      · simp [Interrupt.due, machine, hhandlers, timerHandlers, runCall, pitIrq, hn]
      · simp [Interrupt.due, machine, hhandlers, timerHandlers, hn]
    | spurious7 => rfl
    | spurious15 => rfl
    | test => exact hallows.elim
  refine ⟨?_, ?_, ?_, fun _ => hacc.master, fun _ => hacc.slave, h.quiet, h.installed, h.handlers⟩
  · have hsame := h.kernel
    unfold Kernel.Same Kernel.returned at *
    rw [hirq, htest, hsame]
  · have hsame := h.board
    unfold Board.Same Board.returned Board.tick at *
    rw [hsame]
  · have hclock := h.clock
    change m'.world = UInt64.ofNat (if d = .irq timerIrq then p.2.timerIrqs + 1 else p.2.timerIrqs)
    rw [hworld]
    by_cases hd : d = .irq timerIrq
    · rw [if_pos hd, if_pos hd, hclock, UInt64.ofNat_add]
      rfl
    · rw [if_neg hd, if_neg hd, hclock]

theorem At.meanwhile (h : At img k b p.1 p.2) (hm : Meanwhile p q) : At img k b q.1 q.2 := by
  induction hm with
  | refl => exact h
  | tail _ ht ih => exact ih.taken ht

end Interrupts

/-- Another state of the kernel, where no interrupt is concerned. -/
theorem At.store {img : KernelImage} {k k' s s' : Kernel} {b g : Board} (h : At img k b s g)
    (hsame : k'.Same s') (hticks : s'.ticks = s.ticks)
    (hinstalled : k.Installed img → k'.Installed img)
    (hhandlers : k'.irqHandlers = k.irqHandlers) : At img k' b s' g where
  kernel := hsame
  board := h.board
  clock := hticks ▸ h.clock
  master_idle := h.master_idle
  slave_idle := h.slave_idle
  quiet := h.quiet
  installed := fun hon => hinstalled (h.installed hon)
  handlers := fun hon => hhandlers.trans (h.handlers hon)

/-! ## The clock of the board -/

section Clock

variable {g g' : Board} {port : UInt16} {v : UInt8}

theorem Board.timerIrqs_write (g : Board) (port : UInt16) (v : UInt8) :
    (g.write port v).timerIrqs = g.timerIrqs := by
  unfold Board.write
  split_ifs <;> rfl

theorem Board.Elapses.timerIrqs_eq (h : g.Elapses g') : g'.timerIrqs = g.timerIrqs := by
  unfold Board.Elapses at h
  cases hu : g.uart with
  | none =>
    rw [hu] at h
    rw [h]
  | some u =>
    rw [hu] at h
    obtain ⟨u', -, rfl⟩ := h
    rfl

theorem Board.Reads.timerIrqs_eq (h : g.Reads port v g') : g'.timerIrqs = g.timerIrqs := by
  unfold Board.Reads at h
  split at h
  · cases hu : g.uart with
    | none =>
      rw [hu] at h
      rw [h.2]
    | some u =>
      rw [hu] at h
      obtain ⟨u', -, rfl⟩ := h
      rfl
  · rw [h.2.2]

/-- No call takes back an interrupt of the timer. -/
theorem hardware_timerIrqs_le {img : KernelImage} {prompt : Bool} (g : Board) (s : Kernel)
    (c : KernelCall) (a : c.Answer) (s' : Kernel) (g' : Board)
    (h : (hardware img prompt).rely g s c a s' g') : g.timerIrqs ≤ g'.timerIrqs := by
  obtain ⟨p, hp, hanswer⟩ := h
  refine le_trans hp.timerIrqs_le (show p.2.timerIrqs ≤ g'.timerIrqs from ?_)
  cases c with
  | outb port v =>
    obtain ⟨-, g₁, helapses, rfl⟩ := hanswer
    rw [Board.timerIrqs_write, helapses.timerIrqs_eq]
  | inb port =>
    obtain ⟨-, ⟨g₁, helapses, hreads⟩, -⟩ := hanswer
    rw [hreads.timerIrqs_eq, helapses.timerIrqs_eq]
  | hlt =>
    obtain ⟨hwoken, -⟩ := hanswer
    have hmeanwhile : Meanwhile p (s', g') := hwoken.to_reflTransGen
    exact hmeanwhile.timerIrqs_le
  | int vec =>
    obtain ⟨cpu, m, -, -, rfl⟩ := hanswer
    exact le_rfl
  | cpuid leaf subleaf =>
    obtain ⟨-, -, rfl⟩ := hanswer
    exact le_rfl
  | boundary => rw [hanswer.2]
  | rdtsc => rw [hanswer.2]
  | readCr r => rw [hanswer.2]
  | sti => rw [hanswer.2]
  | cli => rw [hanswer.2]

end Clock

section Calls

variable {img : KernelImage} {prompt : Bool} {k s : Kernel} {b g : Board}
  {R : KernelEnd → Kernel → Board → Prop}

theorem Kernel.Same.installed (h : k.Same s) (hk : k.Installed img) : s.Installed img := by
  rw [h]
  exact ⟨hk.idt, hk.segments⟩

/-- A call: interrupts come before it. -/
theorem At.issue_wp (h : At img k b s g) {c : KernelCall} {Q : c.Answer → Kernel → Board → Prop}
    (hlegal : c.Legal img s g)
    (hnext : ∀ a s₁ g₁ s' g', At img k b s₁ g₁ → g.timerIrqs ≤ g₁.timerIrqs →
      Answers prompt s₁ g₁ c a s' g' → Q a s' g') :
    (issue c).wp (hardware img prompt) R Q s g := by
  have hon : g.interrupts = b.interrupts := by
    rw [h.board]
  refine Program.wp_ask ⟨hlegal, fun hg => ?_, fun p hp hp' d cpu _ => ?_⟩ ?_
  · exact h.kernel.installed (h.installed (hon.symm.trans hg))
  · obtain ⟨m, hm, -⟩ := (h.meanwhile hp).dispatched hp' d cpu
    exact ⟨m, hm⟩
  · rintro a s' g' ⟨p, hp, hanswer⟩
    exact hnext a p.1 p.2 s' g' (h.meanwhile hp) hp.timerIrqs_le hanswer

end Calls

/-! ## What the board can answer -/

/-- The dispatcher on the test interrupt. -/
theorem isrDispatch_test {σ : Type} (cpu : InterruptFrame) (m : Machine σ) :
    isrDispatch (isrStub sypasTestVector.toUInt8 cpu) m =
      .ok { m with isrTestHits := m.isrTestHits + 1 } := by
  have hvector : (isrStub sypasTestVector.toUInt8 cpu).vector = sypasTestVector := rfl
  have hlow : ¬(isrStub sypasTestVector.toUInt8 cpu).vector < 32 := by
    rw [hvector]
    decide
  have hhigh : ¬(isrStub sypasTestVector.toUInt8 cpu).vector < 48 := by
    rw [hvector]
    decide
  rw [isrDispatch, dif_neg hlow, if_neg hhigh, if_pos hvector]

/-- Time has passed, and the transmitter is empty. -/
theorem Board.exists_elapses (g : Board) : ∃ g', g.Elapses g' ∧ ∀ u ∈ g'.uart, u.tx = [] := by
  unfold Elapses
  cases hu : g.uart with
  | none => exact ⟨g, rfl, fun u h => nomatch hu.symm.trans h⟩
  | some u =>
    obtain ⟨u', helapses, hempty⟩ := u.exists_elapses_empty
    refine ⟨_, ⟨u', helapses, rfl⟩, fun v hv => ?_⟩
    rw [← Option.some.inj hv]
    exact hempty

/-- Every port can be read. -/
theorem Board.exists_reads (g : Board) (port : UInt16) (hempty : ∀ u ∈ g.uart, u.tx = []) :
    ∃ v g', g.Reads port v g' ∧ ∀ u ∈ g'.uart, u.tx = [] := by
  unfold Reads
  by_cases hcom1 : InCom1 port
  · simp only [if_pos hcom1]
    cases hu : g.uart with
    | none => exact ⟨0xFF, g, ⟨rfl, rfl⟩, hempty⟩
    | some u =>
      obtain ⟨v, u', hreads, htx⟩ := u.exists_reads (port - com1)
      refine ⟨v, _, ⟨u', hreads, rfl⟩, fun w hw => ?_⟩
      rw [← Option.some.inj hw, htx]
      exact hempty u hu
  · simp only [if_neg hcom1]
    refine ⟨if port = pic1Data then g.master.imr else g.slave.imr, g, ⟨fun h => if_pos h,
      fun h => if_neg ?_, rfl⟩, hempty⟩
    rw [h]
    decide

/-- The calls that wait for the timer. -/
def halts (c : KernelCall) : ℕ := if c = .hlt then 1 else 0

theorem within_issue {c : KernelCall} (hc : c ≠ .hlt) : (issue c).Within halts 0 :=
  within_ask (if_neg hc).le

/-- Even a prompt board has an answer to every permitted call, and needs no interrupt of the timer
    for it but the one that ends a halt. -/
theorem hardware_answers (img : KernelImage) (prompt : Bool) :
    (hardware img prompt).Answers Board.timerIrqs halts := by
  intro g s c hpermits
  -- interrupts come before no call but the halt
  suffices hanswers : ∃ a s' g', Answers prompt s g c a s' g' ∧
      g'.timerIrqs ≤ g.timerIrqs + halts c by
    obtain ⟨a, s', g', hanswer, hle⟩ := hanswers
    exact ⟨a, s', g', ⟨(s, g), .refl, hanswer⟩, hle⟩
  cases c with
  | boundary => exact ⟨(), s, g, ⟨rfl, rfl⟩, Nat.le_add_right _ _⟩
  | rdtsc => exact ⟨(0 : UInt64), s, g, ⟨rfl, rfl⟩, Nat.le_add_right _ _⟩
  | readCr r => exact ⟨(0 : UInt64), s, g, ⟨rfl, rfl⟩, Nat.le_add_right _ _⟩
  | cpuid leaf subleaf =>
    exact ⟨g.cpuid leaf subleaf, s, g, ⟨rfl, rfl, rfl⟩, Nat.le_add_right _ _⟩
  | sti => exact ⟨(), s, { g with interrupts := true }, ⟨rfl, rfl⟩, Nat.le_add_right _ _⟩
  | cli => exact ⟨(), s, { g with interrupts := false }, ⟨rfl, rfl⟩, Nat.le_add_right _ _⟩
  | outb port v =>
    obtain ⟨g₁, helapses, -⟩ := g.exists_elapses
    refine ⟨(), s, g₁.write port v, ⟨rfl, g₁, helapses, rfl⟩, ?_⟩
    rw [Board.timerIrqs_write, helapses.timerIrqs_eq]
    exact Nat.le_add_right _ _
  | inb port =>
    obtain ⟨g₁, helapses, hempty⟩ := g.exists_elapses
    obtain ⟨v, g₂, hreads, hempty₂⟩ := g₁.exists_reads port hempty
    refine ⟨v, s, g₂, ⟨rfl, ⟨g₁, helapses, hreads⟩, fun _ u hu hbusy => ?_⟩, ?_⟩
    · exact absurd (hempty₂ u hu) hbusy
    · rw [hreads.timerIrqs_eq, helapses.timerIrqs_eq]
      exact Nat.le_add_right _ _
  | int vec =>
    obtain ⟨-, rfl⟩ := hpermits.legal
    exact ⟨(), _, _, ⟨default, _, isrDispatch_test _ _, rfl, rfl⟩, Nat.le_add_right _ _⟩
  | hlt =>
    obtain ⟨hon, hopen, -⟩ := hpermits.legal
    have hallows : g.Allows (.irq timerIrq) := hopen
    obtain ⟨m, hm⟩ := hpermits.handled (s, g) .refl hon _ default hallows
    refine ⟨(), _, _, ⟨.single ⟨hon, _, default, m, hallows, hm, rfl⟩, fun _ => ?_⟩, ?_⟩
    · exact Nat.lt_succ_self g.timerIrqs
    · exact le_rfl

end Sypas
