import Sypas.Lib.Pic8259
import Sypas.Lib.State

/-!
# Interrupt dispatch (`kernel/arch/x86_64/idt.c`, `pic.c`, `pit.c`, `isr.S`)

The dispatcher and the two interrupt controllers. A handler runs with interrupts disabled and
does no port I/O: it is a function on a state of its own, of which the dispatcher knows nothing.
An interrupt is delivered by the hardware, which marks the request in service, enters the stub of
its vector and lets the dispatcher run to its end.

## Main definitions

- `Sypas.Machine` — the controllers, the handler table, the counters and the handlers' state
- `Sypas.isrDispatch` — the dispatcher
- `Sypas.Interrupt`, `Sypas.deliverAll` — deliveries, and a run of them

## Main results

- `Sypas.deliver_accounted` — what one delivery does, case by case
- `Sypas.interrupt_accounting` — what a run of deliveries does
- `Sypas.deliverAll_ticks` — the timer counts the deliveries of its line
-/

namespace Sypas

open Prog

/-! ## Entry -/

/-- `interrupt_frame_t`. -/
structure InterruptFrame where
  (r15 r14 r13 r12 r11 r10 r9 r8 : UInt64)
  (rbp rdi rsi rdx rcx rbx rax : UInt64)
  (vector errorCode : UInt64)
  (rip cs rflags rsp ss : UInt64)
deriving DecidableEq, Repr, Inhabited

/-- Vectors whose error code the processor pushes. -/
def isrErr : List UInt8 := [8, 10, 11, 12, 13, 14, 17, 21, 29, 30]

/-- The stub of a vector, on the interrupted registers and the error code the processor pushed, if
    it pushes one. -/
def isrStub (vec : UInt8) (cpu : InterruptFrame) : InterruptFrame :=
  { cpu with
    vector := vec.toUInt64
    errorCode := if vec ∈ isrErr then cpu.errorCode else 0 }

/-! ## The machine -/

abbrev Handler (σ : Type) := InterruptFrame → σ → σ

/-- `irqHandlers`, `isrTestHits` and `spuriousIrqs` are the variables of the source; `world` is
    what the handlers act on. `calls` lists the lines whose handlers the dispatcher has called,
    each with the frame it passed. -/
structure Machine (σ : Type) where
  master : Pic8259
  slave : Pic8259
  irqHandlers : Fin 16 → Option (Handler σ)
  isrTestHits : UInt64
  spuriousIrqs : UInt64
  world : σ
  calls : List (Fin 16 × InterruptFrame)

/-- `panic_with_frame` does not return. -/
structure FramePanic where
  reason : String
  frame : InterruptFrame
deriving DecidableEq, Repr

variable {σ : Type}

/-! ## Ports -/

def pic1Cmd : UInt16 := 0x20
def pic2Cmd : UInt16 := 0xA0
def picEoi : UInt8 := 0x20
def ocw3Isr : UInt8 := 0x0B

/-- `outb`, to the command ports. -/
def outb (port : UInt16) (val : UInt8) : StateM (Machine σ) PUnit :=
  modify fun m =>
    if port = pic1Cmd then { m with master := m.master.writeCommand val }
    else if port = pic2Cmd then { m with slave := m.slave.writeCommand val }
    else m

/-- `inb`, from the command ports. A port nobody drives reads as ones. -/
def inb (port : UInt16) : StateM (Machine σ) UInt8 := do
  let m ← get
  return if port = pic1Cmd then m.master.readCommand
    else if port = pic2Cmd then m.slave.readCommand
    else 0xFF

/-- `pic_send_eoi`. -/
def picSendEoi (irq : UInt8) : StateM (Machine σ) PUnit := do
  if irq ≥ 8 then
    outb pic2Cmd picEoi
  outb pic1Cmd picEoi

/-- `pic_read_isr`. -/
def picReadIsr (cmdPort : UInt16) : StateM (Machine σ) UInt8 := do
  outb cmdPort ocw3Isr
  inb cmdPort

/-- `spurious_irqs++`. -/
def countSpurious : StateM (Machine σ) PUnit :=
  modify fun m => { m with spuriousIrqs := m.spuriousIrqs + 1 }

/-- `pic_handle_spurious`. -/
def picHandleSpurious (irq : UInt8) : StateM (Machine σ) Bool :=
  if irq = 7 then do
    let isr ← picReadIsr pic1Cmd
    if isr &&& 0x80 ≠ 0 then
      return false
    else
      countSpurious
      return true
  else if irq = 15 then do
    let isr ← picReadIsr pic2Cmd
    if isr &&& 0x80 ≠ 0 then
      return false
    else
      countSpurious
      outb pic1Cmd picEoi
      return true
  else
    return false

/-! ## The dispatcher -/

def sypasTestVector : UInt64 := 0xF0

/-- `exception_names`. -/
def exceptionNames : Vector String 32 :=
  #v["#DE divide error", "#DB debug",
    "NMI non-maskable interrupt", "#BP breakpoint",
    "#OF overflow", "#BR bound range exceeded",
    "#UD invalid opcode", "#NM device not available",
    "#DF double fault", "coprocessor segment overrun",
    "#TS invalid TSS", "#NP segment not present",
    "#SS stack-segment fault", "#GP general protection fault",
    "#PF page fault", "reserved(15)",
    "#MF x87 floating-point", "#AC alignment check",
    "#MC machine check", "#XM SIMD floating-point",
    "#VE virtualization", "#CP control protection",
    "reserved(22)", "reserved(23)", "reserved(24)", "reserved(25)",
    "reserved(26)", "reserved(27)", "#HV hypervisor injection",
    "#VC VMM communication", "#SX security", "reserved(31)"]

/-- `irq_install`. -/
def irqInstall (irq : UInt8) (handler : Option (Handler σ)) (m : Machine σ) : Machine σ :=
  if h : irq.toNat < 16 then
    { m with irqHandlers := Function.update m.irqHandlers ⟨irq.toNat, h⟩ handler }
  else m

/-- `if (irq_handlers[irq]) irq_handlers[irq](f)`. -/
def callHandler (irq : Fin 16) (f : InterruptFrame) : StateM (Machine σ) PUnit :=
  modify fun m =>
    match m.irqHandlers irq with
    | none => m
    | some handler => { m with world := handler f m.world, calls := m.calls ++ [(irq, f)] }

/-- The dispatcher's branch for the vectors 32 to 47. -/
def dispatchIrq (irq : UInt8) (f : InterruptFrame) : StateM (Machine σ) PUnit := do
  let spurious ← picHandleSpurious irq
  if spurious then
    return
  -- The vector is below 48 here, so the index is inside the table.
  callHandler (Fin.ofNat 16 irq.toNat) f
  picSendEoi irq

/-- `isr_dispatch`. -/
def isrDispatch (f : InterruptFrame) (m : Machine σ) : Except FramePanic (Machine σ) :=
  if h : f.vector < 32 then
    .error ⟨exceptionNames.get ⟨f.vector.toNat, UInt64.lt_iff_toNat_lt.mp h⟩, f⟩
  else if f.vector < 48 then
    .ok (dispatchIrq (f.vector - 32).toUInt8 f m).2
  else if f.vector = sypasTestVector then
    .ok { m with isrTestHits := m.isrTestHits + 1 }
  else
    .error ⟨"unexpected interrupt vector", f⟩

/-- `pit_irq`, on `ticks`. -/
def pitIrq : Handler UInt64 := fun _ ticks => ticks + 1

/-! ## Deliveries -/

/-- What the hardware can deliver: a genuine request, a spurious one of either controller, the
    private test vector. -/
inductive Delivery where
  | irq (n : Fin 16)
  | spurious7
  | spurious15
  | test
deriving DecidableEq, Repr

def Delivery.vector : Delivery → UInt8
  | .irq n => 32 + UInt8.ofNat n
  | .spurious7 => 39
  | .spurious15 => 47
  | .test => 0xF0

/-- A request of the slave comes in through line 2 of the master. -/
def cascade : Fin 8 := 2

/-- The timer's line, and where it comes in at the master. -/
def timerIrq : Fin 16 := 0
def timerLine : Fin 8 := 0

/-- The line of lowest priority, which a spurious request shows up on. -/
def lowestLine : Fin 8 := 7

/-- Where a line of the slave comes in. -/
def slaveLine (n : Fin 16) (h : ¬n.val < 8) : Fin 8 := ⟨n - 8, by omega⟩

/-- What a delivery puts in service. -/
def Delivery.raise : Delivery → Machine σ → Machine σ
  | .irq n, m =>
    if h : n.val < 8 then { m with master := m.master.acknowledge ⟨n, h⟩ }
    else { m with
      master := m.master.acknowledge cascade
      slave := m.slave.acknowledge ⟨n - 8, by omega⟩ }
  | .spurious7, m => m
  | .spurious15, m => { m with master := m.master.acknowledge cascade }
  | .test, m => m

/-- A delivery and the registers of what it interrupts. -/
structure Interrupt where
  kind : Delivery
  cpu : InterruptFrame

/-- The frame that the stub hands to the dispatcher. -/
def Interrupt.frame (i : Interrupt) : InterruptFrame := isrStub i.kind.vector i.cpu

def deliver (i : Interrupt) (m : Machine σ) : Except FramePanic (Machine σ) :=
  isrDispatch i.frame (i.kind.raise m)

/-- The deliveries of `is`, in order. -/
def deliverAll : List Interrupt → Machine σ → Except FramePanic (Machine σ)
  | [], m => .ok m
  | i :: is, m => do
    let m ← deliver i m
    deliverAll is m

/-! ## Ports and the spurious check -/

@[simp] theorem outb_pic1Cmd (v : UInt8) (m : Machine σ) :
    outb pic1Cmd v m = (⟨⟩, { m with master := m.master.writeCommand v }) := rfl

@[simp] theorem outb_pic2Cmd (v : UInt8) (m : Machine σ) :
    outb pic2Cmd v m = (⟨⟩, { m with slave := m.slave.writeCommand v }) := rfl

@[simp] theorem writeCommand_picEoi (p : Pic8259) :
    p.writeCommand picEoi = p.nonSpecificEoi := rfl

@[simp] theorem picReadIsr_pic1Cmd (m : Machine σ) :
    picReadIsr pic1Cmd m =
      (m.master.isr, { m with master := { m.master with readIsr := true } }) := rfl

@[simp] theorem picReadIsr_pic2Cmd (m : Machine σ) :
    picReadIsr pic2Cmd m =
      (m.slave.isr, { m with slave := { m.slave with readIsr := true } }) := rfl

/-- The bit the spurious check looks at is that of the lowest-priority line. -/
theorem and_0x80_ne_zero_iff (p : Pic8259) : p.isr &&& 0x80 ≠ 0 ↔ p.inService 7 = true := by
  unfold Pic8259.inService
  generalize p.isr = b
  revert b
  decide +kernel

theorem picHandleSpurious_of_ne {irq : UInt8} (h7 : irq ≠ 7) (h15 : irq ≠ 15) (m : Machine σ) :
    picHandleSpurious irq m = (false, m) := by
  simp [picHandleSpurious, h7, h15]

theorem picHandleSpurious_seven (m : Machine σ) :
    picHandleSpurious 7 m =
      if m.master.inService 7 then
        (false, { m with master := { m.master with readIsr := true } })
      else
        (true, { m with
          master := { m.master with readIsr := true }
          spuriousIrqs := m.spuriousIrqs + 1 }) := by
  by_cases h : m.master.inService 7 = true
  · have hbit := (and_0x80_ne_zero_iff m.master).mpr h
    simp [picHandleSpurious, h, hbit]
  · have hbit := (and_0x80_ne_zero_iff m.master).not.mpr h
    simp only [ne_eq, not_not] at hbit
    simp [picHandleSpurious, h, hbit, countSpurious]

theorem picHandleSpurious_fifteen (m : Machine σ) :
    picHandleSpurious 15 m =
      if m.slave.inService 7 then
        (false, { m with slave := { m.slave with readIsr := true } })
      else
        (true, { m with
          master := m.master.nonSpecificEoi
          slave := { m.slave with readIsr := true }
          spuriousIrqs := m.spuriousIrqs + 1 }) := by
  by_cases h : m.slave.inService 7 = true
  · have hbit := (and_0x80_ne_zero_iff m.slave).mpr h
    simp [picHandleSpurious, h, hbit]
  · have hbit := (and_0x80_ne_zero_iff m.slave).not.mpr h
    simp only [ne_eq, not_not] at hbit
    simp [picHandleSpurious, h, hbit, countSpurious]

theorem picSendEoi_low {irq : UInt8} (h : irq < 8) (m : Machine σ) :
    picSendEoi irq m = (⟨⟩, { m with master := m.master.nonSpecificEoi }) := by
  simp [picSendEoi, UInt8.not_le.mpr h]

theorem picSendEoi_high {irq : UInt8} (h : 8 ≤ irq) (m : Machine σ) :
    picSendEoi irq m = (⟨⟩, { m with
      master := m.master.nonSpecificEoi
      slave := m.slave.nonSpecificEoi }) := by
  simp [picSendEoi, h]

/-! ## One delivery -/

/-- The handler calls that a delivery is due. -/
def Interrupt.due (handlers : Fin 16 → Option (Handler σ)) (i : Interrupt) :
    List (Fin 16 × InterruptFrame) :=
  match i.kind with
  | .irq n => if (handlers n).isSome then [(n, i.frame)] else []
  | _ => []

/-- The effect of a call on the handlers' state. -/
def runCall (handlers : Fin 16 → Option (Handler σ)) (w : σ) (c : Fin 16 × InterruptFrame) : σ :=
  match handlers c.1 with
  | none => w
  | some handler => handler c.2 w

def Interrupt.isSpurious (i : Interrupt) : Bool :=
  i.kind = .spurious7 ∨ i.kind = .spurious15

def Interrupt.isTest (i : Interrupt) : Bool := i.kind = .test

/-- What the deliveries of `is` do to a machine whose controllers are idle. -/
structure Accounted (is : List Interrupt) (m m' : Machine σ) : Prop where
  master : m'.master.Idle
  slave : m'.slave.Idle
  irqHandlers : m'.irqHandlers = m.irqHandlers
  calls : m'.calls = m.calls ++ is.flatMap (Interrupt.due m.irqHandlers)
  world : m'.world =
    (is.flatMap (Interrupt.due m.irqHandlers)).foldl (runCall m.irqHandlers) m.world
  spuriousIrqs : m'.spuriousIrqs = m.spuriousIrqs + UInt64.ofNat (is.countP Interrupt.isSpurious)
  isrTestHits : m'.isrTestHits = m.isrTestHits + UInt64.ofNat (is.countP Interrupt.isTest)

theorem frame_vector (i : Interrupt) : i.frame.vector = i.kind.vector.toUInt64 := rfl

/-- Vectors 32 to 47 go to the branch of the interrupt lines. -/
theorem isrDispatch_irq {f : InterruptFrame} (n : Fin 16)
    (hf : f.vector = (32 + UInt8.ofNat n).toUInt64) (m : Machine σ) :
    isrDispatch f m = .ok (dispatchIrq (UInt8.ofNat n) f m).2 := by
  have hlow : ∀ n : Fin 16, ¬ (32 + UInt8.ofNat n).toUInt64 < 32 := by decide
  have hhigh : ∀ n : Fin 16, (32 + UInt8.ofNat n).toUInt64 < 48 := by decide
  have hirq : ∀ n : Fin 16, ((32 + UInt8.ofNat n).toUInt64 - 32).toUInt8 = UInt8.ofNat n := by
    decide
  have hlt : ¬ f.vector < 32 := by
    rw [hf]
    exact hlow n
  rw [isrDispatch, dif_neg hlt, hf, if_pos (hhigh n), hirq]

theorem dispatchIrq_of_spurious {irq : UInt8} {f : InterruptFrame} {m m' : Machine σ}
    (h : picHandleSpurious irq m = (true, m')) : dispatchIrq irq f m = (⟨⟩, m') := by
  simp [dispatchIrq, h]

theorem dispatchIrq_of_genuine {n : Fin 16} {f : InterruptFrame} {m m' : Machine σ}
    (h : picHandleSpurious (UInt8.ofNat n) m = (false, m')) :
    dispatchIrq (UInt8.ofNat n) f m =
      picSendEoi (UInt8.ofNat n) (callHandler n f m').2 := by
  have hn : ∀ n : Fin 16, Fin.ofNat 16 (UInt8.ofNat n).toNat = n := by decide
  simp only [dispatchIrq, bind_run, h, hn, Bool.false_eq_true, if_false]

theorem callHandler_run (n : Fin 16) (f : InterruptFrame) (m : Machine σ) :
    (callHandler n f m).2 = { m with
      calls := m.calls ++ if (m.irqHandlers n).isSome then [(n, f)] else []
      world := runCall m.irqHandlers m.world (n, f) } := by
  cases h : m.irqHandlers n with
  | none => simp [callHandler, runCall, h]
  | some handler => simp [callHandler, runCall, h]

variable {m m' : Machine σ}

/-- A genuine request below the cascade: the master alone acknowledges and ends it. -/
theorem accounted_irq_low {i : Interrupt} {n : Fin 16} (hi : i.kind = .irq n) (hn : n.val < 8)
    (hmaster : m.master.Idle) (hslave : m.slave.Idle) :
    ∃ m', deliver i m = .ok m' ∧ Accounted [i] m m' := by
  have hlt : ∀ n : Fin 16, n.val < 8 → UInt8.ofNat n < 8 := by decide
  have hspurious : ∃ readIsr, picHandleSpurious (UInt8.ofNat n) (i.kind.raise m) =
      (false, { m with
        master := { m.master.acknowledge ⟨n, hn⟩ with readIsr := readIsr } }) := by
    simp only [hi, Delivery.raise, dif_pos hn]
    by_cases h7 : n = 7
    · subst h7
      refine ⟨true, (picHandleSpurious_seven _).trans ?_⟩
      simp
    · have hne : ∀ n : Fin 16, n.val < 8 → n ≠ 7 → UInt8.ofNat n ≠ 7 ∧ UInt8.ofNat n ≠ 15 := by
        decide
      exact ⟨m.master.readIsr, picHandleSpurious_of_ne (hne n hn h7).1 (hne n hn h7).2 _⟩
  obtain ⟨readIsr, hspurious⟩ := hspurious
  refine ⟨_, (isrDispatch_irq n (by rw [frame_vector, hi]; rfl) _).trans
    (congrArg _ (congrArg Prod.snd (dispatchIrq_of_genuine hspurious))), ?_⟩
  rw [picSendEoi_low (hlt n hn), callHandler_run]
  exact {
    master := Pic8259.idle_eoi_acknowledge (p := { m.master with readIsr := readIsr }) hmaster _
    slave := hslave
    irqHandlers := rfl
    calls := by simp [Interrupt.due, hi]
    world := by
      cases h : m.irqHandlers n <;> simp [Interrupt.due, hi, h, runCall]
    spuriousIrqs := by simp [Interrupt.isSpurious, hi]
    isrTestHits := by simp [Interrupt.isTest, hi] }

/-- A genuine request of the slave: both controllers acknowledge and end it. -/
theorem accounted_irq_high {i : Interrupt} {n : Fin 16} (hi : i.kind = .irq n) (hn : ¬ n.val < 8)
    (hmaster : m.master.Idle) (hslave : m.slave.Idle) :
    ∃ m', deliver i m = .ok m' ∧ Accounted [i] m m' := by
  have hge : ∀ n : Fin 16, ¬ n.val < 8 → 8 ≤ UInt8.ofNat n := by decide
  have hspurious : ∃ readIsr, picHandleSpurious (UInt8.ofNat n) (i.kind.raise m) =
      (false, { m with
        master := m.master.acknowledge cascade
        slave := { m.slave.acknowledge ⟨n - 8, by omega⟩ with readIsr := readIsr } }) := by
    simp only [hi, Delivery.raise, dif_neg hn]
    by_cases h15 : n = 15
    · subst h15
      refine ⟨true, (picHandleSpurious_fifteen _).trans ?_⟩
      have hlast : (m.slave.acknowledge 7).inService 7 = true := by simp
      exact if_pos hlast
    · have hne : ∀ n : Fin 16, ¬ n.val < 8 → n ≠ 15 → UInt8.ofNat n ≠ 7 ∧ UInt8.ofNat n ≠ 15 := by
        decide
      exact ⟨m.slave.readIsr, picHandleSpurious_of_ne (hne n hn h15).1 (hne n hn h15).2 _⟩
  obtain ⟨readIsr, hspurious⟩ := hspurious
  refine ⟨_, (isrDispatch_irq n (by rw [frame_vector, hi]; rfl) _).trans
    (congrArg _ (congrArg Prod.snd (dispatchIrq_of_genuine hspurious))), ?_⟩
  rw [picSendEoi_high (hge n hn), callHandler_run]
  exact {
    master := Pic8259.idle_eoi_acknowledge hmaster _
    slave := Pic8259.idle_eoi_acknowledge (p := { m.slave with readIsr := readIsr }) hslave _
    irqHandlers := rfl
    calls := by simp [Interrupt.due, hi]
    world := by
      cases h : m.irqHandlers n <;> simp [Interrupt.due, hi, h, runCall]
    spuriousIrqs := by simp [Interrupt.isSpurious, hi]
    isrTestHits := by simp [Interrupt.isTest, hi] }

/-- A spurious IRQ7 finds nothing in service and ends nothing. -/
theorem accounted_spurious7 {i : Interrupt} (hi : i.kind = .spurious7)
    (hmaster : m.master.Idle) (hslave : m.slave.Idle) :
    ∃ m', deliver i m = .ok m' ∧ Accounted [i] m m' := by
  have hidle : m.master.inService 7 = false := (Pic8259.idle_iff _).mp hmaster 7
  have hspurious := picHandleSpurious_seven (i.kind.raise m)
  simp only [hi, Delivery.raise, hidle, Bool.false_eq_true, if_false] at hspurious
  refine ⟨_, (isrDispatch_irq 7 (by rw [frame_vector, hi]; rfl) _).trans
    (congrArg _ (congrArg Prod.snd (dispatchIrq_of_spurious (by rw [hi]; exact hspurious)))), ?_⟩
  exact {
    master := hmaster
    slave := hslave
    irqHandlers := rfl
    calls := by simp [Interrupt.due, hi]
    world := by simp [Interrupt.due, hi]
    spuriousIrqs := by simp [Interrupt.isSpurious, hi]
    isrTestHits := by simp [Interrupt.isTest, hi] }

/-- A spurious IRQ15 has put the cascade line in service, and the master alone ends it. -/
theorem accounted_spurious15 {i : Interrupt} (hi : i.kind = .spurious15)
    (hmaster : m.master.Idle) (hslave : m.slave.Idle) :
    ∃ m', deliver i m = .ok m' ∧ Accounted [i] m m' := by
  have hidle : m.slave.inService 7 = false := (Pic8259.idle_iff _).mp hslave 7
  have hspurious := picHandleSpurious_fifteen (i.kind.raise m)
  simp only [hi, Delivery.raise, hidle, Bool.false_eq_true, if_false] at hspurious
  refine ⟨_, (isrDispatch_irq 15 (by rw [frame_vector, hi]; rfl) _).trans
    (congrArg _ (congrArg Prod.snd (dispatchIrq_of_spurious (by rw [hi]; exact hspurious)))), ?_⟩
  exact {
    master := Pic8259.idle_eoi_acknowledge hmaster _
    slave := hslave
    irqHandlers := rfl
    calls := by simp [Interrupt.due, hi]
    world := by simp [Interrupt.due, hi]
    spuriousIrqs := by simp [Interrupt.isSpurious, hi]
    isrTestHits := by simp [Interrupt.isTest, hi] }

/-- The test vector touches its counter only. -/
theorem accounted_test {i : Interrupt} (hi : i.kind = .test)
    (hmaster : m.master.Idle) (hslave : m.slave.Idle) :
    ∃ m', deliver i m = .ok m' ∧ Accounted [i] m m' := by
  have hvector : i.frame.vector = sypasTestVector := by
    rw [frame_vector, hi]
    rfl
  have hrun : deliver i m = .ok { m with isrTestHits := m.isrTestHits + 1 } := by
    have hlow : ¬ i.frame.vector < 32 := by
      rw [hvector]
      decide
    have hhigh : ¬ i.frame.vector < 48 := by
      rw [hvector]
      decide
    rw [deliver, isrDispatch, dif_neg hlow, if_neg hhigh, if_pos hvector, hi]
    rfl
  refine ⟨_, hrun, ?_⟩
  exact {
    master := hmaster
    slave := hslave
    irqHandlers := rfl
    calls := by simp [Interrupt.due, hi]
    world := by simp [Interrupt.due, hi]
    spuriousIrqs := by simp [Interrupt.isSpurious, hi]
    isrTestHits := by simp [Interrupt.isTest, hi] }

/-! ## Runs -/

theorem Accounted.nil (hmaster : m.master.Idle) (hslave : m.slave.Idle) : Accounted [] m m where
  master := hmaster
  slave := hslave
  irqHandlers := rfl
  calls := by simp
  world := by simp
  spuriousIrqs := by simp
  isrTestHits := by simp

theorem Accounted.append {is js : List Interrupt} {m'' : Machine σ} (h : Accounted is m m')
    (h' : Accounted js m' m'') : Accounted (is ++ js) m m'' where
  master := h'.master
  slave := h'.slave
  irqHandlers := h'.irqHandlers.trans h.irqHandlers
  calls := by
    rw [h'.calls, h.calls, h.irqHandlers, List.flatMap_append, List.append_assoc]
  world := by
    rw [h'.world, h.world, h.irqHandlers, List.flatMap_append, List.foldl_append]
  spuriousIrqs := by
    rw [h'.spuriousIrqs, h.spuriousIrqs, List.countP_append, UInt64.ofNat_add, UInt64.add_assoc]
  isrTestHits := by
    rw [h'.isrTestHits, h.isrTestHits, List.countP_append, UInt64.ofNat_add, UInt64.add_assoc]

/-- One delivery returns, and is accounted for. -/
theorem deliver_accounted (i : Interrupt) (hmaster : m.master.Idle) (hslave : m.slave.Idle) :
    ∃ m', deliver i m = .ok m' ∧ Accounted [i] m m' := by
  cases hi : i.kind with
  | irq n =>
    by_cases hn : n.val < 8
    · exact accounted_irq_low hi hn hmaster hslave
    · exact accounted_irq_high hi hn hmaster hslave
  | spurious7 => exact accounted_spurious7 hi hmaster hslave
  | spurious15 => exact accounted_spurious15 hi hmaster hslave
  | test => exact accounted_test hi hmaster hslave

/-- Every run of deliveries returns, and is accounted for. -/
theorem deliverAll_accounted (is : List Interrupt) (hmaster : m.master.Idle)
    (hslave : m.slave.Idle) : ∃ m', deliverAll is m = .ok m' ∧ Accounted is m m' := by
  induction is generalizing m with
  | nil => exact ⟨m, rfl, Accounted.nil hmaster hslave⟩
  | cons i is ih =>
    obtain ⟨m₁, hrun, hfirst⟩ := deliver_accounted i hmaster hslave
    obtain ⟨m₂, hruns, hrest⟩ := ih hfirst.master hfirst.slave
    refine ⟨m₂, ?_, hfirst.append hrest⟩
    rw [deliverAll, hrun]
    exact hruns

/-- The calls that are due on a line: one for each genuine delivery, if a handler is installed. -/
theorem count_due (handlers : Fin 16 → Option (Handler σ)) (is : List Interrupt) (n : Fin 16) :
    ((is.flatMap (Interrupt.due handlers)).map Prod.fst).count n =
      if (handlers n).isSome then (is.map Interrupt.kind).count (.irq n) else 0 := by
  induction is with
  | nil => simp
  | cons i is ih =>
    simp only [List.flatMap_cons, List.map_append, List.count_append, ih, List.map_cons,
      List.count_cons]
    cases hi : i.kind with
    | irq k =>
      by_cases hk : k = n
      · subst hk
        cases hsome : (handlers k).isSome <;> simp [Interrupt.due, hi, hsome, Nat.add_comm]
      · cases hsome : (handlers k).isSome <;> simp [Interrupt.due, hi, hsome, hk]
    | spurious7 => simp [Interrupt.due, hi]
    | spurious15 => simp [Interrupt.due, hi]
    | test => simp [Interrupt.due, hi]

/-- A machine before its first delivery: the controllers idle, nothing counted, nothing called. -/
structure Machine.Fresh (m : Machine σ) : Prop where
  master : m.master.isr = 0
  slave : m.slave.isr = 0
  calls : m.calls = []
  spuriousIrqs : m.spuriousIrqs = 0
  isrTestHits : m.isrTestHits = 0

/-- After every sequence of deliveries nothing is left in service, each handler has run once for
    each genuine delivery of its line and for nothing else, and the counters have counted. The
    counters are 64 bits wide. -/
theorem interrupt_accounting (hm : m.Fresh) (is : List Interrupt) :
    ∃ m', deliverAll is m = .ok m' ∧
      m'.master.isr = 0 ∧ m'.slave.isr = 0 ∧
      m'.calls = is.flatMap (Interrupt.due m.irqHandlers) ∧
      (∀ n, (m'.calls.map Prod.fst).count n =
        if (m.irqHandlers n).isSome then (is.map Interrupt.kind).count (.irq n) else 0) ∧
      m'.world = m'.calls.foldl (runCall m.irqHandlers) m.world ∧
      m'.spuriousIrqs = UInt64.ofNat (is.countP Interrupt.isSpurious) ∧
      m'.isrTestHits = UInt64.ofNat (is.countP Interrupt.isTest) := by
  obtain ⟨m', hrun, h⟩ := deliverAll_accounted is hm.master hm.slave
  have hcalls : m'.calls = is.flatMap (Interrupt.due m.irqHandlers) := by
    rw [h.calls, hm.calls, List.nil_append]
  refine ⟨m', hrun, h.master, h.slave, hcalls, ?_, ?_, ?_, ?_⟩
  · intro n
    rw [hcalls, count_due]
  · rw [hcalls]
    exact h.world
  · rw [h.spuriousIrqs, hm.spuriousIrqs, UInt64.zero_add]
  · rw [h.isrTestHits, hm.isrTestHits, UInt64.zero_add]

/-- A machine with the timer's handler installed on line 0, as `pit_init` does. -/
def timerMachine : Machine UInt64 :=
  irqInstall 0 (some pitIrq)
    { master := ⟨0, 0, false⟩
      slave := ⟨0, 0, false⟩
      irqHandlers := fun _ => none
      isrTestHits := 0
      spuriousIrqs := 0
      world := 0
      calls := [] }

/-- Two ticks, with the other kinds of delivery between them. -/
def sampleInterrupts : List Interrupt :=
  let cpu : InterruptFrame := ⟨0, 0, 0, 0, 0, 0, 0, 0, 0, 0, 0, 0, 0, 0, 0, 0, 0, 0, 0, 0, 0, 0⟩
  [⟨.irq 0, cpu⟩, ⟨.spurious15, cpu⟩, ⟨.irq 15, cpu⟩, ⟨.test, cpu⟩, ⟨.spurious7, cpu⟩,
    ⟨.irq 0, cpu⟩]

theorem timerMachine_accounting :
    ∃ m', deliverAll sampleInterrupts timerMachine = .ok m' ∧
      m'.master.isr = 0 ∧ m'.slave.isr = 0 ∧
      (m'.calls.map Prod.fst).count 0 = 2 ∧ m'.spuriousIrqs = 2 ∧ m'.isrTestHits = 1 := by
  obtain ⟨m', hrun, hmaster, hslave, -, hcalls, -, hspurious, htest⟩ :=
    interrupt_accounting (m := timerMachine) ⟨rfl, rfl, rfl, rfl, rfl⟩ sampleInterrupts
  exact ⟨m', hrun, hmaster, hslave, hcalls 0, hspurious, htest⟩

/-! ## The timer -/

/-- A clock that line 0's handler advances as `pit_irq` does, and that no other handler touches,
    counts the genuine deliveries of line 0. -/
theorem deliverAll_ticks {ticks : σ → UInt64} {timer : Handler σ}
    (h0 : m.irqHandlers 0 = some timer)
    (htimer : ∀ f w, ticks (timer f w) = pitIrq f (ticks w))
    (hother : ∀ n handler, n ≠ 0 → m.irqHandlers n = some handler →
      ∀ f w, ticks (handler f w) = ticks w)
    (hmaster : m.master.Idle) (hslave : m.slave.Idle) (is : List Interrupt) :
    ∃ m', deliverAll is m = .ok m' ∧
      ticks m'.world = ticks m.world + UInt64.ofNat ((is.map Interrupt.kind).count (.irq 0)) := by
  obtain ⟨m', hrun, h⟩ := deliverAll_accounted is hmaster hslave
  refine ⟨m', hrun, ?_⟩
  -- The handlers run in the order of the calls; the clock sees those of line 0 only.
  have hfold : ∀ (cs : List (Fin 16 × InterruptFrame)) (w : σ),
      ticks (cs.foldl (runCall m.irqHandlers) w) =
        ticks w + UInt64.ofNat ((cs.map Prod.fst).count 0) := by
    intro cs
    induction cs with
    | nil => simp
    | cons c cs ih =>
      intro w
      rw [List.foldl_cons, ih]
      by_cases hc : c.1 = 0
      · have hcall : runCall m.irqHandlers w c = timer c.2 w := by
          simp [runCall, hc, h0]
        rw [hcall, htimer, pitIrq, List.map_cons, hc, List.count_cons_self, UInt64.ofNat_add,
          UInt64.add_assoc, UInt64.add_comm 1]
        rfl
      · have hcall : ticks (runCall m.irqHandlers w c) = ticks w := by
          unfold runCall
          cases hhandler : m.irqHandlers c.1 with
          | none => rfl
          | some handler => exact hother c.1 handler hc hhandler c.2 w
        rw [hcall, List.map_cons, List.count_cons_of_ne hc]
  rw [h.world, hfold, count_due, h0]
  simp

end Sypas
