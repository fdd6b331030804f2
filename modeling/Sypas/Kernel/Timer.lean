import Sypas.Kernel.PanicDump

/-!
# The interrupt controllers and the timer

How the kernel sets up the two controllers and the timer, and how it waits for ticks.

## Main definitions

- `Sypas.picInit`, `Sypas.picUnmask`, `Sypas.pitInit` — the set-up
- `Sypas.sleepTicks` — the wait

## Main results

- `Sypas.picInit_wp`, `Sypas.pitInit_wp` — what the devices are set to, whatever they were
- `Sypas.Online.sti_wp` — from there on interrupts may come
- `Sypas.sleepTicks_wp` — the wait ends when that many interrupts of the timer have come
-/

namespace Sypas

open Interaction Program

/-! ## The code -/

def icw1Init : UInt8 := 0x11
def icw48086 : UInt8 := 0x01

/-- `io_wait`. -/
def ioWait : KernelM Unit := issue (.outb ioWaitPort 0)

/-- `pic_init`. -/
def picInit : KernelM Unit := do
  issue (.outb pic1Cmd icw1Init)
  ioWait
  issue (.outb pic2Cmd icw1Init)
  ioWait
  issue (.outb pic1Data 0x20)
  ioWait
  issue (.outb pic2Data 0x28)
  ioWait
  issue (.outb pic1Data 0x04)
  ioWait
  issue (.outb pic2Data 0x02)
  ioWait
  issue (.outb pic1Data icw48086)
  ioWait
  issue (.outb pic2Data icw48086)
  ioWait
  issue (.outb pic1Data 0xFF)
  issue (.outb pic2Data 0xFF)

/-- The access of `pic_unmask` to the mask of one controller. In C, the shift of an `int` by 32 or
    more is undefined. -/
def clearMask (port : UInt16) (bit : UInt8) : KernelM Unit := do
  let mask : UInt8 ← issue (.inb port)
  issue (.outb port (PicChip.clearBit mask bit))

/-- `pic_unmask`. The call for the cascade line, 2, goes no deeper. -/
def picUnmask (irq : UInt8) : KernelM Unit := do
  if irq < 8 then clearMask pic1Data irq
  else
    clearMask pic2Data (irq - 8)
    clearMask pic1Data 2

/-- `irq_install`, on the kernel's table. -/
def Kernel.irqInstall (irq : UInt8) (handler : Option (Handler UInt64)) (s : Kernel) : Kernel :=
  if h : irq.toNat < 16 then
    { s with irqHandlers := Function.update s.irqHandlers ⟨irq.toNat, h⟩ handler }
  else s

theorem machine_irqInstall (irq : UInt8) (handler : Option (Handler UInt64)) (s : Kernel)
    (g : Board) : machine (s.irqInstall irq handler) g = irqInstall irq handler (machine s g) := by
  unfold Kernel.irqInstall irqInstall
  split <;> rfl

/-- `pit_init`. -/
def pitInit : KernelM Unit := do
  issue (.outb pitCmd 0x34)
  issue (.outb pitCh0 (pitDivisor &&& 0xFF).toUInt8)
  issue (.outb pitCh0 (pitDivisor >>> 8).toUInt8)
  compute fun s => ((), s.irqInstall 0 (some pitIrq))
  picUnmask 0

/-- `timer_ticks`. Interrupts may come before the variable is read. -/
def timerTicks : KernelM UInt64 := do
  issue .boundary
  compute fun s => (s.ticks, s)

/-- At most `n` rounds of the loop of `sleep_ticks`. -/
def sleepUntil («end» : UInt64) : ℕ → KernelM Unit
  | 0 => exit .waiting
  | n + 1 => do
    let now ← timerTicks
    if now < «end» then
      issue .hlt
      sleepUntil «end» n
    else pure ()

/-- `sleep_ticks`, for at most `rounds` rounds of its loop. -/
def sleepTicks (rounds : ℕ) (n : UInt64) : KernelM Unit := do
  let now ← timerTicks
  sleepUntil (now + n) rounds

/-! ## The devices -/

section Devices

variable {img : KernelImage} {prompt : Bool} {k s : Kernel} {b g : Board} {out : List UInt8}
  {R : KernelEnd → Kernel → Board → Prop} {port : UInt16} {v : UInt8}

theorem At.master_like (h : At img k b s g) : b.master.Like g.master :=
  ⟨congrArg Board.master h.board, h.master_idle⟩

theorem At.slave_like (h : At img k b s g) : b.slave.Like g.slave :=
  ⟨congrArg Board.slave h.board, h.slave_idle⟩

theorem At.pit_eq (h : At img k b s g) : g.pit = b.pit := by
  rw [h.board]

/-- Other settings of the devices, while no interrupt may come. -/
theorem At.devices (h : At img k b s g) (hoff : b.interrupts = false) {m m' c c' : PicChip}
    {pit pit' : PitCounter} (hm : m.Like m') (hc : c.Like c') (hpit : pit' = pit) :
    At img k { b with master := m, slave := c, pit := pit } s
      { g with master := m', slave := c', pit := pit' } where
  kernel := h.kernel
  board := by
    have hsame := h.board
    unfold Board.Same at *
    rw [hsame, hpit]
    dsimp only
    rw [← hm.settings, ← hc.settings]
  clock := h.clock
  master_idle := hm.idle
  slave_idle := hc.idle
  quiet := fun hon => absurd (hoff.symm.trans hon) Bool.false_ne_true
  installed := h.installed
  handlers := h.handlers

/-- A write to a device, while no interrupt may come. To the controllers' command ports, it is
    the first word of a set-up. -/
theorem At.write (h : At img k b s g) (hoff : b.interrupts = false) (hport : DevicePort port)
    (hinit : port = pic1Cmd ∨ port = pic2Cmd → v &&& 0x10 ≠ 0) :
    At img k (b.write port v) s (g.write port v) := by
  have hm := h.master_like
  have hc := h.slave_like
  unfold DevicePort at hport
  simp only [List.mem_cons, List.not_mem_nil, or_false] at hport
  rcases hport with rfl | rfl | rfl | rfl | rfl | rfl | rfl
  · exact h.devices hoff (hm.writeCommand (hinit (.inl rfl))) hc h.pit_eq
  · exact h.devices hoff hm.writeData hc h.pit_eq
  · exact h.devices hoff hm (hc.writeCommand (hinit (.inr rfl))) h.pit_eq
  · exact h.devices hoff hm hc.writeData h.pit_eq
  · exact h.devices hoff hm hc (congrArg (PitCounter.writeCount · v) h.pit_eq)
  · exact h.devices hoff hm hc (congrArg (PitCounter.writeControl · v) h.pit_eq)
  · exact h

theorem Line.elapses {u u' : Uart16550} (h : Line prompt out (some u)) (he : u.Elapses u') :
    Line prompt out (some u') := by
  obtain ⟨u₀, hu₀, hop, hwaits, hqueued⟩ := h
  cases hu₀
  obtain ⟨hset, hsame⟩ := he.settings
  exact ⟨u', rfl, hset.symm ▸ hop, hsame.trans hwaits,
    fun hp => (he.queued (Uart16550.not_loopback hop)).trans (hqueued hp)⟩

theorem Online.elapses {g₁ : Board} (h : Online img prompt k b out s g) (he : g.Elapses g₁) :
    Online img prompt k b out s g₁ := by
  obtain ⟨hat, hline⟩ := h
  unfold Board.Elapses at he
  cases hu : g.uart with
  | none =>
    rw [hu] at he
    cases he
    exact ⟨hat, hline⟩
  | some u =>
    rw [hu] at he
    obtain ⟨u', hu', rfl⟩ := he
    refine ⟨hat.uart (some u'), fun hk => ?_⟩
    have hready := hline hk
    rw [hu] at hready
    exact hready.elapses hu'

theorem Board.uart_write (hport : DevicePort port) (b : Board) (v : UInt8) :
    (b.write port v).uart = b.uart := by
  unfold DevicePort at hport
  simp only [List.mem_cons, List.not_mem_nil, or_false] at hport
  rcases hport with rfl | rfl | rfl | rfl | rfl | rfl | rfl <;> rfl

theorem Board.write_uart (hport : DevicePort port) (b : Board) (v : UInt8)
    (o : Option Uart16550) :
    ({ b with uart := o } : Board).write port v = { b.write port v with uart := o } := by
  unfold DevicePort at hport
  simp only [List.mem_cons, List.not_mem_nil, or_false] at hport
  rcases hport with rfl | rfl | rfl | rfl | rfl | rfl | rfl <;> rfl

/-- A write to a device, while no interrupt may come. -/
theorem Online.outb_wp (h : Online img prompt k b out s g) (hoff : b.interrupts = false)
    (hport : DevicePort port) (hinit : port = pic1Cmd ∨ port = pic2Cmd → v &&& 0x10 ≠ 0)
    {Q : Unit → Kernel → Board → Prop}
    (hnext : ∀ s' g', Online img prompt k (b.write port v) out s' g' → Q () s' g') :
    (issue (.outb port v)).wp (hardware img prompt) R Q s g := by
  refine h.issue_wp (Or.inr hport) fun _ s₁ g₁ s' g' h₁ _ hanswer => ?_
  obtain ⟨rfl, g₂, helapses, rfl⟩ := hanswer
  obtain ⟨hat, hline⟩ := h₁.elapses helapses
  refine hnext _ _ ⟨?_, ?_⟩
  · rw [Board.uart_write hport, ← Board.write_uart hport]
    exact hat.write hoff hport hinit
  · rw [Board.uart_write hport]
    exact hline

/-- The mask of the controller at a data port. -/
def Board.mask (b : Board) (port : UInt16) : UInt8 :=
  if port = pic1Data then b.master.imr else b.slave.imr

theorem dataPort (hport : port ∈ [pic1Data, pic2Data]) :
    DevicePort port ∧ ¬InCom1 port ∧ ¬(port = pic1Cmd ∨ port = pic2Cmd) := by
  simp only [List.mem_cons, List.not_mem_nil, or_false] at hport
  rcases hport with rfl | rfl <;> decide

/-- A read of a controller's mask. -/
theorem Online.inb_wp (h : Online img prompt k b out s g) (hport : port ∈ [pic1Data, pic2Data])
    {Q : UInt8 → Kernel → Board → Prop}
    (hnext : ∀ s' g', Online img prompt k b out s' g' → Q (b.mask port) s' g') :
    (issue (.inb port)).wp (hardware img prompt) R Q s g := by
  obtain ⟨hdevice, hcom1, -⟩ := dataPort hport
  refine h.issue_wp (Or.inr hdevice) fun v s₁ g₁ s' g' h₁ _ hanswer => ?_
  obtain ⟨rfl, ⟨g₂, helapses, hreads⟩, -⟩ := hanswer
  have h₂ := h₁.elapses helapses
  unfold Board.Reads at hreads
  rw [if_neg hcom1] at hreads
  obtain ⟨hread₁, hread₂, rfl⟩ := hreads
  have hmask : v = b.mask port := by
    simp only [List.mem_cons, List.not_mem_nil, or_false] at hport
    obtain rfl | rfl := hport
    · rw [hread₁ rfl, h₂.at_board.board]
      rfl
    · rw [hread₂ rfl, h₂.at_board.board]
      rfl
  rw [hmask]
  exact hnext _ _ h₂

/-- Opening a line, while no interrupt may come. -/
theorem clearMask_wp (h : Online img prompt k b out s g) (hoff : b.interrupts = false)
    (hport : port ∈ [pic1Data, pic2Data]) (bit : UInt8) {Q : Unit → Kernel → Board → Prop}
    (hnext : ∀ s' g',
      Online img prompt k (b.write port (PicChip.clearBit (b.mask port) bit)) out s' g' →
      Q () s' g') : (clearMask port bit).wp (hardware img prompt) R Q s g := by
  obtain ⟨hdevice, -, hcmd⟩ := dataPort hport
  exact wp_bind (h.inb_wp hport fun s₁ g₁ h₁ =>
    h₁.outb_wp hoff hdevice (fun h' => absurd h' hcmd) hnext)

/-- `pic_unmask` opens the line, and for a line of the slave the cascade. -/
theorem picUnmask_wp (h : Online img prompt k b out s g) (hoff : b.interrupts = false)
    (irq : UInt8) {Q : Unit → Kernel → Board → Prop}
    (hnext : ∀ s' g', Online img prompt k
      (if irq < 8 then { b with master := b.master.writeData (b.master.openMask irq) }
      else { b with
        master := b.master.writeData (b.master.openMask 2)
        slave := b.slave.writeData (b.slave.openMask (irq - 8)) }) out s' g' → Q () s' g') :
    (picUnmask irq).wp (hardware img prompt) R Q s g := by
  refine wp_ite (fun hlow => ?_) fun hhigh => ?_
  · rw [if_pos hlow] at hnext
    exact clearMask_wp h hoff (by decide) irq hnext
  · rw [if_neg hhigh] at hnext
    refine wp_bind (clearMask_wp h hoff (by decide) _ fun s₁ g₁ h₁ => ?_)
    exact clearMask_wp h₁ hoff (by decide) 2 hnext

/-! ## The set-up -/

/-- A controller that has been set up, with all lines masked. -/
def maskedPic (offset cascade : UInt8) : PicChip where
  core := ⟨0, 0, false⟩
  imr := 0xFF
  offset := offset
  cascade := cascade
  mode := 1
  stage := .operating

/-- The controllers behind `pic_init`. -/
def Board.remapped (b : Board) : Board :=
  { b with master := maskedPic 0x20 4, slave := maskedPic 0x28 2 }

theorem ioWait_wp (h : Online img prompt k b out s g) (hoff : b.interrupts = false)
    {Q : Unit → Kernel → Board → Prop}
    (hnext : ∀ s' g', Online img prompt k b out s' g' → Q () s' g') :
    ioWait.wp (hardware img prompt) R Q s g :=
  h.outb_wp hoff (by decide) (by decide) hnext

/-- Whatever state the controllers were in, `pic_init` sets them up, without requests and with all
    lines masked. -/
theorem picInit_wp (h : Online img prompt k b out s g) (hoff : b.interrupts = false)
    {Q : Unit → Kernel → Board → Prop}
    (hnext : ∀ s' g', Online img prompt k b.remapped out s' g' → Q () s' g') :
    picInit.wp (hardware img prompt) R Q s g := by
  refine wp_bind (h.outb_wp hoff (by decide) (by decide) fun s₁ g₁ h₁ => ?_)
  refine wp_bind (ioWait_wp h₁ hoff fun s₁ g₁ h₁ => ?_)
  refine wp_bind (h₁.outb_wp hoff (by decide) (by decide) fun s₂ g₂ h₂ => ?_)
  refine wp_bind (ioWait_wp h₂ hoff fun s₂ g₂ h₂ => ?_)
  refine wp_bind (h₂.outb_wp hoff (by decide) (by decide) fun s₃ g₃ h₃ => ?_)
  refine wp_bind (ioWait_wp h₃ hoff fun s₃ g₃ h₃ => ?_)
  refine wp_bind (h₃.outb_wp hoff (by decide) (by decide) fun s₄ g₄ h₄ => ?_)
  refine wp_bind (ioWait_wp h₄ hoff fun s₄ g₄ h₄ => ?_)
  refine wp_bind (h₄.outb_wp hoff (by decide) (by decide) fun s₅ g₅ h₅ => ?_)
  refine wp_bind (ioWait_wp h₅ hoff fun s₅ g₅ h₅ => ?_)
  refine wp_bind (h₅.outb_wp hoff (by decide) (by decide) fun s₆ g₆ h₆ => ?_)
  refine wp_bind (ioWait_wp h₆ hoff fun s₆ g₆ h₆ => ?_)
  refine wp_bind (h₆.outb_wp hoff (by decide) (by decide) fun s₇ g₇ h₇ => ?_)
  refine wp_bind (ioWait_wp h₇ hoff fun s₇ g₇ h₇ => ?_)
  refine wp_bind (h₇.outb_wp hoff (by decide) (by decide) fun s₈ g₈ h₈ => ?_)
  refine wp_bind (ioWait_wp h₈ hoff fun s₈ g₈ h₈ => ?_)
  refine wp_bind (h₈.outb_wp hoff (by decide) (by decide) fun s₉ g₉ h₉ => ?_)
  refine h₉.outb_wp hoff (by decide) (by decide) fun s₁₀ g₁₀ h₁₀ => hnext s₁₀ g₁₀ ?_
  have hmaster : ((((b.master.writeCommand icw1Init).writeData 0x20).writeData 4).writeData
      icw48086).writeData 0xFF = maskedPic 0x20 4 := PicChip.operating b.master (by decide)
  have hslave : ((((b.slave.writeCommand icw1Init).writeData 0x28).writeData 2).writeData
      icw48086).writeData 0xFF = maskedPic 0x28 2 := PicChip.operating b.slave (by decide)
  unfold Board.remapped
  rw [← hmaster, ← hslave]
  exact h₁₀

/-- The board behind `pit_init`. -/
def Board.timed (b : Board) : Board :=
  { b with
    master := b.master.writeData (b.master.openMask 0)
    pit := ((b.pit.writeControl 0x34).writeCount (pitDivisor &&& 0xFF).toUInt8).writeCount
      (pitDivisor >>> 8).toUInt8 }

/-- The kernel's variables are changed, while no interrupt may come. -/
theorem Online.change (h : Online img prompt k b out s g) (hoff : b.interrupts = false)
    (f : Kernel → Kernel) (hsame : k.Same s → (f k).Same (f s)) (hticks : (f s).ticks = s.ticks)
    (hpresent : (f k).present = k.present) : Online img prompt (f k) b out (f s) g := by
  have hon (p : Prop) : b.interrupts = true → p := fun hon =>
    absurd (hoff.symm.trans hon) Bool.false_ne_true
  exact ⟨⟨hsame h.at_board.kernel, h.at_board.board, hticks ▸ h.at_board.clock,
    h.at_board.master_idle, h.at_board.slave_idle, hon _, hon _, hon _⟩,
    fun hk => h.line (hpresent ▸ hk)⟩

/-- A handler is installed, while no interrupt may come. -/
theorem Online.irqInstall (h : Online img prompt k b out s g) (hoff : b.interrupts = false)
    (irq : UInt8) (handler : Option (Handler UInt64)) :
    Online img prompt (k.irqInstall irq handler) b out (s.irqInstall irq handler) g := by
  refine h.change hoff (Kernel.irqInstall irq handler) (fun hsame => ?_) ?_ ?_
  · unfold Kernel.Same at *
    rw [hsame]
    unfold Kernel.irqInstall
    split <;> rfl
  · unfold Kernel.irqInstall
    split <;> rfl
  · unfold Kernel.irqInstall
    split <;> rfl

/-- `pit_init` sets the timer to 100 Hz, whatever it was set to, and opens its line. -/
theorem pitInit_wp (h : Online img prompt k b out s g) (hoff : b.interrupts = false)
    {Q : Unit → Kernel → Board → Prop}
    (hnext : ∀ s' g', Online img prompt (k.irqInstall 0 (some pitIrq)) b.timed out s' g' →
      Q () s' g') : pitInit.wp (hardware img prompt) R Q s g := by
  refine wp_bind (h.outb_wp hoff (by decide) (by decide) fun s₁ g₁ h₁ => ?_)
  refine wp_bind (h₁.outb_wp hoff (by decide) (by decide) fun s₂ g₂ h₂ => ?_)
  refine wp_bind (h₂.outb_wp hoff (by decide) (by decide) fun s₃ g₃ h₃ => ?_)
  refine wp_bind (wp_compute ?_)
  exact picUnmask_wp (h₃.irqInstall hoff 0 (some pitIrq)) hoff 0 hnext

theorem timed_divides (b : Board) : b.timed.pit.Divides pitDivisor :=
  b.pit.divides_program pitDivisor

/-- Of a masked controller, the timer's line is the only one that is open. -/
theorem remapped_timed_opens (b : Board) (i : Fin 8) :
    (b.remapped.timed.master.Opens i ↔ i = timerLine) ∧ ¬b.remapped.timed.slave.Opens i := by
  have hmasked : ∀ offset cascade, ¬(maskedPic offset cascade).Opens i := by
    rintro offset cascade ⟨-, hopen⟩
    change (0xFF : UInt8).toNat.testBit i = false at hopen
    revert i
    decide
  refine ⟨?_, hmasked 0x28 2⟩
  have hopens := PicChip.opens_openMask (p := maskedPic 0x20 4) rfl timerLine i
  exact hopens.trans (or_iff_left (hmasked 0x20 4))

theorem remapped_timed_quiet (b : Board) : b.remapped.timed.Quiet where
  master := ⟨rfl, rfl, rfl, rfl⟩
  slave := ⟨rfl, rfl, rfl, rfl⟩
  master_idle := rfl
  slave_idle := rfl

/-- The first handler of a kernel with none is that of the timer. -/
theorem irqInstall_timer (hnone : k.irqHandlers = fun _ => none) :
    (k.irqInstall 0 (some pitIrq)).irqHandlers = timerHandlers := by
  change Function.update k.irqHandlers timerIrq (some pitIrq) = _
  rw [hnone]
  rfl

/-- From here on interrupts may come. -/
theorem Online.sti_wp (h : Online img prompt k b out s g) (hquiet : b.Quiet)
    (hinstalled : k.Installed img) (hhandlers : k.irqHandlers = timerHandlers)
    {Q : Unit → Kernel → Board → Prop}
    (hnext : ∀ s' g', Online img prompt k { b with interrupts := true } out s' g' → Q () s' g') :
    (issue .sti).wp (hardware img prompt) R Q s g := by
  refine h.issue_wp (h.at_board.kernel.installed hinstalled) fun _ s₁ g₁ s' g' h₁ _ hanswer => ?_
  obtain ⟨rfl, rfl⟩ := hanswer
  refine hnext _ _ ⟨⟨h₁.at_board.kernel, ?_, h₁.at_board.clock, h₁.at_board.master_idle,
    h₁.at_board.slave_idle, fun _ => ⟨hquiet.master, hquiet.slave, hquiet.master_idle,
    hquiet.slave_idle⟩, fun _ => hinstalled, fun _ => hhandlers⟩, h₁.line⟩
  have hsame := h₁.at_board.board
  unfold Board.Same at *
  rw [hsame]

end Devices

/-! ## The wait -/

section Wait

variable {img : KernelImage} {prompt : Bool} {k s : Kernel} {b g : Board} {out : List UInt8}
  {R : KernelEnd → Kernel → Board → Prop} {n : UInt64} {rounds : ℕ}

/-- Unless the counter is about to overflow, the comparison tells whether enough interrupts have
    come. -/
theorem ticks_lt_iff {t₀ t : ℕ} (hle : t₀ ≤ t) (hsmall : t + n.toNat < 2 ^ 64) :
    UInt64.ofNat t < UInt64.ofNat t₀ + n ↔ t < t₀ + n.toNat := by
  have ht : t < 2 ^ 64 := by omega
  have ht₀ : t₀ < 2 ^ 64 := by omega
  rw [UInt64.lt_iff_toNat_lt, UInt64.toNat_add, UInt64.toNat_ofNat_of_lt' ht,
    UInt64.toNat_ofNat_of_lt' ht₀, Nat.mod_eq_of_lt (by omega)]

/-- `timer_ticks` returns how many interrupts of the timer there have been. -/
theorem timerTicks_wp (h : Online img prompt k b out s g) {Q : UInt64 → Kernel → Board → Prop}
    (hnext : ∀ s' g', Online img prompt k b out s' g' → g.timerIrqs ≤ g'.timerIrqs →
      Q (UInt64.ofNat g'.timerIrqs) s' g') : timerTicks.wp (hardware img prompt) R Q s g := by
  refine wp_bind (h.issue_wp trivial fun _ s₁ g₁ s' g' h₁ hle hanswer => wp_compute ?_)
  obtain ⟨rfl, rfl⟩ := hanswer
  rw [h₁.at_board.clock]
  exact hnext _ _ h₁ hle

/-- The processor is halted when the timer will wake it. -/
theorem Online.hlt_wp (h : Online img prompt k b out s g) (hon : b.interrupts = true)
    (hopen : b.master.Opens timerLine) (hpit : b.pit.Divides pitDivisor)
    {Q : Unit → Kernel → Board → Prop}
    (hnext : ∀ s' g', Online img prompt k b out s' g' → g.timerIrqs ≤ g'.timerIrqs →
      (prompt = true → g.timerIrqs < g'.timerIrqs) → Q () s' g') :
    (issue .hlt).wp (hardware img prompt) R Q s g := by
  have hlegal : KernelCall.Legal img s g .hlt := by
    rw [h.at_board.board]
    exact ⟨hon, hopen, hpit⟩
  refine h.issue_wp hlegal fun _ s₁ g₁ s' g' h₁ hle hanswer => ?_
  obtain ⟨hwoken, hprompt⟩ := hanswer
  have hmeanwhile : Meanwhile (s₁, g₁) (s', g') := hwoken.to_reflTransGen
  have hat : At img k { b with uart := g₁.uart } s' g' := h₁.at_board.meanwhile hmeanwhile
  have huart : g'.uart = g₁.uart := hat.uart_eq
  refine hnext s' g' ⟨?_, ?_⟩ (hle.trans hmeanwhile.timerIrqs_le) fun hp =>
    hle.trans_lt (hprompt hp)
  · rw [huart]
    exact hat
  · rw [huart]
    exact h₁.line

/-- The loop. It ends when `n` interrupts of the timer have come since there were `t₀`, unless the
    counter is about to overflow; `P` says that it has enough rounds for that. -/
theorem sleepUntil_wp {t₀ : ℕ} (h : Online img prompt k b out s g) (hon : b.interrupts = true)
    (hopen : b.master.Opens timerLine) (hpit : b.pit.Divides pitDivisor)
    (hstart : t₀ ≤ g.timerIrqs) {P : Prop} (hprompt : P → prompt = true)
    (hleft : P → 0 < rounds ∧ t₀ + n.toNat < g.timerIrqs + rounds ∨
      2 ^ 64 ≤ g.timerIrqs + n.toNat) {Q : Unit → Kernel → Board → Prop}
    (hnext : ∀ s' g', Online img prompt k b out s' g' →
      t₀ + n.toNat ≤ g'.timerIrqs ∨ 2 ^ 64 ≤ g'.timerIrqs + n.toNat → Q () s' g')
    (hwait : ∀ s' g', Online img prompt k b out s' g' →
      (P → 2 ^ 64 ≤ g'.timerIrqs + n.toNat) → R .waiting s' g') :
    (sleepUntil (UInt64.ofNat t₀ + n) rounds).wp (hardware img prompt) R Q s g := by
  induction rounds generalizing s g with
  | zero => exact wp_exit (hwait s g h fun hp => (hleft hp).resolve_left (by omega))
  | succ r ih =>
    refine wp_bind (timerTicks_wp h fun s₁ g₁ h₁ hle₁ => ?_)
    refine wp_ite (fun hbefore => ?_) fun hafter => ?_
    · refine wp_bind (h₁.hlt_wp hon hopen hpit fun s₂ g₂ h₂ hle₂ hwoken => ?_)
      refine ih h₂ (by omega) fun hp => ?_
      by_cases hsmall : g₂.timerIrqs + n.toNat < 2 ^ 64
      · -- the timer has come once more, and not all of its interrupts had come before
        have hnot := (ticks_lt_iff (hstart.trans hle₁) (by omega)).1 hbefore
        have hmore := hwoken (hprompt hp)
        have hrounds := hleft hp
        omega
      · exact Or.inr (by omega)
    · refine wp_pure (hnext s₁ g₁ h₁ ?_)
      by_cases hsmall : g₁.timerIrqs + n.toNat < 2 ^ 64
      · have hdone := (ticks_lt_iff (hstart.trans hle₁) hsmall).not.1 hafter
        omega
      · omega

/-- `sleep_ticks` waits for at least as many interrupts of the timer as it is asked to, and on a
    prompt board takes no more than one round of its loop for each, unless the counter is about
    to overflow. -/
theorem sleepTicks_wp (h : Online img prompt k b out s g) (hon : b.interrupts = true)
    (hopen : b.master.Opens timerLine) (hpit : b.pit.Divides pitDivisor)
    {Q : Unit → Kernel → Board → Prop}
    (hnext : ∀ s' g', Online img prompt k b out s' g' →
      g.timerIrqs + n.toNat ≤ g'.timerIrqs ∨ 2 ^ 64 ≤ g'.timerIrqs + n.toNat → Q () s' g')
    (hwait : ∀ s' g', Online img prompt k b out s' g' →
      (prompt = true → n.toNat < rounds → 2 ^ 64 ≤ g'.timerIrqs + n.toNat) → R .waiting s' g') :
    (sleepTicks rounds n).wp (hardware img prompt) R Q s g := by
  refine wp_bind (timerTicks_wp h fun s₁ g₁ h₁ hle₁ => ?_)
  refine sleepUntil_wp (P := prompt = true ∧ n.toNat < rounds) h₁ hon hopen hpit le_rfl And.left
    (fun hp => Or.inl ?_) (fun s' g' h' hdone => hnext s' g' h' ?_) fun s' g' h' hlate =>
      hwait s' g' h' fun hp hrounds => hlate ⟨hp, hrounds⟩
  · have hrounds := hp.2
    omega
  · omega

end Wait

/-! ## Halts -/

theorem pitInit_within : pitInit.Within halts 0 := by
  have hclear (port : UInt16) (bit : UInt8) : (clearMask port bit).Within halts 0 :=
    within_bind_free (within_issue KernelCall.noConfusion) fun _ =>
      within_issue KernelCall.noConfusion
  refine within_bind_free (within_issue (by decide)) fun _ => ?_
  refine within_bind_free (within_issue (by decide)) fun _ => ?_
  refine within_bind_free (within_issue (by decide)) fun _ => ?_
  refine within_bind_free within_compute fun _ => within_ite (hclear _ _) ?_
  exact within_bind_free (hclear _ _) fun _ => hclear _ _

theorem timerTicks_within : timerTicks.Within halts 0 :=
  within_bind_free (within_issue (by decide)) fun _ => within_compute

/-- Every round of the wait halts the processor once at most. -/
theorem sleepTicks_within (rounds : ℕ) (n : UInt64) :
    (sleepTicks rounds n).Within halts rounds := by
  refine within_bind_free timerTicks_within fun now => ?_
  induction rounds with
  | zero => exact within_exit
  | succ rounds ih =>
    refine within_bind_free timerTicks_within fun _ => within_ite ?_ within_pure
    rw [Nat.add_comm]
    exact within_bind (within_ask (if_pos rfl).le) fun _ => ih

end Sypas
