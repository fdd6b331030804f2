import Sypas.Kernel.Board

/-!
# The serial port (`kernel/arch/x86_64/serial.c`)

The probe of COM1 and the output of one character. The wait for the transmitter is
bounded, so a character can be lost on a port that never gets ready.

## Main definitions

- `Sypas.serialInit`, `Sypas.serialPutc` — the driver
- `Sypas.Line` — a port that is ready for output

## Main results

- `Sypas.serialInit_wp` — a port that passes the probe is ready, one that does not is not used
- `Sypas.serialPutc_wp` — on a prompt port no character is lost
-/

namespace Sypas

open Interaction Program

/-! ## The driver -/

def regData : UInt16 := 0
def regIer : UInt16 := 1
def regFifo : UInt16 := 2
def regLcr : UInt16 := 3
def regMcr : UInt16 := 4
def regLsr : UInt16 := 5
def regScratch : UInt16 := 7

/-- `serial_init`. -/
def serialInit : KernelM Bool := do
  issue (.outb (com1 + regScratch) 0x5A)
  let scratch : UInt8 ← issue (.inb (com1 + regScratch))
  if scratch ≠ 0x5A then pure false
  else
    issue (.outb (com1 + regIer) 0x00)
    issue (.outb (com1 + regLcr) 0x80)
    issue (.outb (com1 + regData) 0x01)
    issue (.outb (com1 + regIer) 0x00)
    issue (.outb (com1 + regLcr) 0x03)
    issue (.outb (com1 + regFifo) 0xC7)
    issue (.outb (com1 + regMcr) 0x1E)
    issue (.outb (com1 + regData) 0xA5)
    let data : UInt8 ← issue (.inb (com1 + regData))
    if data ≠ 0xA5 then pure false
    else
      issue (.outb (com1 + regMcr) 0x0F)
      compute fun s => (true, { s with present := true })

/-- At most `n` rounds of the wait for the transmitter. -/
def waitThr : ℕ → KernelM Unit
  | 0 => pure ()
  | n + 1 => do
    let lsr : UInt8 ← issue (.inb (com1 + regLsr))
    if lsr &&& 0x20 ≠ 0 then pure ()
    else waitThr n

/-- `serial_putc` for a character other than a line feed, on a port that is present. -/
def serialByte (c : UInt8) : KernelM Unit := do
  waitThr 100000
  issue (.outb (com1 + regData) c)

/-- `serial_putc`. -/
def serialPutc (c : UInt8) : KernelM Unit := do
  let present ← compute fun s => (s.present, s)
  if !present then pure ()
  else
    if c = 10 then serialByte 13
    serialByte c

/-! ## Accesses -/

section Accesses

variable {img : KernelImage} {prompt : Bool} {k s : Kernel} {b g : Board} {u : Uart16550}
  {R : KernelEnd → Kernel → Board → Prop} {port : UInt16}

theorem Board.Same.uart (h : b.Same g) (o : Option Uart16550) :
    Board.Same { b with uart := o } { g with uart := o } := by
  unfold Board.Same at *
  rw [h]

/-- Another state of the serial port. -/
theorem At.uart (h : At img k b s g) (o : Option Uart16550) :
    At img k { b with uart := o } s { g with uart := o } :=
  ⟨h.kernel, h.board.uart o, h.clock, h.master_idle, h.slave_idle,
    fun hon => ⟨(h.quiet hon).master, (h.quiet hon).slave, (h.quiet hon).master_idle,
      (h.quiet hon).slave_idle⟩, h.installed, h.handlers⟩

theorem At.uart_eq (h : At img k b s g) : g.uart = b.uart := by
  rw [h.board]

/-- A write to the serial port. -/
theorem At.outb_com1 (h : At img k b s g) (hu : b.uart = some u) (hport : InCom1 port) (v : UInt8)
    {Q : Unit → Kernel → Board → Prop}
    (hnext : ∀ u₁ s' g', u.Elapses u₁ →
      At img k { b with uart := some (u₁.write (port - com1) v) } s' g' → Q () s' g') :
    (issue (.outb port v)).wp (hardware img prompt) R Q s g := by
  refine h.issue_wp (Or.inl hport) fun _ s₁ g₁ s' g' h₁ _ hanswer => ?_
  obtain ⟨rfl, g₂, helapses, rfl⟩ := hanswer
  unfold Board.Elapses at helapses
  rw [h₁.uart_eq, hu] at helapses
  obtain ⟨u₁, hu₁, rfl⟩ := helapses
  refine hnext u₁ _ _ hu₁ ?_
  unfold Board.write
  rw [if_pos hport]
  exact h₁.uart _

/-- A read from the serial port. -/
theorem At.inb_com1 (h : At img k b s g) (hu : b.uart = some u) (hport : InCom1 port)
    {Q : UInt8 → Kernel → Board → Prop}
    (hnext : ∀ v u₁ u₂ s' g', u.Elapses u₁ → u₁.Reads (port - com1) v u₂ →
      (prompt = true → u₂.tx ≠ [] → u₂.waits < 100000) → At img k { b with uart := some u₂ } s' g' →
      Q v s' g') : (issue (.inb port)).wp (hardware img prompt) R Q s g := by
  refine h.issue_wp (Or.inl hport) fun v s₁ g₁ s' g' h₁ _ hanswer => ?_
  obtain ⟨rfl, ⟨g₂, helapses, hreads⟩, hprompt⟩ := hanswer
  unfold Board.Elapses at helapses
  rw [h₁.uart_eq, hu] at helapses
  obtain ⟨u₁, hu₁, rfl⟩ := helapses
  unfold Board.Reads at hreads
  rw [if_pos hport] at hreads
  obtain ⟨u₂, hu₂, rfl⟩ := hreads
  exact hnext v u₁ u₂ _ _ hu₁ hu₂ (fun hp => hprompt hp u₂ rfl) (h₁.uart _)

/-- Where there is no serial port, a write is lost. -/
theorem At.outb_absent (h : At img k b s g) (hu : b.uart = none) (hport : InCom1 port) (v : UInt8)
    {Q : Unit → Kernel → Board → Prop} (hnext : ∀ s' g', At img k b s' g' → Q () s' g') :
    (issue (.outb port v)).wp (hardware img prompt) R Q s g := by
  refine h.issue_wp (Or.inl hport) fun _ s₁ g₁ s' g' h₁ _ hanswer => ?_
  obtain ⟨rfl, g₂, helapses, rfl⟩ := hanswer
  have hu₁ := h₁.uart_eq.trans hu
  unfold Board.Elapses at helapses
  rw [hu₁] at helapses
  cases helapses
  refine hnext _ _ ?_
  unfold Board.write
  rw [if_pos hport, hu₁]
  change At img k b _ { g₁ with uart := none }
  rw [← hu₁]
  exact h₁

theorem At.inb_absent (h : At img k b s g) (hu : b.uart = none) (hport : InCom1 port)
    {Q : UInt8 → Kernel → Board → Prop} (hnext : ∀ s' g', At img k b s' g' → Q 0xFF s' g') :
    (issue (.inb port)).wp (hardware img prompt) R Q s g := by
  refine h.issue_wp (Or.inl hport) fun v s₁ g₁ s' g' h₁ _ hanswer => ?_
  obtain ⟨rfl, ⟨g₂, helapses, hreads⟩, -⟩ := hanswer
  have hu₁ := h₁.uart_eq.trans hu
  unfold Board.Elapses at helapses
  rw [hu₁] at helapses
  cases helapses
  unfold Board.Reads at hreads
  rw [if_pos hport, hu₁] at hreads
  obtain ⟨rfl, rfl⟩ := hreads
  exact hnext _ _ h₁

end Accesses

/-! ## Output -/

/-- A port in operation that has, on a prompt board, sent `out` or is about to. -/
def Line (prompt : Bool) (out : List UInt8) (o : Option Uart16550) : Prop :=
  ∃ u, o = some u ∧ u.Operating ∧ u.waits = 0 ∧ (prompt = true → u.queued = out)

section Output

variable {img : KernelImage} {prompt : Bool} {k s : Kernel} {b g : Board} {u : Uart16550}
  {R : KernelEnd → Kernel → Board → Prop} {out : List UInt8}

theorem inCom1_regLsr : InCom1 (com1 + regLsr) := by decide

/-- The wait for the transmitter: on a prompt board it ends with an empty transmitter. -/
theorem waitThr_wp {n : ℕ} (h : At img k b s g) (hu : b.uart = some u) (hop : u.Operating)
    (hwaits : prompt = true → u.waits + n = 100000 ∧ u.waits < 100000)
    {Q : Unit → Kernel → Board → Prop}
    (hnext : ∀ u' s' g', u'.Operating → (prompt = true → u'.tx = [] ∧ u'.queued = u.queued) →
      At img k { b with uart := some u' } s' g' → Q () s' g') :
    (waitThr n).wp (hardware img prompt) R Q s g := by
  induction n generalizing s g b u with
  | zero =>
    have hb : { b with uart := some u } = b := by
      rw [← hu]
    refine wp_pure (hnext u s g hop (fun hprompt => ?_) (hb.symm ▸ h))
    have hw := hwaits hprompt
    omega
  | succ n ih =>
    refine wp_bind (h.inb_com1 hu inCom1_regLsr fun v u₁ u₂ s' g' hu₁ hread hprompt₂ h₂ => ?_)
    obtain ⟨hbit, hu₂⟩ : (v &&& 0x20 ≠ 0 ↔ u₁.tx = []) ∧
        u₂ = { u₁ with waits := if u₁.tx = [] then u₁.waits else u₁.waits + 1 } := hread
    obtain ⟨hset, hwaits₁⟩ := hu₁.settings
    have hop₂ : u₂.Operating := by
      rw [hu₂]
      exact hset.symm ▸ hop
    have hqueued : u₂.queued = u.queued := by
      rw [hu₂]
      exact hu₁.queued (Uart16550.not_loopback hop)
    refine wp_ite (fun hempty => ?_) fun hbusy => ?_
    · refine wp_pure (hnext u₂ s' g' hop₂ (fun _ => ⟨?_, hqueued⟩) h₂)
      rw [hu₂]
      exact hbit.1 hempty
    · have htx : ¬u₁.tx = [] := fun hempty => hbusy (hbit.2 hempty)
      refine ih h₂ rfl hop₂ (fun hprompt => ?_) fun u' s'' g'' hop' hdone h' =>
        hnext u' s'' g'' hop' (fun hprompt => ?_) h'
      · have hw := hwaits hprompt
        have hlt := hprompt₂ hprompt (by rw [hu₂]; exact htx)
        have hwaits₂ : u₂.waits = u.waits + 1 := by
          rw [hu₂, ← hwaits₁]
          exact if_neg htx
        omega
      · exact ⟨(hdone hprompt).1, (hdone hprompt).2.trans hqueued⟩

/-- One byte: on a prompt board it finds the transmitter empty. -/
theorem serialByte_wp (h : At img k b s g) (hline : Line prompt out b.uart) (c : UInt8)
    {Q : Unit → Kernel → Board → Prop}
    (hnext : ∀ o s' g', Line prompt (out ++ [c]) o → At img k { b with uart := o } s' g' →
      Q () s' g') : (serialByte c).wp (hardware img prompt) R Q s g := by
  obtain ⟨u, hu, hop, hwaits, hqueued⟩ := hline
  refine wp_bind (waitThr_wp h hu hop (fun _ => by omega) fun u' s' g' hop' hdone h' => ?_)
  refine h'.outb_com1 rfl (by decide) c fun u₁ s'' g'' hu₁ h'' => hnext _ s'' g'' ?_ h''
  have hop₁ : u₁.Operating := hu₁.settings.1.symm ▸ hop'
  have hwrite : u₁.write (com1 + regData - com1) c = u₁.transmit c := Uart16550.write_data hop₁ c
  rw [hwrite]
  refine ⟨_, rfl, ?_, Uart16550.waits_transmit u₁ c, fun hprompt => ?_⟩
  · rw [Uart16550.toUartSettings_transmit]
    exact hop₁
  · obtain ⟨htx, hsame⟩ := hdone hprompt
    have hempty := hu₁.length_tx
    rw [htx, List.length_nil] at hempty
    have hfits : u₁.tx.length < u₁.depth := by
      rw [Uart16550.depth_eq hop₁]
      omega
    rw [Uart16550.queued_transmit hfits, hu₁.queued (Uart16550.not_loopback hop'), hsame,
      hqueued hprompt]

/-- What `serial_putc` puts on the line for a character. -/
def crlf (c : UInt8) : List UInt8 := if c = 10 then [13, 10] else [c]

/-- One character: on a prompt board it is not lost, and a line feed gets a carriage return. A
    port that is not present is not accessed. -/
theorem serialPutc_wp (h : At img k b s g) (hline : k.present = true → Line prompt out b.uart)
    (c : UInt8) {Q : Unit → Kernel → Board → Prop}
    (hnext : ∀ o s' g', (k.present = true → Line prompt (out ++ crlf c) o) →
      (k.present = false → o = b.uart) → At img k { b with uart := o } s' g' → Q () s' g') :
    (serialPutc c).wp (hardware img prompt) R Q s g := by
  have hpresent : s.present = k.present := by
    rw [h.kernel]
  refine wp_bind (wp_compute (wp_ite (fun habsent => ?_) fun hthere => ?_))
  · rw [hpresent] at habsent
    refine wp_pure (hnext b.uart s g (fun hk => ?_) (fun _ => rfl) h)
    rw [hk] at habsent
    cases habsent
  · rw [hpresent, Bool.not_eq_true, Bool.not_eq_false'] at hthere
    have hready := hline hthere
    have hno (o : Option Uart16550) (habsent : k.present = false) : o = b.uart :=
      absurd (habsent.symm.trans hthere) Bool.false_ne_true
    unfold crlf at hnext
    refine wp_ite (fun hc => ?_) fun hc => ?_
    · refine wp_bind (serialByte_wp h hready 13 fun o s' g' hline' h' => ?_)
      refine serialByte_wp h' hline' c fun o' s'' g'' hline'' h'' =>
        hnext o' s'' g'' (fun _ => ?_) (hno o') h''
      rw [if_pos hc, ← hc, ← List.singleton_append, ← List.append_assoc]
      exact hline''
    · refine serialByte_wp h hready c fun o s' g' hline' h' =>
        hnext o s' g' (fun _ => ?_) (hno o) h'
      rwa [if_neg hc]

end Output

/-! ## Halts -/

theorem waitThr_within (n : ℕ) : (waitThr n).Within halts 0 := by
  induction n with
  | zero => exact within_pure
  | succ n ih =>
    exact within_bind_free (within_issue (by decide)) fun _ => within_ite within_pure ih

theorem serialByte_within (c : UInt8) : (serialByte c).Within halts 0 :=
  within_bind_free (waitThr_within _) fun _ => within_issue KernelCall.noConfusion

/-- The output of a character does not halt the processor. -/
theorem serialPutc_within (c : UInt8) : (serialPutc c).Within halts 0 := by
  refine within_bind_free within_compute fun present => within_ite within_pure ?_
  exact within_ite (within_bind_free (serialByte_within 13) fun _ => serialByte_within c)
    (serialByte_within c)

/-! ## The probe -/

section Probe

variable {img : KernelImage} {prompt : Bool} {k s : Kernel} {b g : Board} {u : Uart16550}
  {R : KernelEnd → Kernel → Board → Prop} {port : UInt16}

/-- A write to the serial port, as far as its settings go. -/
theorem At.outb_settings (h : At img k b s g) (hu : b.uart = some u) (hport : InCom1 port)
    (v : UInt8) {Q : Unit → Kernel → Board → Prop}
    (hnext : ∀ u' s' g', u'.toUartSettings = u.toUartSettings.write (port - com1) v →
      (u.waits = 0 ∨ port - com1 = 0 ∧ ¬u.Dlab → u'.waits = 0) →
      At img k { b with uart := some u' } s' g' → Q () s' g') :
    (issue (.outb port v)).wp (hardware img prompt) R Q s g := by
  refine h.outb_com1 hu hport v fun u₁ s' g' hu₁ h' => hnext _ s' g' ?_ ?_ h'
  · rw [Uart16550.toUartSettings_write, hu₁.settings.1]
  · obtain ⟨hset, hwaits⟩ := hu₁.settings
    intro hzero
    unfold Uart16550.write
    by_cases hdata : port - com1 = 0 ∧ ¬u₁.Dlab
    · rw [if_pos hdata, Uart16550.waits_transmit]
    · rw [hset] at hdata
      have hold := hwaits.trans (hzero.resolve_right hdata)
      rw [hset, if_neg hdata]
      split <;> exact hold

/-- The settings that the probe writes, on a port that had `set`. -/
def probed (set : UartSettings) : UartSettings :=
  ((((((((set.write regScratch 0x5A).write regIer 0).write regLcr 0x80).write regData 1).write
    regIer 0).write regLcr 3).write regFifo 0xC7).write regMcr 0x1E).write regMcr 0x0F

/-- Whatever the port was set to, the kernel has set it up. Its interrupts are off, too, unless the
    divisor latch was in front of the interrupt enable register. -/
theorem operating_probed (set : UartSettings) :
    (probed set).Operating ∧ (¬set.Dlab → (probed set).ier = 0) := by
  refine ⟨⟨?_, ?_, ?_, ?_⟩, fun hset => ?_⟩
  · have hfcr : (probed set).fcr = 0xC7 := by
      simp [probed, UartSettings.write, regScratch, regIer, regLcr, regData, regFifo, regMcr]
    rw [hfcr]
    decide
  · simp [probed, UartSettings.write, regScratch, regIer, regLcr, regData, regFifo, regMcr]
  · simp [probed, UartSettings.write, regScratch, regIer, regLcr, regData, regFifo, regMcr]
  · simp [probed, UartSettings.write, UartSettings.Dlab, regScratch, regIer, regLcr, regData,
      regFifo, regMcr]
  · unfold UartSettings.Dlab at hset
    simp [probed, UartSettings.write, UartSettings.Dlab, hset, regScratch, regIer, regLcr, regData,
      regFifo, regMcr]

/-- The probe. A port that passes is ready for output; where there is no port none is found. -/
theorem serialInit_wp (h : At img k b s g) {Q : Bool → Kernel → Board → Prop}
    (hfound : ∀ u u' s' g', b.uart = some u → u'.Operating → (¬u.Dlab → u'.ier = 0) →
      Line prompt u'.queued (some u') →
      At img { k with present := true } { b with uart := some u' } s' g' → Q true s' g')
    (hnone : ∀ o s' g', At img k { b with uart := o } s' g' → Q false s' g') :
    serialInit.wp (hardware img prompt) R Q s g := by
  cases hu : b.uart with
  | none =>
    refine wp_bind (h.outb_absent hu (by decide) _ fun s₁ g₁ h₁ => ?_)
    refine wp_bind (h₁.inb_absent hu (by decide) fun s₂ g₂ h₂ => ?_)
    refine wp_ite (fun _ => wp_pure (hnone none s₂ g₂ ?_)) fun hscratch => ?_
    · rw [← hu]
      exact h₂
    · exact absurd (not_not.1 hscratch) (by decide)
  | some u =>
    refine wp_bind (h.outb_settings hu (by decide) _ fun u₁ s₁ g₁ hset₁ _ h₁ => ?_)
    refine wp_bind (h₁.inb_com1 rfl (by decide) fun v u₂ u₃ s₂ g₂ he₂ hread₂ _ h₂ => ?_)
    refine wp_ite (fun _ => wp_pure (hnone _ s₂ g₂ h₂)) fun _ => ?_
    have hset₂ : u₃.toUartSettings = u.toUartSettings.write regScratch 0x5A := by
      have hsame : u₃ = u₂ := hread₂.2
      rw [hsame, he₂.settings.1, hset₁]
      rfl
    refine wp_bind (h₂.outb_settings rfl (by decide) _ fun u₃ s₃ g₃ hset₃ _ h₃ => ?_)
    refine wp_bind (h₃.outb_settings rfl (by decide) _ fun u₄ s₄ g₄ hset₄ _ h₄ => ?_)
    refine wp_bind (h₄.outb_settings rfl (by decide) _ fun u₅ s₅ g₅ hset₅ _ h₅ => ?_)
    refine wp_bind (h₅.outb_settings rfl (by decide) _ fun u₆ s₆ g₆ hset₆ _ h₆ => ?_)
    refine wp_bind (h₆.outb_settings rfl (by decide) _ fun u₇ s₇ g₇ hset₇ _ h₇ => ?_)
    refine wp_bind (h₇.outb_settings rfl (by decide) _ fun u₈ s₈ g₈ hset₈ _ h₈ => ?_)
    refine wp_bind (h₈.outb_settings rfl (by decide) _ fun u₉ s₉ g₉ hset₉ _ h₉ => ?_)
    refine wp_bind (h₉.outb_settings rfl (by decide) _ fun u₁₀ s₁₀ g₁₀ hset₁₀ hwaits₁₀ h₁₀ => ?_)
    have hchain : u₉.toUartSettings.write regMcr 0x0F = probed u.toUartSettings := by
      rw [hset₉, hset₈, hset₇, hset₆, hset₅, hset₄, hset₃, hset₂]
      rfl
    have hlcr : u₉.lcr = 3 := by
      have hprobed := (operating_probed u.toUartSettings).1.lcr
      rw [← hchain] at hprobed
      exact hprobed
    have hnot : ¬u₉.Dlab := by
      unfold UartSettings.Dlab
      rw [hlcr]
      decide
    -- the byte of the self-test is written where the divisor latch was before
    have hdata : com1 + regData - com1 = 0 := rfl
    have hset : u₁₀.toUartSettings = u₉.toUartSettings := by
      rw [hset₁₀, hdata, UartSettings.write, if_pos rfl, if_neg hnot]
    refine wp_bind (h₁₀.inb_com1 rfl (by decide) fun v u₁₁ u₁₂ s₁₁ g₁₁ he₁₁ hread₁₁ _ h₁₁ => ?_)
    refine wp_ite (fun _ => wp_pure (hnone _ s₁₁ g₁₁ h₁₁)) fun _ => ?_
    have hnot' : ¬u₁₁.Dlab := by
      rw [he₁₁.settings.1, hset]
      exact hnot
    have hread : u₁₂ = { u₁₁ with rx := u₁₁.rx.tail } := by
      unfold Uart16550.Reads at hread₁₁
      rw [hdata, if_pos ⟨rfl, hnot'⟩] at hread₁₁
      exact hread₁₁.2
    have hset₁₂ : u₁₂.toUartSettings = u₉.toUartSettings := by
      rw [hread]
      exact he₁₁.settings.1.trans hset
    have hwaits₁₂ : u₁₂.waits = 0 := by
      rw [hread]
      exact he₁₁.settings.2.trans (hwaits₁₀ (Or.inr ⟨hdata, hnot⟩))
    refine wp_bind (h₁₁.outb_settings rfl (by decide) _ fun u₁₃ s₁₃ g₁₃ hset₁₃ hwaits₁₃ h₁₃ => ?_)
    have hdone : u₁₃.toUartSettings = probed u.toUartSettings := by
      rw [hset₁₃, hset₁₂]
      exact hchain
    obtain ⟨hoperating, hier⟩ := operating_probed u.toUartSettings
    rw [← hdone] at hoperating hier
    refine wp_compute (hfound u u₁₃ _ g₁₃ hu hoperating hier
      ⟨u₁₃, rfl, hoperating, hwaits₁₃ (Or.inl hwaits₁₂), fun _ => rfl⟩ ?_)
    refine h₁₃.store ?_ rfl (fun hk => ⟨hk.idt, hk.segments⟩) rfl
    have hsame := h₁₃.kernel
    unfold Kernel.Same at *
    rw [hsame]

end Probe

end Sypas
