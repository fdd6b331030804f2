import Sypas.Kernel.Tables

/-!
# The interrupt self-tests

The part of `kmain` that raises the test interrupt twice, starts the timer and waits for 25 of
its interrupts.

## Main definitions

- `Sypas.interruptTests` — the code
- `Sypas.TimerAlive` — what the tests leave behind

## Main results

- `Sypas.interruptTests_pass` — every interrupt that comes is handled, and the tests pass
-/

namespace Sypas

open Interaction Program

/-! ## The code -/

/-- `isr_test_hits`, which is volatile. -/
def readTestHits : KernelM UInt64 := do
  issue .boundary
  compute fun s => (s.isrTestHits, s)

/-- The test of the timer in `kmain`, with at most `rounds` rounds of the wait. -/
def timerTest (rounds : ℕ) : KernelM Unit := do
  pitInit
  issue .sti
  let t0 ← timerTicks
  sleepTicks rounds 25
  let now ← timerTicks
  if now - t0 < 25 then
    panic "pit: timer not ticking (delta=%lu)" [.long (now - t0)]
  else
    kprintf "[pit ] 100 Hz timer alive: %lu IRQs in 250 ms window\n" [.long (now - t0)]

/-- The interrupt self-tests of `kmain`. -/
def interruptTests (rounds : ℕ) : KernelM Unit := do
  let hitsBefore ← readTestHits
  issue (.int sypasTestVector.toUInt8)
  issue (.int sypasTestVector.toUInt8)
  let hits ← readTestHits
  if hits ≠ hitsBefore + 2 then
    let hits ← readTestHits
    panic "idt: software interrupt dispatch failed (%lu hits)" [.long hits]
  else
    kprintf "[int ] software interrupt dispatch verified (private vector 0xF0 x2)\n" []
    timerTest rounds

/-! ## The test interrupt -/

section Tests

variable {img : KernelImage} {prompt : Bool} {k s : Kernel} {b g : Board} {out : List UInt8}
  {R : KernelEnd → Kernel → Board → Prop} {rounds : ℕ}

/-- One more hit. -/
def Kernel.hit (k : Kernel) : Kernel := { k with isrTestHits := k.isrTestHits + 1 }

/-- The test interrupt counts a hit and does nothing else. -/
theorem Online.int_wp (h : Online img prompt k b out s g) (hinstalled : k.Installed img)
    {Q : Unit → Kernel → Board → Prop}
    (hnext : ∀ s' g', Online img prompt k.hit b out s' g' → Q () s' g') :
    (issue (.int sypasTestVector.toUInt8)).wp (hardware img prompt) R Q s g := by
  refine h.issue_wp ⟨h.at_board.kernel.installed hinstalled, rfl⟩ fun _ s₁ g₁ s' g' h₁ _ ha => ?_
  obtain ⟨cpu, m, hm, rfl, rfl⟩ := ha
  rw [isrDispatch_test] at hm
  cases hm
  refine hnext _ _ (h₁.store ?_ rfl (fun hk => ⟨hk.idt, hk.segments⟩) rfl rfl)
  have hsame := h₁.at_board.kernel
  unfold Kernel.Same Kernel.hit at *
  rw [hsame]
  rfl

theorem readTestHits_wp (h : Online img prompt k b out s g) {Q : UInt64 → Kernel → Board → Prop}
    (hnext : ∀ s' g', Online img prompt k b out s' g' → Q k.isrTestHits s' g') :
    readTestHits.wp (hardware img prompt) R Q s g := by
  refine wp_bind (h.issue_wp trivial fun _ s₁ g₁ s' g' h₁ _ ha => wp_compute ?_)
  obtain ⟨rfl, rfl⟩ := ha
  have hhits : s'.isrTestHits = k.isrTestHits := by
    rw [h₁.at_board.kernel]
  rw [hhits]
  exact hnext _ _ h₁

/-! ## The test of the timer -/

theorem Kernel.printed_irqInstall (k : Kernel) (text : List UInt8) (irq : UInt8)
    (handler : Option (Handler UInt64)) :
    (k.printed text).irqInstall irq handler = (k.irqInstall irq handler).printed text ∧
      (k.irqInstall irq handler).sinks = k.sinks := by
  unfold Kernel.irqInstall Kernel.printed
  split <;> exact ⟨rfl, rfl⟩

/-- The difference of two readings of the counter. -/
theorem ticks_sub {t₀ t : ℕ} (hle : t₀ ≤ t) (hsmall : t < 2 ^ 64) :
    (UInt64.ofNat t - UInt64.ofNat t₀).toNat = t - t₀ := by
  have ht₀ : t₀ < 2 ^ 64 := by omega
  have hsub : UInt64.ofNat t₀ ≤ UInt64.ofNat t := by
    rw [UInt64.le_iff_toNat_le, UInt64.toNat_ofNat_of_lt' hsmall, UInt64.toNat_ofNat_of_lt' ht₀]
    exact hle
  rw [UInt64.toNat_sub_of_le _ _ hsub, UInt64.toNat_ofNat_of_lt' hsmall,
    UInt64.toNat_ofNat_of_lt' ht₀]

/-- The board behind the test: the timer ticks, and interrupts may come. -/
def Board.ticking (b : Board) : Board := { b.timed with interrupts := true }

/-- The timer is alive, and has been printed to have ticked at least 25 times. -/
def TimerAlive (img : KernelImage) (prompt : Bool) (k : Kernel) (b : Board) (out : List UInt8)
    (text : List Char) (s : Kernel) (g : Board) : Prop :=
  ∃ delta new, 25 ≤ delta ∧ delta.toNat ≤ g.timerIrqs ∧
    ShowsNumbers [("[pit ] 100 Hz timer alive: ".toList, 10, delta)] new ∧
    Logged img prompt (k.irqInstall 0 (some pitIrq)) b.ticking out (text ++ new) s g

variable {text : List Char}

/-- What is printed about two readings of the counter that are 25 interrupts apart. -/
theorem timerReport_wp {t₀ : ℕ}
    (h : Logged img prompt (k.irqInstall 0 (some pitIrq)) b.ticking out text s g)
    (hslept : t₀ + 25 ≤ g.timerIrqs ∨ 2 ^ 64 ≤ g.timerIrqs + 25)
    (hwrap : ∀ e s' g', 2 ^ 64 ≤ g'.timerIrqs + 25 → R e s' g') :
    (if UInt64.ofNat g.timerIrqs - UInt64.ofNat t₀ < 25 then
      panic "pit: timer not ticking (delta=%lu)"
        [.long (UInt64.ofNat g.timerIrqs - UInt64.ofNat t₀)]
    else
      kprintf "[pit ] 100 Hz timer alive: %lu IRQs in 250 ms window\n"
        [.long (UInt64.ofNat g.timerIrqs - UInt64.ofNat t₀)]).wp (hardware img prompt) R
      (fun _ s' g' => 2 ^ 64 ≤ g'.timerIrqs + 25 ∨ TimerAlive img prompt k b out text s' g')
      s g := by
  refine wp_grow hardware_timerIrqs_le (wp_ite (fun hfail => ?_) fun hpass => ?_)
  · refine panic_wp h rfl fun _ s' g' _ _ hle => hwrap _ s' g' ?_
    by_contra hsmall
    have hdelta := ticks_sub (show t₀ ≤ g.timerIrqs by omega) (by omega)
    have hlow := UInt64.lt_iff_toNat_lt.1 hfail
    rw [hdelta] at hlow
    change g.timerIrqs - t₀ < 25 at hlow
    omega
  · refine h.kprintf_shows rfl rfl fun new s' g' hshows h' hle => ?_
    by_cases hsmall : g'.timerIrqs + 25 < 2 ^ 64
    · refine Or.inr ⟨_, new, UInt64.not_lt.1 hpass, ?_, hshows, h'⟩
      rw [ticks_sub (by omega) (by omega)]
      omega
    · exact Or.inl (by omega)

/-- The test of the timer passes. The wait may only be left unfinished when it has too few rounds
    or the timer does not come; all this unless the counter is about to overflow. -/
theorem timerTest_wp (h : Logged img prompt k b out text s g) (hoff : b.interrupts = false)
    (hquiet : b.timed.Quiet) (hopen : b.timed.master.Opens timerLine)
    (hinstalled : k.Installed img) (hnone : k.irqHandlers = fun _ => none) :
    (timerTest rounds).wp (hardware img prompt)
      (fun e _ g' => 2 ^ 64 ≤ g'.timerIrqs + 25 ∨ e = .waiting ∧ (prompt = true → rounds ≤ 25))
      (fun _ s' g' => 2 ^ 64 ≤ g'.timerIrqs + 25 ∨ TimerAlive img prompt k b out text s' g')
      s g := by
  obtain ⟨hprinted, hsinks⟩ := k.printed_irqInstall (textBytes text) 0 (some pitIrq)
  have hinstalled' : (k.irqInstall 0 (some pitIrq)).Installed img :=
    ⟨hinstalled.idt, hinstalled.segments⟩
  refine wp_bind (pitInit_wp h hoff fun s₁ g₁ h₁ => ?_)
  rw [hprinted, ← hsinks] at h₁
  refine wp_bind (h₁.sti_wp hquiet ⟨hinstalled'.idt, hinstalled'.segments⟩
    (irqInstall_timer hnone) fun s₂ g₂ h₂ => ?_)
  refine wp_bind (timerTicks_wp h₂ fun s₃ g₃ h₃ _ => ?_)
  refine wp_bind (sleepTicks_wp h₃ rfl hopen (timed_divides b) (fun s₄ g₄ h₄ hslept => ?_)
    fun s₄ g₄ _ hlate => ?_)
  · refine wp_bind (timerTicks_wp h₄ fun s₅ g₅ h₅ hle => ?_)
    change g₃.timerIrqs + 25 ≤ g₄.timerIrqs ∨ 2 ^ 64 ≤ g₄.timerIrqs + 25 at hslept
    exact timerReport_wp h₅ (by omega) fun _ _ _ => Or.inl
  · by_cases henough : prompt = true ∧ 25 < rounds
    · exact Or.inl (hlate henough.1 henough.2)
    · exact Or.inr ⟨rfl, fun hp => Nat.le_of_not_lt fun hlt => henough ⟨hp, hlt⟩⟩

/-! ## The tests -/

theorem interruptTests_wp (h : Online img prompt k b out s g) (hoff : b.interrupts = false)
    (hmaster : b.master = maskedPic 0x20 4) (hslave : b.slave = maskedPic 0x28 2)
    (hinstalled : k.Installed img) (hnone : k.irqHandlers = fun _ => none) :
    (interruptTests rounds).wp (hardware img prompt)
      (fun e _ g' => 2 ^ 64 ≤ g'.timerIrqs + 25 ∨ e = .waiting ∧ (prompt = true → rounds ≤ 25))
      (fun _ s' g' => 2 ^ 64 ≤ g'.timerIrqs + 25 ∨ TimerAlive img prompt k.hit.hit b out
        "[int ] software interrupt dispatch verified (private vector 0xF0 x2)\n".toList s' g')
      s g := by
  have hremapped : b.remapped = b := by
    unfold Board.remapped
    rw [← hmaster, ← hslave]
  have hquiet : b.timed.Quiet := hremapped ▸ remapped_timed_quiet b
  have hopen : b.timed.master.Opens timerLine := by
    rw [← hremapped]
    exact (remapped_timed_opens b timerLine).1.2 rfl
  refine wp_bind (readTestHits_wp h fun s₁ g₁ h₁ => ?_)
  refine wp_bind (h₁.int_wp hinstalled fun s₂ g₂ h₂ => ?_)
  refine wp_bind (h₂.int_wp ⟨hinstalled.idt, hinstalled.segments⟩ fun s₃ g₃ h₃ => ?_)
  refine wp_bind (readTestHits_wp h₃ fun s₄ g₄ h₄ => wp_ite (fun hfail => ?_) fun _ => ?_)
  · exact absurd (UInt64.add_assoc k.isrTestHits 1 1) hfail
  · refine wp_bind (h₄.logged.kprintf_plain rfl fun s₅ g₅ h₅ => ?_)
    exact timerTest_wp h₅ hoff hquiet hopen ⟨hinstalled.idt, hinstalled.segments⟩ hnone

/-- From the set-up of the tables and the controllers on: in every run of the tests every
    interrupt that comes, at whatever place, is handled, and the tests pass. The wait may only be
    left unfinished when it has too few rounds or the timer does not come. -/
theorem interruptTests_pass (h : Online img prompt k b out s g) (hoff : b.interrupts = false)
    (hmaster : b.master = maskedPic 0x20 4) (hslave : b.slave = maskedPic 0x28 2)
    (hinstalled : k.Installed img) (hnone : k.irqHandlers = fun _ => none)
    {trace : List (Interaction.Event Kernel KernelCall KernelCall.Answer)} {g' : Board}
    {y : Interaction Kernel KernelCall KernelCall.Answer (Except KernelEnd Unit)}
    (hrun : Run (hardware img prompt) g (interruptTests rounds s) trace g' y) :
    (∀ c s' next, y = .call c s' next → Permits img s' g' c) ∧
    ∀ r s', y = .done r s' → g'.timerIrqs + 25 < 2 ^ 64 →
      r = .ok () ∧ TimerAlive img prompt k.hit.hit b out
        "[int ] software interrupt dispatch verified (private vector 0xF0 x2)\n".toList s' g' ∨
      r = .error .waiting ∧ (prompt = true → rounds ≤ 25) := by
  have hwp : (interruptTests rounds).wp _ _ _ s g :=
    interruptTests_wp h hoff hmaster hslave hinstalled hnone
  refine ⟨fun c s' next hy => ?_, fun r s' hy hsmall => ?_⟩
  · subst hy
    exact hrun.guarantee hwp
  · subst hy
    have hend := hrun.result hwp
    cases r with
    | ok a => exact Or.inl ⟨rfl, hend.resolve_left (by omega)⟩
    | error e =>
      obtain hlate | ⟨rfl, hfew⟩ := hend
      · omega
      · exact Or.inr ⟨rfl, hfew⟩

/-- On a board whose timer comes, the tests halt the processor once for each round of the wait at
    most. -/
theorem interruptTests_within (rounds : ℕ) : (interruptTests rounds).Within halts rounds := by
  have hread : readTestHits.Within halts 0 :=
    within_bind_free (within_issue (by decide)) fun _ => within_compute
  have htimer : (timerTest rounds).Within halts rounds := by
    refine within_bind_free pitInit_within fun _ => ?_
    refine within_bind_free (within_issue (by decide)) fun _ => ?_
    refine within_bind_free timerTicks_within fun t0 => ?_
    refine within_bind (n := 0) (sleepTicks_within rounds 25) fun _ => ?_
    refine within_bind_free timerTicks_within fun now => ?_
    exact within_ite (panic_within _ _) (kprintf_within _ _)
  refine within_bind_free hread fun _ => ?_
  refine within_bind_free (within_issue (by decide)) fun _ => ?_
  refine within_bind_free (within_issue (by decide)) fun _ => ?_
  refine within_bind_free hread fun _ => within_ite ?_ ?_
  · exact (within_bind_free hread fun _ => panic_within _ _).mono (Nat.zero_le rounds)
  · exact within_bind_free (kprintf_within _ _) fun _ => htimer

/-- A run of the tests that comes to its end, in which the timer has only come when the kernel has
    waited for it. -/
theorem interruptTests_exists_run (rounds : ℕ) (h : Online img prompt k b out s g)
    (hoff : b.interrupts = false) (hmaster : b.master = maskedPic 0x20 4)
    (hslave : b.slave = maskedPic 0x28 2) (hinstalled : k.Installed img)
    (hnone : k.irqHandlers = fun _ => none) :
    ∃ trace g' r s', Run (hardware img prompt) g (interruptTests rounds s) trace g' (.done r s') ∧
      g'.timerIrqs ≤ g.timerIrqs + rounds := by
  have hwp : (interruptTests rounds).wp _ _ _ s g :=
    interruptTests_wp h hoff hmaster hslave hinstalled hnone
  exact Interaction.wp.exists_run_within (hardware_answers img prompt) hwp
    (interruptTests_within rounds s)

end Tests

/-! ## A kernel at its tests -/

/-- Behind the set-up, the tests run to their end, when the timer has ticked 25 times at least. -/
theorem interruptTests_pass_running :
    ∃ trace g' s', Run (hardware tablesImage true) wiredBoard.remapped
        (interruptTests 26 (wiredKernel runningCore)) trace g' (.done (.ok ()) s') ∧
      TimerAlive tablesImage true (wiredKernel runningCore).hit.hit wiredBoard.remapped []
        "[int ] software interrupt dispatch verified (private vector 0xF0 x2)\n".toList s' g' := by
  obtain ⟨hidt, hsegs⟩ := runningCore_installed
  have hinstalled : (wiredKernel runningCore).Installed tablesImage := wired_installed hidt hsegs
  have hon : Online tablesImage true (wiredKernel runningCore) wiredBoard.remapped []
      (wiredKernel runningCore) wiredBoard.remapped := .start rfl rfl fun _ => wired_line
  obtain ⟨trace, g', r, s', hrun, hle⟩ :=
    interruptTests_exists_run 26 hon rfl rfl rfl hinstalled rfl
  change g'.timerIrqs ≤ 0 + 26 at hle
  obtain ⟨rfl, halive⟩ | ⟨-, hfew⟩ :=
    (interruptTests_pass hon rfl rfl rfl hinstalled rfl hrun).2 r s' rfl (by omega)
  · exact ⟨trace, g', s', hrun, halive⟩
  · exact absurd (hfew rfl) (by decide)

end Sypas
