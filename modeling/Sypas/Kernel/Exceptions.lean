import Sypas.Kernel.IsrEntry
import Sypas.Kernel.PanicDump

/-!
# Exceptions

From the instruction that faults, through the gate, the stub and the dispatcher, to the
text on the serial line.

## Main results

- `Sypas.exception_reported` — the dump shows the registers of the code that has faulted
-/

namespace Sypas

open X86 Interaction Program Ram

theorem stackWords_congr {mem mem' : ℕ → UInt8} {sp : UInt64} {n : ℕ}
    (hroom : sp.toNat + 8 * n < 2 ^ 64) (h : ∀ a, sp.toNat ≤ a → mem' a = mem a) :
    stackWords mem' sp n = stackWords mem sp n := by
  induction n generalizing sp with
  | zero => rfl
  | succ n ih =>
    have hnext : (sp + 8).toNat = sp.toNat + 8 := Word.toNat_add_of_lt (by
      change sp.toNat + 8 < 2 ^ 64
      omega)
    rw [stackWords, stackWords, ih (by omega) fun a ha => h a (by omega), u64At, u64At,
      leNat_congr fun b hlo _ => h b hlo]

section Exceptions

variable {status : Core → UInt64} {code : Code} {isrStubTable : UInt8 → UInt64}
  {isrCommon dispatch ret gdt idt rip : UInt64} {c : Core} {e : X86.Event}

/-- The name of the exception. -/
def exceptionName (vec : UInt8) : String := exceptionNames.toList.getD vec.toNat ""

theorem isrDispatch_exception {σ : Type} {f : InterruptFrame} {vec : UInt8}
    (hf : f.vector = vec.toUInt64) (hvec : vec < 32) (m : Machine σ) :
    isrDispatch f m = .error ⟨exceptionName vec, f⟩ := by
  have hlt : f.vector < 32 := by
    rw [hf]
    exact UInt64.lt_iff_toNat_lt.2 (by
      rw [UInt8.toNat_toUInt64]
      exact UInt8.lt_iff_toNat_lt.1 hvec)
  have hnat : f.vector.toNat = vec.toNat := by
    rw [hf, UInt8.toNat_toUInt64]
  have hsize : vec.toNat < 32 := UInt8.lt_iff_toNat_lt.1 hvec
  rw [isrDispatch, dif_pos hlt]
  have hname : exceptionNames.get ⟨f.vector.toNat, UInt64.lt_iff_toNat_lt.1 hlt⟩ =
      exceptionName vec := by
    unfold exceptionName
    simp [hnat, hsize, Vector.get]
  rw [hname]

/-- An exception that the processor raises in any state reaches the dispatcher, which gives it to
    `panic_with_frame`; and in every run of that on a prompt board with a serial port, the
    dump that is put on the line has the reason, the registers of the code that has
    faulted and the words on its stack, and the kernel stops with interrupts off. -/
theorem exception_reported (htext : IsrText code isrStubTable isrCommon dispatch ret)
    (hidt : KernelIdt idt isrStubTable c) (hgdt : KernelGdt gdt c.mem)
    (hgdtr : c.gdtr = gdtRegister gdt) (herror : e.error.isSome ↔ e.vector ∈ errorVectors)
    (hvec : e.vector < 32) (hroom : 200 ≤ c.rsp.toNat) (hstack : c.rsp.toNat + 64 < 2 ^ 64) :
    ∃ s d, c.interrupt rip e = some s ∧ Reaches status code s ⟨d, dispatch⟩ ∧
      AtDispatch c rip e ret d ∧
      (∀ m : Machine UInt64, isrDispatch (InterruptFrame.at d.mem (d.regs .rdi).toNat) m =
        .error ⟨exceptionName e.vector, isrStub e.vector (interruptedFrame c rip e)⟩) ∧
      ∀ {img : KernelImage} {k ks : Kernel} {b g : Board} {out : List UInt8},
        Online img true k b out ks g → k.present = true → k.sinks.count .serialPutc = 1 →
        k.pmm.ram.mem = d.mem →
        ∀ {trace : List (Interaction.Event Kernel KernelCall KernelCall.Answer)} {g' : Board}
          {r : Except KernelEnd Empty} {s' : Kernel},
          Run (hardware img true) g (panicWithFrame (exceptionName e.vector)
            (isrStub e.vector (interruptedFrame c rip e)) ks) trace g' (.done r s') →
          r = .error (.panickedWithFrame (exceptionName e.vector)
            (isrStub e.vector (interruptedFrame c rip e))) ∧ g'.interrupts = false ∧
          ∃ lines u,
            ShowsNumbers (frameFields (isrStub e.vector (interruptedFrame c rip e))) lines ∧
            g'.uart = some u ∧ u.queued = out ++ (textBytes
              (framePanicText (literal (exceptionName e.vector)).chars lines
                (stackWords c.mem c.rsp 8))).flatMap crlf := by
  obtain ⟨s, d, hs, hreach, hat⟩ :=
    interrupt_reaches_dispatch htext hidt hgdt hgdtr herror hroom
  refine ⟨s, d, hs, hreach, hat, fun m => ?_, ?_⟩
  · rw [hat.frame]
    exact isrDispatch_exception rfl hvec m
  · intro img k ks b g out hon hpresent hsinks hmem trace g' r s' hrun
    set f := isrStub e.vector (interruptedFrame c rip e) with hf
    have hend := hrun.result (panicWithFrame_wp (Q := fun _ _ _ => False)
      (R := fun e' s' g' => e' = .panickedWithFrame (exceptionName e.vector) f ∧
        ∃ lines, ShowsNumbers (frameFields f) lines ∧
          Logged img true k.alerted b.quieted out (framePanicText
            (literal (exceptionName e.vector)).chars lines (stackWords k.pmm.ram.mem f.rsp 8))
            s' g') hon fun lines s' g' hlines hlog => ⟨rfl, lines, hlines, hlog⟩)
    cases r with
    | ok a => exact hend.elim
    | error e' =>
      obtain ⟨rfl, lines, hlines, hlog⟩ := hend
      obtain ⟨u, hu, -, hqueued⟩ := hlog.serial hpresent hsinks
      have hwords : stackWords k.pmm.ram.mem f.rsp 8 = stackWords c.mem c.rsp 8 := by
        rw [hmem]
        exact stackWords_congr hstack fun a ha => hat.outside a (Or.inr ha)
      rw [hwords] at hqueued
      refine ⟨rfl, ?_, lines, u, hlines, hu, hqueued⟩
      rw [hlog.at_board.board]
      rfl

end Exceptions

/-- An invalid opcode at 0x5000, and the panic that it ends in. -/
theorem exception_reported_invalid :
    ∃ s d trace g' s' lines u, runningCore.interrupt 0x5000 ⟨6, none, true⟩ = some s ∧
      Reaches (fun _ => 0) isrTextAt s ⟨d, 0x4000⟩ ∧
      (∀ m : Machine UInt64, isrDispatch (InterruptFrame.at d.mem (d.regs .rdi).toNat) m =
        .error ⟨"#UD invalid opcode",
          isrStub 6 (interruptedFrame runningCore 0x5000 ⟨6, none, true⟩)⟩) ∧
      Run (hardware ⟨0x8000, 0x8100, 0x6000, 0x8200, isrStubAt⟩ true) wiredBoard
        ((panicWithFrame "#UD invalid opcode" (isrStub 6
          (interruptedFrame runningCore 0x5000 ⟨6, none, true⟩)) : KernelM Empty) (wiredKernel d))
        trace g' (.done (.error (.panickedWithFrame "#UD invalid opcode" (isrStub 6
          (interruptedFrame runningCore 0x5000 ⟨6, none, true⟩)))) s') ∧
      g'.interrupts = false ∧ g'.uart = some u ∧
      ShowsNumbers
        (frameFields (isrStub 6 (interruptedFrame runningCore 0x5000 ⟨6, none, true⟩))) lines ∧
      u.queued = (textBytes (framePanicText (literal "#UD invalid opcode").chars lines
        (stackWords runningCore.mem runningCore.rsp 8))).flatMap crlf := by
  obtain ⟨hidt, hsegs⟩ := runningCore_installed
  have hroom : 200 ≤ runningCore.rsp.toNat ∧ runningCore.rsp.toNat + 64 < 2 ^ 64 := by
    change 200 ≤ 0x5008 ∧ 0x5008 + 64 < 2 ^ 64
    decide
  have herror : (⟨6, none, true⟩ : X86.Event).error.isSome ↔
      (⟨6, none, true⟩ : X86.Event).vector ∈ errorVectors := by decide
  have hvec : (⟨6, none, true⟩ : X86.Event).vector < 32 := by decide
  obtain ⟨s, d, hs, hd, -, hdispatch, hreport⟩ := exception_reported isrText_isrTextAt hidt
    hsegs.table hsegs.gdtr herror hvec hroom.1 hroom.2
  have hon := wired_online ⟨0x8000, 0x8100, 0x6000, 0x8200, isrStubAt⟩ d
  obtain ⟨trace, g', r, s', hrun⟩ := panicWithFrame_exists_run Empty hon "#UD invalid opcode"
    (isrStub 6 (interruptedFrame runningCore 0x5000 ⟨6, none, true⟩))
  obtain ⟨rfl, hoff, lines, u, hlines, hu, hqueued⟩ := hreport hon rfl rfl rfl hrun
  exact ⟨s, d, trace, g', s', lines, u, hs, hd, hdispatch, hrun, hoff, hu, hlines, hqueued⟩

end Sypas
