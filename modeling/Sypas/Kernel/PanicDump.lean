import Sypas.Kernel.KprintfFields

/-!
# Panic and diagnostic dump (`kernel/debug/panic.c`)

## Main definitions

- `Sypas.panic`, `Sypas.panicWithFrame` — the two ways to stop the kernel

## Main results

- `Sypas.panic_wp` — a panic reports its reason and ends with interrupts off
- `Sypas.panicWithFrame_wp` — so does a panic for an interrupted frame
-/

namespace Sypas

open Interaction Program Ram

/-! ## The code -/

/-- What every panic does first: `cli`, the alert colors and the banner. -/
def panicBanner : KernelM Unit := do
  issue .cli
  compute fun s => ((), { s with fbcon := fbconSetColors 0x00FFB4AB 0x00330A0A s.fbcon })
  kprintf "\n================ SYPAS KERNEL PANIC ================\n" []

/-- `panic`. `halt_forever` is the end of the run. -/
def panic {α : Type} (fmt : String) (ap : List Arg) : KernelM α := do
  panicBanner
  kprintf "reason : " []
  kprintf fmt ap
  kprintf "\nSYSTEM STATUS: HALTED\n" []
  kprintf "====================================================\n" []
  exit (.panicked fmt ap)

/-- The loop over the stack window, for the next `n` words from `sp` on. -/
def dumpStack (sp : UInt64) : ℕ → KernelM Unit
  | 0 => pure ()
  | n + 1 => do
    let word ← compute fun s => (u64At s.pmm.ram.mem sp.toNat, s)
    kprintf " %016lx" [.long word]
    dumpStack (sp + 8) n

/-- `dump_frame`. -/
def dumpFrame (f : InterruptFrame) : KernelM Unit := do
  let cr0 : UInt64 ← issue (.readCr .cr0)
  let cr2 : UInt64 ← issue (.readCr .cr2)
  let cr3 : UInt64 ← issue (.readCr .cr3)
  let cr4 : UInt64 ← issue (.readCr .cr4)
  kprintf "vector=%lu error=0x%lx\n" [.long f.vector, .long f.errorCode]
  kprintf "RIP=%016lx CS=%04lx RFLAGS=%016lx\n" [.long f.rip, .long f.cs, .long f.rflags]
  kprintf "RSP=%016lx SS=%04lx\n" [.long f.rsp, .long f.ss]
  kprintf "RAX=%016lx RBX=%016lx RCX=%016lx\n" [.long f.rax, .long f.rbx, .long f.rcx]
  kprintf "RDX=%016lx RSI=%016lx RDI=%016lx\n" [.long f.rdx, .long f.rsi, .long f.rdi]
  kprintf "RBP=%016lx R8 =%016lx R9 =%016lx\n" [.long f.rbp, .long f.r8, .long f.r9]
  kprintf "R10=%016lx R11=%016lx R12=%016lx\n" [.long f.r10, .long f.r11, .long f.r12]
  kprintf "R13=%016lx R14=%016lx R15=%016lx\n" [.long f.r13, .long f.r14, .long f.r15]
  kprintf "CR0=%016lx CR2=%016lx\nCR3=%016lx CR4=%016lx\n" [.long cr0, .long cr2, .long cr3,
    .long cr4]
  kprintf "stack:" []
  dumpStack f.rsp 8
  kprintf "\n" []

/-- `panic_with_frame`. -/
def panicWithFrame {α : Type} (reason : String) (f : InterruptFrame) : KernelM α := do
  panicBanner
  kprintf "reason : %s\n" [.str (some (literal reason))]
  dumpFrame f
  kprintf "SYSTEM STATUS: HALTED\n" []
  kprintf "====================================================\n" []
  exit (.panickedWithFrame reason f)

/-! ## Panics -/

/-- The kernel behind the change of colors. -/
def Kernel.alerted (k : Kernel) : Kernel :=
  { k with fbcon := fbconSetColors 0x00FFB4AB 0x00330A0A k.fbcon }

/-- The board with interrupts off. -/
def Board.quieted (b : Board) : Board := { b with interrupts := false }

def bannerText : List Char := "\n================ SYPAS KERNEL PANIC ================\n".toList

def haltedText : List Char :=
  "SYSTEM STATUS: HALTED\n".toList ++
  "====================================================\n".toList

section Panic

variable {img : KernelImage} {prompt : Bool} {k s : Kernel} {b g : Board} {out : List UInt8}
  {R : KernelEnd → Kernel → Board → Prop}

/-- `cli` -/
theorem Online.cli_wp (h : Online img prompt k b out s g) {Q : Unit → Kernel → Board → Prop}
    (hnext : ∀ s' g', Online img prompt k b.quieted out s' g' → Q () s' g') :
    (issue .cli).wp (hardware img prompt) R Q s g := by
  refine h.issue_wp trivial fun _ s₁ g₁ s' g' h₁ _ hanswer => ?_
  obtain ⟨rfl, rfl⟩ := hanswer
  have hoff (p : Prop) : b.quieted.interrupts = true → p := fun hon =>
    absurd hon Bool.false_ne_true
  refine hnext _ _ ⟨⟨h₁.at_board.kernel, ?_, h₁.at_board.clock, h₁.at_board.master_idle,
    h₁.at_board.slave_idle, hoff _, hoff _, hoff _⟩, h₁.line⟩
  have hsame := h₁.at_board.board
  unfold Board.Same Board.quieted at *
  rw [hsame]

theorem panicBanner_wp (h : Online img prompt k b out s g) {Q : Unit → Kernel → Board → Prop}
    (hnext : ∀ s' g', Logged img prompt k.alerted b.quieted out bannerText s' g' → Q () s' g') :
    panicBanner.wp (hardware img prompt) R Q s g := by
  refine wp_bind (h.cli_wp fun s₁ g₁ h₁ => wp_bind (wp_compute ?_))
  refine Logged.kprintf_plain (Online.logged (k := k.alerted) ?_) rfl hnext
  refine h₁.store ?_ rfl (fun hk => ⟨hk.idt, hk.segments⟩) rfl rfl
  have hsame := h₁.at_board.kernel
  unfold Kernel.Same Kernel.alerted at *
  rw [hsame]

/-- A panic reports its reason and stops with interrupts off. -/
theorem panic_wp {α : Type} {fmt : String} {ap : List Arg} (h : Online img prompt k b out s g)
    (hkinds : formatKinds fmt = some (ap.map Arg.kind)) {Q : α → Kernel → Board → Prop}
    (hend : ∀ reason s' g', kvprintf (literal fmt) ap = .ok reason →
      Logged img prompt k.alerted b.quieted out
        (bannerText ++ "reason : ".toList ++ reason ++ ['\n'] ++ haltedText) s' g' →
      R (.panicked fmt ap) s' g') : (panic fmt ap).wp (hardware img prompt) R Q s g := by
  refine wp_bind (panicBanner_wp h fun s₁ g₁ h₁ => ?_)
  refine wp_bind (h₁.kprintf_plain rfl fun s₂ g₂ h₂ => ?_)
  refine wp_bind (h₂.kprintf_wp hkinds fun reason s₃ g₃ hreason h₃ => ?_)
  refine wp_bind (h₃.kprintf_plain rfl fun s₄ g₄ h₄ => ?_)
  refine wp_bind (h₄.kprintf_plain rfl fun s₅ g₅ h₅ => wp_exit (hend reason s₅ g₅ hreason ?_))
  rw [List.append_assoc _ (String.toList _) (String.toList _)] at h₅
  rw [List.append_assoc _ ['\n']]
  exact h₅

/-- A panic waits for nothing. -/
theorem panic_within {α : Type} (fmt : String) (ap : List Arg) :
    (panic fmt ap : KernelM α).Within halts 0 := by
  have hbanner : panicBanner.Within halts 0 :=
    within_bind_free (within_issue (by decide)) fun _ =>
      within_bind_free within_compute fun _ => kprintf_within _ _
  refine within_bind_free hbanner fun _ => within_bind_free (kprintf_within _ _) fun _ => ?_
  refine within_bind_free (kprintf_within _ _) fun _ => ?_
  refine within_bind_free (kprintf_within _ _) fun _ => ?_
  exact within_bind_free (kprintf_within _ _) fun _ => within_exit

/-! ## The dump of a frame -/

/-- The numbers that a dump shows. -/
def frameFields (f : InterruptFrame) : List NumberField :=
  [("vector=".toList, 10, f.vector), (" error=0x".toList, 16, f.errorCode),
    ("RIP=".toList, 16, f.rip), (" CS=".toList, 16, f.cs), (" RFLAGS=".toList, 16, f.rflags),
    ("RSP=".toList, 16, f.rsp), (" SS=".toList, 16, f.ss),
    ("RAX=".toList, 16, f.rax), (" RBX=".toList, 16, f.rbx), (" RCX=".toList, 16, f.rcx),
    ("RDX=".toList, 16, f.rdx), (" RSI=".toList, 16, f.rsi), (" RDI=".toList, 16, f.rdi),
    ("RBP=".toList, 16, f.rbp), (" R8 =".toList, 16, f.r8), (" R9 =".toList, 16, f.r9),
    ("R10=".toList, 16, f.r10), (" R11=".toList, 16, f.r11), (" R12=".toList, 16, f.r12),
    ("R13=".toList, 16, f.r13), (" R14=".toList, 16, f.r14), (" R15=".toList, 16, f.r15)]

/-- `%016lx` -/
def hexText (v : UInt64) : List Char := fieldText ⟨true, 16, 1⟩ 16 false v

/-- The `n` words from `sp` on, with the addresses wrapping. -/
def stackWords (mem : ℕ → UInt8) (sp : UInt64) : ℕ → List UInt64
  | 0 => []
  | n + 1 => u64At mem sp.toNat :: stackWords mem (sp + 8) n

/-- The stack window of a dump. -/
def windowText (words : List UInt64) : List Char :=
  "stack:".toList ++ words.flatMap (fun w => ' ' :: hexText w) ++ ['\n']

variable {text : List Char}

theorem dumpStack_wp (h : Logged img prompt k b out text s g) (sp : UInt64) (n : ℕ)
    {Q : Unit → Kernel → Board → Prop}
    (hnext : ∀ s' g', Logged img prompt k b out
      (text ++ (stackWords k.pmm.ram.mem sp n).flatMap fun w => ' ' :: hexText w) s' g' →
      Q () s' g') : (dumpStack sp n).wp (hardware img prompt) R Q s g := by
  induction n generalizing s g text sp with
  | zero =>
    refine wp_pure (hnext s g ?_)
    rw [stackWords, List.flatMap_nil, List.append_nil]
    exact h
  | succ n ih =>
    have hmem : s.pmm = k.pmm := by
      rw [h.at_board.kernel]
      rfl
    have hpieces : pieces " %016lx" = some [.char ' ', .conv ⟨true, 16, 1⟩ 'x'] := rfl
    have hword : kvprintf (literal " %016lx") [.long (u64At k.pmm.ram.mem sp.toNat)] =
        .ok (' ' :: hexText (u64At k.pmm.ram.mem sp.toNat)) := by
      rw [kvprintf_eq_render hpieces, render, render, convert_hex (.inl rfl) rfl]
      change Except.ok (' ' :: (hexText _ ++ [])) = _
      rw [List.append_nil]
      rfl
    refine wp_bind (wp_compute (wp_bind ?_))
    rw [hmem]
    refine h.kprintf_text hword fun s₁ g₁ h₁ => ih h₁ (sp + 8) fun s₂ g₂ h₂ => hnext s₂ g₂ ?_
    rw [stackWords, List.flatMap_cons, ← List.append_assoc]
    exact h₂

/-- The dump shows the whole frame, and the words on the interrupted stack. -/
theorem dumpFrame_wp (h : Logged img prompt k b out text s g) (f : InterruptFrame)
    {Q : Unit → Kernel → Board → Prop}
    (hnext : ∀ lines s' g', ShowsNumbers (frameFields f) lines →
      Logged img prompt k b out
        (text ++ lines ++ windowText (stackWords k.pmm.ram.mem f.rsp 8)) s' g' → Q () s' g') :
    (dumpFrame f).wp (hardware img prompt) R Q s g := by
  refine wp_bind (Online.issue_wp h trivial fun cr0 _ _ s₁ g₁ h₁ _ ha => ?_)
  obtain ⟨rfl, rfl⟩ := ha
  refine wp_bind (Online.issue_wp h₁ trivial fun cr2 _ _ s₂ g₂ h₂ _ ha => ?_)
  obtain ⟨rfl, rfl⟩ := ha
  refine wp_bind (Online.issue_wp h₂ trivial fun cr3 _ _ s₃ g₃ h₃ _ ha => ?_)
  obtain ⟨rfl, rfl⟩ := ha
  refine wp_bind (Online.issue_wp h₃ trivial fun cr4 _ _ s₄ g₄ h₄ _ ha => ?_)
  obtain ⟨rfl, rfl⟩ := ha
  replace h₄ : Logged img prompt k b out text _ _ := h₄
  refine wp_bind (h₄.kprintf_shows rfl rfl fun t₁ s₁ g₁ hf₁ h₁ => ?_)
  refine wp_bind (h₁.kprintf_shows rfl rfl fun t₂ s₂ g₂ hf₂ h₂ => ?_)
  refine wp_bind (h₂.kprintf_shows rfl rfl fun t₃ s₃ g₃ hf₃ h₃ => ?_)
  refine wp_bind (h₃.kprintf_shows rfl rfl fun t₄ s₄ g₄ hf₄ h₄ => ?_)
  refine wp_bind (h₄.kprintf_shows rfl rfl fun t₅ s₅ g₅ hf₅ h₅ => ?_)
  refine wp_bind (h₅.kprintf_shows rfl rfl fun t₆ s₆ g₆ hf₆ h₆ => ?_)
  refine wp_bind (h₆.kprintf_shows rfl rfl fun t₇ s₇ g₇ hf₇ h₇ => ?_)
  refine wp_bind (h₇.kprintf_shows rfl rfl fun t₈ s₈ g₈ hf₈ h₈ => ?_)
  refine wp_bind (h₈.kprintf_wp rfl fun t₉ s₉ g₉ _ h₉ => ?_)
  refine wp_bind (h₉.kprintf_plain rfl fun s₁₀ g₁₀ h₁₀ => ?_)
  refine wp_bind (dumpStack_wp h₁₀ f.rsp 8 fun s₁₁ g₁₁ h₁₁ => ?_)
  refine h₁₁.kprintf_plain rfl fun s₁₂ g₁₂ h₁₂ => ?_
  have hshown : ShowsNumbers (frameFields f) (t₁ ++ t₂ ++ t₃ ++ t₄ ++ t₅ ++ t₆ ++ t₇ ++ t₈) :=
    ((((((hf₁.append hf₂).append hf₃).append hf₄).append hf₅).append hf₆).append hf₇).append hf₈
  refine hnext (t₁ ++ t₂ ++ t₃ ++ t₄ ++ t₅ ++ t₆ ++ t₇ ++ t₈ ++ t₉) s₁₂ g₁₂ ?_ ?_
  · exact hshown.within [] t₉
  · unfold windowText
    simp only [← List.append_assoc]
    exact h₁₂

/-- The text of a panic for an interrupted frame. -/
def framePanicText (reason lines : List Char) (words : List UInt64) : List Char :=
  bannerText ++ ("reason : ".toList ++ reason ++ ['\n']) ++ lines ++ windowText words ++ haltedText

/-- A panic for an interrupted frame shows its reason and the frame, and stops with interrupts
    off. -/
theorem panicWithFrame_wp {α : Type} {reason : String} {f : InterruptFrame}
    (h : Online img prompt k b out s g) {Q : α → Kernel → Board → Prop}
    (hend : ∀ lines s' g', ShowsNumbers (frameFields f) lines →
      Logged img prompt k.alerted b.quieted out (framePanicText (literal reason).chars lines
        (stackWords k.pmm.ram.mem f.rsp 8)) s' g' → R (.panickedWithFrame reason f) s' g') :
    (panicWithFrame reason f).wp (hardware img prompt) R Q s g := by
  have hpieces : pieces "reason : %s\n" = some ("reason : ".toList.map .char ++
      [.conv ⟨false, 0, 0⟩ 's', .char '\n']) := rfl
  have hreason : kvprintf (literal "reason : %s\n") [.str (some (literal reason))] =
      .ok ("reason : ".toList ++ (literal reason).chars ++ ['\n']) := by
    rw [kvprintf_eq_render hpieces]
    rfl
  refine wp_bind (panicBanner_wp h fun s₁ g₁ h₁ => ?_)
  refine wp_bind (h₁.kprintf_text hreason fun s₂ g₂ h₂ => ?_)
  refine wp_bind (dumpFrame_wp h₂ f fun lines s₃ g₃ hlines h₃ => ?_)
  refine wp_bind (h₃.kprintf_plain rfl fun s₄ g₄ h₄ => ?_)
  refine wp_bind (h₄.kprintf_plain rfl fun s₅ g₅ h₅ => wp_exit (hend lines s₅ g₅ hlines ?_))
  rw [List.append_assoc _ (String.toList _) (String.toList _)] at h₅
  exact h₅

/-- A run of such a panic that comes to its end. -/
theorem panicWithFrame_exists_run (α : Type) (h : Online img prompt k b out s g)
    (reason : String) (f : InterruptFrame) :
    ∃ trace g' r s', Run (hardware img prompt) g (panicWithFrame reason f s) trace g'
      (.done r s' : Interaction Kernel KernelCall KernelCall.Answer (Except KernelEnd α)) := by
  have hwp : (panicWithFrame reason f : KernelM α).wp (hardware img prompt) (fun _ _ _ => True)
      (fun _ _ _ => True) s g := panicWithFrame_wp h fun _ _ _ _ _ => trivial
  exact Interaction.wp.exists_run (hardware_answers img prompt) hwp

end Panic

end Sypas
