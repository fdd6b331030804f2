import Sypas.Kernel.IsrEntry
import Sypas.Kernel.Timer

/-!
# The tables at run time

The part of `kmain` that puts the descriptor tables in place and sets up the interrupt
controllers.

## Main definitions

- `Sypas.Kernel.gdtInit`, `Sypas.Kernel.idtInit` — what the two calls leave behind
- `Sypas.interruptSetup` — the code

## Main results

- `Sypas.Kernel.gdtInit_reaches` — the assembly of `gdt_init` leaves that behind
- `Sypas.interruptSetup_installs` — from there on interrupts find the tables
-/

namespace Sypas

open Interaction Program X86

/-! ## The code -/

/-- Stores into the kernel's memory. -/
def Kernel.store (x : StateM Ram Unit) (s : Kernel) : Kernel :=
  { s with pmm := { s.pmm with ram := (x s.pmm.ram).2 } }

/-- The selectors that the assembly of `gdt_init` loads. -/
def kernelSelector (r : Seg) : UInt16 := if r ∈ [Seg.fs, .gs] then 0 else gdtKdata

/-- Instructions that only load registers for tables and segments. -/
def Kernel.load (f : Core → Core) (s : Kernel) : Kernel :=
  { s with
    gdtr := (f s.core).gdtr
    idtr := (f s.core).idtr
    cs := (f s.core).cs
    segs := (f s.core).segs }

/-- The assembly of `gdt_init`. -/
def gdtLoaded (gp : UInt64) (c : Core) : Core :=
  { c with gdtr := c.tableAt gp, cs := gdtKcode, segs := kernelSelector }

/-- `lidt`. -/
def idtLoaded (idtp : UInt64) (c : Core) : Core := { c with idtr := c.tableAt idtp }

/-- `gdt_init`, but for the words that it puts on the stack and takes back. -/
def Kernel.gdtInit (img : KernelImage) (s : Kernel) : Kernel :=
  (s.store (gdtTables img.gdt img.gp)).load (gdtLoaded img.gp)

/-- `idt_init`. -/
def Kernel.idtInit (img : KernelImage) (s : Kernel) : Kernel :=
  (s.store (Sypas.idtInit img.idt img.idtp img.isrStubTable)).load (idtLoaded img.idtp)

/-- The descriptor tables and the interrupt controllers in `kmain`. -/
def interruptSetup (img : KernelImage) : KernelM Unit := do
  compute fun s => ((), s.gdtInit img)
  kprintf "[gdt ] kernel GDT loaded (ring0 code/data), segments reloaded\n" []
  compute fun s => ((), s.idtInit img)
  kprintf
    "[idt ] 256-entry IDT: 32 exceptions, 16 IRQs, private test gate, defaults armed\n" []
  picInit
  kprintf "[pic ] 8259 remapped to vectors 32-47, all IRQs masked\n" []

/-! ## The tables -/

section Tables

variable {img : KernelImage} {k s : Kernel} {rsp : UInt64}

theorem Kernel.mem_store (x : StateM Ram Unit) (s : Kernel) :
    (s.store x).core.mem = (x s.pmm.ram).2.mem := rfl

theorem kernelSelector_data : ∀ r ∈ [Seg.ss, .ds, .es], kernelSelector r = gdtKdata := by decide

theorem kernelSelector_null : ∀ r ∈ [Seg.fs, .gs], kernelSelector r = 0 := by decide

theorem Kernel.gdtInit_gdtr (s : Kernel)
    (hapart : img.gp.toNat + 10 ≤ img.gdt.toNat ∨ img.gdt.toNat + 24 ≤ img.gp.toNat) :
    (s.gdtInit img).gdtr = gdtRegister img.gdt :=
  (gdtTables_spec s.pmm.ram hapart).2.1 (s.store (gdtTables img.gdt img.gp)).core rfl

theorem KernelSegments.segs_eq {gdt : UInt64} {c : Core} (h : KernelSegments gdt c) :
    c.segs = kernelSelector := by
  funext r
  cases r with
  | ss => exact h.data .ss (by decide)
  | ds => exact h.data .ds (by decide)
  | es => exact h.data .es (by decide)
  | fs => exact h.null .fs (by decide)
  | gs => exact h.null .gs (by decide)

/-- The assembly of `gdt_init` runs through from any state of the processor, behind the stores of
    `gdt_init`, and leaves behind what the model says. -/
theorem Kernel.gdtInit_reaches (s : Kernel) {status : Core → UInt64} {code : Code} {c : Core}
    {a next jump stop : UInt64} (hmem : c.mem = (s.store (gdtTables img.gdt img.gp)).core.mem)
    (hapart : TablesApart img.gdt img.gp img.idt img.idtp c.rsp)
    (hload : Listing code a ((gdtLoad img.gp next).map .op ++ [.lretq]) jump)
    (hreload : Listing code next (gdtReload.map .op) stop) :
    ∃ d, Reaches status code ⟨c, a⟩ ⟨d, stop⟩ ∧ d.gdtr = (s.gdtInit img).gdtr ∧
      d.cs = (s.gdtInit img).cs ∧ d.segs = (s.gdtInit img).segs ∧ d.idtr = c.idtr ∧
      d.rsp = c.rsp ∧
      ∀ x, x < c.rsp.toNat - 16 ∨ c.rsp.toNat ≤ x → d.mem x = (s.gdtInit img).core.mem x := by
  obtain ⟨hgdt, htable, -⟩ := gdtTables_spec s.pmm.ram hapart.gp_gdt
  have hgdt' : KernelGdt img.gdt c.mem := by
    rw [hmem]
    exact hgdt
  obtain ⟨d, hreach, hsegs, hrsp, hidtr, -, -, houtside⟩ := gdtLoad_reaches status hgdt'
    (htable c hmem) hapart.room hapart.stack_gdt hload hreload
  refine ⟨d, hreach, ?_, hsegs.cs, hsegs.segs_eq, hidtr, hrsp, fun x hx => ?_⟩
  · rw [hsegs.gdtr, s.gdtInit_gdtr hapart.gp_gdt]
  · rw [houtside x hx, hmem]
    rfl

/-- Behind both calls the kernel's segments are loaded and there is a gate for every vector. -/
theorem Kernel.init_installed (s : Kernel)
    (hapart : TablesApart img.gdt img.gp img.idt img.idtp rsp) :
    ((s.gdtInit img).idtInit img).Installed img := by
  obtain ⟨hgdt, -⟩ := gdtTables_spec s.pmm.ram hapart.gp_gdt
  obtain ⟨hidt, hframe⟩ := idtInit_gates (s.gdtInit img).pmm.ram hapart.idtp_idt
    (Kernel.mem_store (Sypas.idtInit img.idt img.idtp img.isrStubTable) (s.gdtInit img))
  have hgdtr := s.gdtInit_gdtr hapart.gp_gdt
  unfold Kernel.idtInit
  generalize Sypas.idtInit img.idt img.idtp img.isrStubTable = x at hidt hframe
  exact ⟨⟨hidt.gates, hidt.idtr⟩, hapart.keeps_gdt hgdt hframe, hgdtr, rfl, kernelSelector_data,
    kernelSelector_null⟩

end Tables

/-! ## The set-up -/

section Setup

variable {img : KernelImage} {prompt : Bool} {k s : Kernel} {b g : Board} {out : List UInt8}
  {R : KernelEnd → Kernel → Board → Prop} {rsp : UInt64} {text : List Char}

theorem Kernel.Same.core_eq (h : k.Same s) : s.core = k.core := by
  rw [h]
  rfl

theorem Kernel.core_printed (k : Kernel) (t : List UInt8) : (k.printed t).core = k.core := by
  unfold Kernel.core Kernel.printed
  rfl

/-- The kernel's memory is written, while no interrupt may come. -/
theorem Logged.store (h : Logged img prompt k b out text s g) (hoff : b.interrupts = false)
    (x : StateM Ram Unit) : Logged img prompt (k.store x) b out text (s.store x) g := by
  refine h.change hoff (Kernel.store x) (fun hsame => ?_) rfl rfl
  unfold Kernel.Same at *
  rw [hsame]
  rfl

theorem Logged.load (h : Logged img prompt k b out text s g) (hoff : b.interrupts = false)
    (f : Core → Core) : Logged img prompt (k.load f) b out text (s.load f) g := by
  have hprinted : (k.printed (textBytes text)).load f = (k.load f).printed (textBytes text) := by
    unfold Kernel.load
    rw [Kernel.core_printed]
    rfl
  unfold Logged
  rw [← hprinted]
  refine h.change hoff (Kernel.load f) (fun hsame => ?_) rfl rfl
  unfold Kernel.load
  rw [hsame.core_eq]
  unfold Kernel.Same at *
  rw [hsame]

theorem update_wp (f : Kernel → Kernel) {Q : Unit → Kernel → Board → Prop} (h : Q () (f s) g) :
    (compute fun s => ((), f s) : KernelM Unit).wp (hardware img prompt) R Q s g :=
  wp_compute h

theorem Logged.gdtInit (h : Logged img prompt k b out text s g) (hoff : b.interrupts = false) :
    Logged img prompt (k.gdtInit img) b out text (s.gdtInit img) g :=
  (h.store hoff (gdtTables img.gdt img.gp)).load hoff (gdtLoaded img.gp)

theorem Logged.idtInit (h : Logged img prompt k b out text s g) (hoff : b.interrupts = false) :
    Logged img prompt (k.idtInit img) b out text (s.idtInit img) g :=
  (h.store hoff (Sypas.idtInit img.idt img.idtp img.isrStubTable)).load hoff (idtLoaded img.idtp)

/-- The log behind the set-up. -/
def setupLog (text : List Char) : List Char :=
  text ++ "[gdt ] kernel GDT loaded (ring0 code/data), segments reloaded\n".toList ++
  "[idt ] 256-entry IDT: 32 exceptions, 16 IRQs, private test gate, defaults armed\n".toList ++
  "[pic ] 8259 remapped to vectors 32-47, all IRQs masked\n".toList

/-- The set-up runs through, whatever the tables, the controllers and the processor held. -/
theorem interruptSetup_wp (h : Logged img prompt k b out text s g) (hoff : b.interrupts = false)
    {Q : Unit → Kernel → Board → Prop}
    (hnext : ∀ s' g', Logged img prompt ((k.gdtInit img).idtInit img) b.remapped out
      (setupLog text) s' g' → Q () s' g') :
    (interruptSetup img).wp (hardware img prompt) R Q s g := by
  refine wp_bind (update_wp (Kernel.gdtInit img) ?_)
  refine wp_bind ((h.gdtInit hoff).kprintf_plain rfl fun s₁ g₁ h₁ => ?_)
  refine wp_bind (update_wp (Kernel.idtInit img) ?_)
  refine wp_bind ((h₁.idtInit hoff).kprintf_plain rfl fun s₂ g₂ h₂ => ?_)
  refine wp_bind (picInit_wp h₂ hoff fun s₃ g₃ h₃ => ?_)
  have h₃' : Logged img prompt ((k.gdtInit img).idtInit img) b.remapped out _ s₃ g₃ := h₃
  refine h₃'.kprintf_plain rfl fun s₄ g₄ h₄ => hnext s₄ g₄ ?_
  unfold setupLog
  exact h₄

/-- In every run the set-up goes through all of its calls, and leaves behind tables and controllers
    that the interrupts to come need. -/
theorem interruptSetup_installs (h : Online img prompt k b out s g) (hoff : b.interrupts = false)
    (hapart : TablesApart img.gdt img.gp img.idt img.idtp rsp)
    {trace : List (Interaction.Event Kernel KernelCall KernelCall.Answer)} {g' : Board}
    {y : Interaction Kernel KernelCall KernelCall.Answer (Except KernelEnd Unit)}
    (hrun : Run (hardware img prompt) g (interruptSetup img s) trace g' y) :
    (∀ c s' next, y = .call c s' next → Permits img s' g' c) ∧
    ∀ r s', y = .done r s' → r = .ok () ∧ s'.Installed img ∧
      Logged img prompt ((k.gdtInit img).idtInit img) b.remapped out (setupLog []) s' g' := by
  have hwp : (interruptSetup img).wp (hardware img prompt) (fun _ _ _ => False)
      (fun _ s' g' => Logged img prompt ((k.gdtInit img).idtInit img) b.remapped out
        (setupLog []) s' g') s g := interruptSetup_wp h.logged hoff fun _ _ => id
  refine ⟨fun c s' next hy => ?_, fun r s' hy => ?_⟩
  · subst hy
    exact hrun.guarantee hwp
  · subst hy
    have hend := hrun.result hwp
    cases r with
    | ok a =>
      have hk := k.init_installed hapart
      exact ⟨rfl, hend.at_board.kernel.installed ⟨hk.idt, hk.segments⟩, hend⟩
    | error e => exact hend.elim

/-- A run of the set-up that comes to its end. -/
theorem interruptSetup_exists_run (h : Online img prompt k b out s g)
    (hoff : b.interrupts = false) :
    ∃ trace g' r s', Run (hardware img prompt) g (interruptSetup img s) trace g' (.done r s') := by
  have hwp : (interruptSetup img).wp (hardware img prompt) (fun _ _ _ => True)
      (fun _ _ _ => True) s g := interruptSetup_wp h.logged hoff fun _ _ _ => trivial
  exact Interaction.wp.exists_run (hardware_answers img prompt) hwp

end Setup

/-! ## A kernel before its set-up -/

/-- The addresses of the tables of `runningCore`. -/
def tablesImage : KernelImage := ⟨0x8000, 0x8100, 0x6000, 0x8200, isrStubAt⟩

/-- The set-up of a kernel as the loader leaves it runs to its end, and reports on the serial
    line. -/
theorem interruptSetup_installs_wired :
    ∃ trace g' s' u, Run (hardware tablesImage true) wiredBoard
        (interruptSetup tablesImage (wiredKernel looseCore)) trace g' (.done (.ok ()) s') ∧
      s'.Installed tablesImage ∧ g'.uart = some u ∧
      u.queued = (textBytes (setupLog [])).flatMap crlf := by
  have hapart : TablesApart tablesImage.gdt tablesImage.gp tablesImage.idt tablesImage.idtp
      looseCore.rsp := ⟨by decide, by decide, by decide, by decide, by decide, by decide⟩
  have hon := wired_online tablesImage looseCore
  obtain ⟨trace, g', r, s', hrun⟩ := interruptSetup_exists_run hon rfl
  obtain ⟨rfl, hinstalled, hlog⟩ := (interruptSetup_installs hon rfl hapart hrun).2 r s' rfl
  obtain ⟨u, hu, -, hqueued⟩ := hlog.serial rfl rfl
  exact ⟨trace, g', s', u, hrun, hinstalled, hu, hqueued⟩

end Sypas
