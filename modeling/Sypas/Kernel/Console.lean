import Sypas.Kernel.KprintfFormat
import Sypas.Kernel.Serial

/-!
# Console output (`kernel/debug/kprintf.c`)

The registered sinks, and what a call of `kprintf` does to all of them. The formatter
itself is `kvprintf`; its characters go to every sink in the order of registration, one
by one. Should it run into what C leaves undefined, nothing is said about the part that
has been emitted.

## Main definitions

- `Sypas.consoleRegister`, `Sypas.emit`, `Sypas.kprintf` — the console
- `Sypas.formatKinds` — the types of the arguments that a format asks for
- `Sypas.Online`, `Sypas.Logged` — the kernel between two calls of `kprintf`

## Main results

- `Sypas.kvprintf_of_kinds` — on arguments of these types the formatter has no fault
- `Sypas.Logged.kprintf_wp` — every sink gets the whole text
- `Sypas.Logged.serial` — so does the serial line
-/

namespace Sypas

open Interaction Program

/-! ## The code -/

/-- `console_register`. -/
def Kernel.register (fn : Sink) (s : Kernel) : Kernel :=
  if h : s.sinks.length < maxSinks then
    { s with
      sinks := s.sinks ++ [fn]
      nsinks_le := by
        rw [List.length_append]
        exact h }
  else s

def consoleRegister (fn : Sink) : KernelM Unit := compute fun s => ((), s.register fn)

/-- `sinks[i](c)`. -/
def Sink.putc (c : UInt8) : Sink → KernelM Unit
  | serialPutc => Sypas.serialPutc c
  | fbconPutc => compute fun s => ((), { s with fbcon := Sypas.fbconPutc c.toInt8 s.fbcon })

/-- The loop of `emit` over the sinks. -/
def emitTo (c : UInt8) : List Sink → KernelM Unit
  | [] => pure ()
  | sink :: sinks => do
    sink.putc c
    emitTo c sinks

/-- `emit`. -/
def emit (c : UInt8) : KernelM Unit := do
  let sinks ← compute fun s => (s.sinks, s)
  emitTo c sinks

def emitAll : List UInt8 → KernelM Unit
  | [] => pure ()
  | c :: cs => do
    emit c
    emitAll cs

/-- The bytes of a text. -/
def textBytes (out : List Char) : List UInt8 := out.map fun c => UInt8.ofNat c.toNat

/-- A string literal. -/
def literal (s : String) : CString where
  chars := s.toList.takeWhile (· ≠ '\x00')
  nul_not_mem h := by simpa using List.mem_takeWhile_imp h

/-- `kprintf`. -/
def kprintf (fmt : String) (ap : List Arg) : KernelM Unit :=
  match kvprintf (literal fmt) ap with
  | .error fault => exit (.undefined fault)
  | .ok out => emitAll (textBytes out)

/-! ## Formats -/

/-- A character of a format that is printed as it is, or a conversion. -/
inductive Piece where
  | char (c : Char)
  | conv (spec : Spec) (letter : Char)

/-- The first `n` pieces of a format; nothing if it ends inside a specification. -/
def piecesFrom : ℕ → List Char → Option (List Piece)
  | 0, _ => none
  | _ + 1, [] => some []
  | n + 1, c :: fmt =>
    if c ≠ '%' then (piecesFrom n fmt).map (.char c :: ·)
    else match (scanSpec fmt).2 with
      | [] => none
      | letter :: rest => (piecesFrom n rest).map (.conv (scanSpec fmt).1 letter :: ·)

/-- The pieces of a format. -/
def pieces (fmt : String) : Option (List Piece) :=
  piecesFrom ((literal fmt).chars.length + 1) (literal fmt).chars

/-- What pieces print. -/
def render : List Piece → List Arg → Except Fault (List Char)
  | [], _ => .ok []
  | .char c :: ps, ap => (render ps ap).map (c :: ·)
  | .conv spec letter :: ps, ap =>
    (convert spec letter ap).bind fun r => (render ps r.2).map (r.1 ++ ·)

/-- The types of the arguments that pieces take. -/
def Piece.kinds : Piece → List ArgKind
  | char _ => []
  | conv spec letter => kindsOf spec.longs letter

/-- The types of the arguments that a format takes. -/
def formatKinds (fmt : String) : Option (List ArgKind) :=
  (pieces fmt).map (List.flatMap Piece.kinds)

theorem kvprintfFrom_eq_render {n : ℕ} {fmt : List Char} {ps : List Piece}
    (h : piecesFrom n fmt = some ps) (ap : List Arg) : kvprintfFrom fmt ap = render ps ap := by
  induction n generalizing fmt ps ap with
  | zero => cases h
  | succ n ih =>
    cases fmt with
    | nil =>
      cases h
      rw [kvprintfFrom, render]
    | cons c fmt =>
      rw [piecesFrom] at h
      by_cases hc : c = '%'
      · rw [if_neg (not_not.2 hc)] at h
        cases hrest : (scanSpec fmt).2 with
        | nil =>
          rw [hrest] at h
          cases h
        | cons letter rest =>
          rw [hrest] at h
          obtain ⟨ps, hps, rfl⟩ := Option.map_eq_some_iff.1 h
          rw [kvprintfFrom, if_neg (not_not.2 hc), hrest, render]
          cases hconvert : convert (scanSpec fmt).1 letter ap with
          | error fault =>
            simp only [deref, List.headD_cons, hconvert]
            rfl
          | ok r =>
            simp only [deref, List.headD_cons, hconvert, advance]
            exact congrArg (Except.map (r.1 ++ ·)) (ih hps r.2)
      · rw [if_pos hc] at h
        obtain ⟨ps, hps, rfl⟩ := Option.map_eq_some_iff.1 h
        rw [kvprintfFrom, if_pos hc, ih hps, render]
        rfl

/-- The formatter prints a format piece by piece. -/
theorem kvprintf_eq_render {fmt : String} {ps : List Piece} (h : pieces fmt = some ps)
    (ap : List Arg) : kvprintf (literal fmt) ap = render ps ap :=
  kvprintfFrom_eq_render h ap

/-- Arguments of the right types are printed. -/
theorem render_of_kinds {ps : List Piece} {ap : List Arg}
    (h : ps.flatMap Piece.kinds = ap.map Arg.kind) : ∃ out, render ps ap = .ok out := by
  induction ps generalizing ap with
  | nil => exact ⟨[], rfl⟩
  | cons p ps ih =>
    cases p with
    | char c =>
      obtain ⟨out, hout⟩ := ih h
      exact ⟨c :: out, by rw [render, hout]; rfl⟩
    | conv spec letter =>
      obtain ⟨args, ap', rfl, hargs, hap'⟩ := List.map_eq_append_iff.1 h.symm
      obtain ⟨out, hout⟩ := convert_of_kinds spec letter hargs
      obtain ⟨out', hout'⟩ := ih hap'.symm
      refine ⟨out ++ out', ?_⟩
      rw [render, hout]
      change (render ps ap').map (out ++ ·) = _
      rw [hout']
      rfl

/-- On arguments of the types that the format asks for, the formatter has no fault. -/
theorem kvprintf_of_kinds {fmt : String} {ap : List Arg}
    (h : formatKinds fmt = some (ap.map Arg.kind)) :
    ∃ out, kvprintf (literal fmt) ap = .ok out := by
  obtain ⟨ps, hps, hkinds⟩ := Option.map_eq_some_iff.1 h
  rw [kvprintf_eq_render hps]
  exact render_of_kinds hkinds

/-! ## What a text does -/

/-- What a sink draws for a character. -/
def Sink.draw (c : UInt8) (con : Fbcon) : Sink → Fbcon
  | serialPutc => con
  | fbconPutc => Sypas.fbconPutc c.toInt8 con

/-- What a sink puts on the serial line for a character. -/
def Sink.wire (c : UInt8) : Sink → List UInt8
  | serialPutc => crlf c
  | fbconPutc => []

/-- The framebuffer console behind a text. -/
def drawText (sinks : List Sink) (text : List UInt8) (con : Fbcon) : Fbcon :=
  text.foldl (fun con c => sinks.foldl (Sink.draw c) con) con

/-- The serial line behind a text. -/
def wireText (sinks : List Sink) (text : List UInt8) : List UInt8 :=
  text.flatMap fun c => sinks.flatMap (Sink.wire c)

/-- The kernel behind a text. -/
def Kernel.printed (k : Kernel) (text : List UInt8) : Kernel :=
  { k with fbcon := drawText k.sinks text k.fbcon }

/-- The kernel is `k`, the board is `b` but for the serial port, and `out` has been put on the
    serial line, if there is one. -/
structure Online (img : KernelImage) (prompt : Bool) (k : Kernel) (b : Board) (out : List UInt8)
    (s : Kernel) (g : Board) : Prop where
  at_board : At img k { b with uart := g.uart } s g
  line : k.present = true → Line prompt out g.uart

section Output

variable {img : KernelImage} {prompt : Bool} {k s : Kernel} {b g : Board} {out : List UInt8}
  {R : KernelEnd → Kernel → Board → Prop} {Q : Unit → Kernel → Board → Prop}

/-- Where interrupts are off, there is nothing to say but what is on the line. -/
theorem Online.start (hoff : b.interrupts = false) (hclock : k.ticks = UInt64.ofNat b.timerIrqs)
    (hline : k.present = true → Line prompt out b.uart) : Online img prompt k b out k b := by
  have hon (p : Prop) : b.interrupts = true → p := fun hon =>
    absurd (hoff.symm.trans hon) Bool.false_ne_true
  exact ⟨⟨.refl k, .refl b, hclock, id, id, hon _, hon _, hon _⟩, hline⟩

theorem Online.sinks_eq (h : Online img prompt k b out s g) : s.sinks = k.sinks := by
  rw [h.at_board.kernel]

/-- A call that has nothing to do with the serial port. -/
theorem Online.issue_wp (h : Online img prompt k b out s g) {c : KernelCall}
    {Q : c.Answer → Kernel → Board → Prop} (hlegal : c.Legal img s g)
    (hnext : ∀ a s₁ g₁ s' g', Online img prompt k b out s₁ g₁ → g.timerIrqs ≤ g₁.timerIrqs →
      Answers prompt s₁ g₁ c a s' g' → Q a s' g') :
    (issue c).wp (hardware img prompt) R Q s g := by
  refine h.at_board.issue_wp hlegal fun a s₁ g₁ s' g' h₁ hle hanswer =>
    hnext a s₁ g₁ s' g' ⟨?_, ?_⟩ hle hanswer
  · rw [h₁.uart_eq]
    exact h₁
  · rw [h₁.uart_eq]
    exact h.line

/-- Another state of the kernel, where neither interrupts nor the serial port are concerned. -/
theorem Online.store {k' s' : Kernel} (h : Online img prompt k b out s g) (hsame : k'.Same s')
    (hticks : s'.ticks = s.ticks) (hinstalled : k.Installed img → k'.Installed img)
    (hhandlers : k'.irqHandlers = k.irqHandlers) (hpresent : k'.present = k.present) :
    Online img prompt k' b out s' g :=
  ⟨h.at_board.store hsame hticks hinstalled hhandlers, fun hk => h.line (hpresent ▸ hk)⟩

theorem Sink.putc_wp (h : Online img prompt k b out s g) (sink : Sink) (c : UInt8)
    (hnext : ∀ s' g', Online img prompt { k with fbcon := sink.draw c k.fbcon } b
      (out ++ sink.wire c) s' g' → Q () s' g') :
    (sink.putc c).wp (hardware img prompt) R Q s g := by
  cases sink with
  | serialPutc =>
    refine serialPutc_wp h.at_board h.line c fun o s' g' hline _ h' => hnext s' g' ⟨?_, ?_⟩
    · rw [h'.uart_eq]
      exact h'
    · rw [h'.uart_eq]
      exact hline
  | fbconPutc =>
    refine wp_compute (hnext _ _ ?_)
    rw [Sink.wire, List.append_nil]
    refine h.store ?_ rfl (fun hk => ⟨hk.idt, hk.segments⟩) rfl rfl
    have hsame := h.at_board.kernel
    unfold Kernel.Same at *
    rw [hsame]
    rfl

theorem emitTo_wp (h : Online img prompt k b out s g) (c : UInt8) (sinks : List Sink)
    (hnext : ∀ s' g', Online img prompt { k with fbcon := sinks.foldl (Sink.draw c) k.fbcon } b
      (out ++ sinks.flatMap (Sink.wire c)) s' g' → Q () s' g') :
    (emitTo c sinks).wp (hardware img prompt) R Q s g := by
  induction sinks generalizing k out s g with
  | nil =>
    refine wp_pure (hnext s g ?_)
    rw [List.flatMap_nil, List.append_nil]
    exact h
  | cons sink sinks ih =>
    refine wp_bind (Sink.putc_wp h sink c fun s' g' h' => ih h' fun s'' g'' h'' => hnext s'' g'' ?_)
    rw [List.flatMap_cons, ← List.append_assoc]
    exact h''

theorem emitAll_wp (h : Online img prompt k b out s g) (text : List UInt8)
    (hnext : ∀ s' g', Online img prompt (k.printed text) b (out ++ wireText k.sinks text) s' g' →
      Q () s' g') : (emitAll text).wp (hardware img prompt) R Q s g := by
  induction text generalizing k out s g with
  | nil =>
    refine wp_pure (hnext s g ?_)
    rw [wireText, List.flatMap_nil, List.append_nil]
    exact h
  | cons c text ih =>
    refine wp_bind (wp_bind (wp_compute ?_))
    change (emitTo c s.sinks).wp _ _ _ s g
    rw [h.sinks_eq]
    refine emitTo_wp h c k.sinks fun s' g' h' => ih h' fun s'' g'' h'' => hnext s'' g'' ?_
    rw [wireText, List.flatMap_cons, ← List.append_assoc]
    exact h''

end Output

/-! ## The log -/

theorem drawText_append (sinks : List Sink) (text text' : List UInt8) (con : Fbcon) :
    drawText sinks (text ++ text') con = drawText sinks text' (drawText sinks text con) :=
  List.foldl_append

theorem wireText_append (sinks : List Sink) (text text' : List UInt8) :
    wireText sinks (text ++ text') = wireText sinks text ++ wireText sinks text' :=
  List.flatMap_append

/-- The serial port is among the sinks once. -/
theorem wireText_once {sinks : List Sink} (h : sinks.count .serialPutc = 1) (text : List UInt8) :
    wireText sinks text = text.flatMap crlf := by
  refine List.flatMap_congr fun c _ => ?_
  have hnone : ∀ sinks : List Sink, sinks.count .serialPutc = 0 →
      sinks.flatMap (Sink.wire c) = [] := by
    intro sinks hcount
    refine List.flatMap_eq_nil_iff.2 fun sink hsink => ?_
    cases sink with
    | serialPutc => exact absurd hsink (List.count_eq_zero.1 hcount)
    | fbconPutc => rfl
  induction sinks with
  | nil => cases h
  | cons sink sinks ih =>
    cases sink with
    | serialPutc =>
      rw [List.count_cons_self] at h
      rw [List.flatMap_cons, hnone sinks (by omega), List.append_nil]
      rfl
    | fbconPutc =>
      rw [List.count_cons_of_ne (by decide)] at h
      exact ih h

theorem Kernel.printed_append (k : Kernel) (text text' : List UInt8) :
    k.printed (text ++ text') = (k.printed text).printed text' := by
  unfold Kernel.printed
  rw [drawText_append]

/-- Since the kernel was `k` and `out` was on the serial line, `text` has been printed. -/
def Logged (img : KernelImage) (prompt : Bool) (k : Kernel) (b : Board) (out : List UInt8)
    (text : List Char) : Kernel → Board → Prop :=
  Online img prompt (k.printed (textBytes text)) b (out ++ wireText k.sinks (textBytes text))

section Log

variable {img : KernelImage} {prompt : Bool} {k s : Kernel} {b g : Board} {out : List UInt8}
  {text : List Char} {R : KernelEnd → Kernel → Board → Prop} {Q : Unit → Kernel → Board → Prop}

theorem Online.logged (h : Online img prompt k b out s g) : Logged img prompt k b out [] s g := by
  change Online img prompt k b (out ++ []) s g
  rw [List.append_nil]
  exact h

theorem Logged.append {new : List Char}
    (h : Online img prompt ((k.printed (textBytes text)).printed (textBytes new)) b
      (out ++ wireText k.sinks (textBytes text) ++ wireText k.sinks (textBytes new)) s g) :
    Logged img prompt k b out (text ++ new) s g := by
  unfold Logged textBytes
  rw [List.map_append, Kernel.printed_append, wireText_append, ← List.append_assoc]
  exact h

/-- A call of `kprintf` sends its text to every sink. -/
theorem Logged.kprintf_text (h : Logged img prompt k b out text s g) {fmt : String}
    {ap : List Arg} {new : List Char} (hnew : kvprintf (literal fmt) ap = .ok new)
    (hnext : ∀ s' g', Logged img prompt k b out (text ++ new) s' g' → Q () s' g') :
    (kprintf fmt ap).wp (hardware img prompt) R Q s g := by
  unfold kprintf
  rw [hnew]
  exact emitAll_wp h _ fun s' g' h' => hnext s' g' (Logged.append h')

/-- It has no fault when its arguments have the types that its format asks for. -/
theorem Logged.kprintf_wp (h : Logged img prompt k b out text s g) {fmt : String}
    {ap : List Arg} (hkinds : formatKinds fmt = some (ap.map Arg.kind))
    (hnext : ∀ new s' g', kvprintf (literal fmt) ap = .ok new →
      Logged img prompt k b out (text ++ new) s' g' → Q () s' g') :
    (kprintf fmt ap).wp (hardware img prompt) R Q s g := by
  obtain ⟨new, hnew⟩ := kvprintf_of_kinds hkinds
  exact h.kprintf_text hnew fun s' g' h' => hnext new s' g' hnew h'

/-- What has been printed is on the serial line of a prompt board. -/
theorem Logged.serial (h : Logged img true k b out text s g) (hpresent : k.present = true)
    (hsinks : k.sinks.count .serialPutc = 1) :
    ∃ u, g.uart = some u ∧ u.Operating ∧ u.queued = out ++ (textBytes text).flatMap crlf := by
  obtain ⟨u, hu, hop, -, hqueued⟩ := h.line hpresent
  exact ⟨u, hu, hop, (hqueued rfl).trans (by rw [wireText_once hsinks])⟩

end Log

/-! ## Halts -/

theorem emitAll_within (text : List UInt8) : (emitAll text).Within halts 0 := by
  have hemitTo : ∀ c sinks, (emitTo c sinks).Within halts 0 := by
    intro c sinks
    induction sinks with
    | nil => exact within_pure
    | cons sink sinks ih =>
      refine within_bind_free ?_ fun _ => ih
      cases sink with
      | serialPutc => exact serialPutc_within c
      | fbconPutc => exact within_compute
  induction text with
  | nil => exact within_pure
  | cons c text ih =>
    exact within_bind_free (within_bind_free within_compute (hemitTo c)) fun _ => ih

/-- Output does not halt the processor. -/
theorem kprintf_within (fmt : String) (ap : List Arg) : (kprintf fmt ap).Within halts 0 := by
  unfold kprintf
  cases kvprintf (literal fmt) ap with
  | error fault => exact within_exit
  | ok out => exact emitAll_within (textBytes out)

/-! ## A kernel with a serial port -/

theorem one_sink_le : [Sink.serialPutc].length ≤ maxSinks := by decide

/-- A kernel on the registers and the memory of `c`, with the serial port for a console and without
    handlers. -/
def wiredKernel (c : X86.Core) : Kernel where
  gdtr := c.gdtr
  idtr := c.idtr
  cs := c.cs
  segs := c.segs
  present := true
  sinks := [.serialPutc]
  nsinks_le := one_sink_le
  fbcon := .zero ⟨fun _ => 0, []⟩
  pmm := .zeroed ⟨c.mem, []⟩
  irqHandlers := fun _ => none
  isrTestHits := 0
  spuriousIrqs := 0
  ticks := 0

/-- A serial port that has been set up. -/
def wiredUart : Uart16550 where
  ier := 0
  fcr := 0xC7
  lcr := 3
  mcr := 0x0F
  scratch := 0x5A
  dll := 1
  dlm := 0
  tx := []
  rx := []
  sent := []
  waits := 0

/-- A board whose controllers share their vectors with the exceptions. -/
def wiredBoard : Board where
  uart := some wiredUart
  master := ⟨⟨0, 0, false⟩, 0, 8, 4, 1, .operating⟩
  slave := ⟨⟨0, 0, false⟩, 0, 0x70, 2, 1, .operating⟩
  pit := ⟨0, 0, none, 0⟩
  cpuid := fun _ _ => ⟨0, 0, 0, 0⟩
  interrupts := false
  timerIrqs := 0

theorem wiredUart_operating : wiredUart.Operating where
  fcr := by decide
  lcr := rfl
  mcr := rfl
  divisor := ⟨rfl, rfl⟩

theorem wired_line : Line true [] (some wiredUart) :=
  ⟨wiredUart, rfl, wiredUart_operating, rfl, fun _ => rfl⟩

theorem wired_online (img : KernelImage) (c : X86.Core) :
    Online img true (wiredKernel c) wiredBoard [] (wiredKernel c) wiredBoard :=
  .start rfl rfl fun _ => wired_line

theorem wired_installed {img : KernelImage} {c : X86.Core}
    (hidt : KernelIdt img.idt img.isrStubTable c) (hsegs : KernelSegments img.gdt c) :
    (wiredKernel c).Installed img :=
  ⟨⟨hidt.gates, hidt.idtr⟩, ⟨hsegs.table, hsegs.gdtr, hsegs.cs, hsegs.data, hsegs.null⟩⟩

end Sypas
