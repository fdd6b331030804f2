import Sypas.Kernel.FbconPixels
import Sypas.Lib.Terminal

/-!
# The console is a terminal

The framebuffer console refines the grid terminal: at every moment each cell of the
framebuffer shows what the terminal's cell holds, and the cursors agree. The relation
is kept by every call, so it holds after any sequence of calls.

## Main definitions

- `Sypas.terminalCall` — what a call of the console means for the terminal
- `Sypas.Shows` — a framebuffer that shows a terminal

## Main results

- `Sypas.Shows.call` — one call keeps the relation
- `Sypas.fbcon_refines_terminal` — every sequence of calls after `fbcon_init`
-/

namespace Sypas

open Raster

/-- The terminal that the console stands for: its characters are C's signed `char`, its
    colours are words. -/
abbrev ConsoleTerminal := Terminal Int8 UInt32

/-- What `fbcon_putc` means: newline, carriage return, a printable character; control
    and negative characters are ignored. -/
def terminalPut (t : ConsoleTerminal) (c : Int8) : ConsoleTerminal :=
  if c = 10 then t.newline
  else if c = 13 then t.carriageReturn
  else if 0x20 ≤ c then t.write c
  else t

def terminalCall (t : ConsoleTerminal) : ConsoleCall → ConsoleTerminal
  | .putc c => terminalPut t c
  | .setColors fg bg => t.setColors fg bg

/-- The pixel of a cell at line `y` and column `x`, each glyph pixel being two by two. -/
def cellPixel (fbFormat : UInt32) (cell : TermCell Int8 UInt32) (y x : ℕ) : UInt32 :=
  match cell with
  | .blank bg => toNative fbFormat bg
  | .glyph ch fg bg => glyphPixel fbFormat ch fg bg (y / 2) (x / 2)

/-- Every cell of the framebuffer shows what the terminal holds there. -/
def ShowsCells (screen : Raster UInt32) (pitch : ℕ) (fbFormat : UInt32) (t : ConsoleTerminal) :
    Prop :=
  ∀ r < t.rows, ∀ c < t.cols, ∀ y < 16, ∀ x < 16,
    screen.pixel pitch (8 + r * 16 + y) (8 + c * 16 + x) = cellPixel fbFormat (t.cells r c) y x

/-- The console's variables and framebuffer stand for the terminal `t`. -/
structure Shows (con : Fbcon) (t : ConsoleTerminal) : Prop where
  ready : con.ready = true
  pitch : con.fbWidth.toNat ≤ con.fbPitch32.toNat
  rows : con.rows.toNat = t.rows
  cols : con.cols.toNat = t.cols
  height : 16 + t.rows * 16 ≤ con.fbHeight.toNat
  width : 16 + t.cols * 16 ≤ con.fbWidth.toNat
  row : con.curRow.toNat = t.row
  col : con.curCol.toNat = t.col
  fg : con.fg = t.fg
  bg : con.bg = t.bg
  cells : ShowsCells con.screen con.fbPitch32.toNat con.fbFormat t

variable {con : Fbcon} {t : ConsoleTerminal}

/-! ## The parts of one call -/

theorem toNat_succ {k : UInt32} {n : ℕ} (h : k.toNat < n) (hn : n < 2 ^ 32) :
    (k + 1).toNat = k.toNat + 1 := by
  have h1 : (1 : UInt32).toNat = 1 := rfl
  rw [UInt32.toNat_add, h1, Nat.mod_eq_of_lt (by omega)]

theorem Shows.rows_lt (h : Shows con t) : t.rows < 2 ^ 32 := by
  have hheight := h.height
  have hlt := con.fbHeight.toNat_lt
  omega

theorem Shows.cols_lt (h : Shows con t) : t.cols < 2 ^ 32 := by
  have hwidth := h.width
  have hlt := con.fbWidth.toNat_lt
  omega

/-- Drawing changes the cells only. -/
theorem Shows.draw (h : Shows con t) (prog : StateM (Raster UInt32) Unit)
    {cells : ℕ → ℕ → TermCell Int8 UInt32}
    (hcells : ShowsCells (prog con.screen).2 con.fbPitch32.toNat con.fbFormat
      { t with cells := cells }) : Shows (con.draw prog) { t with cells := cells } :=
  { h with cells := hcells }

theorem Shows.lineFeed (h : Shows con t) (hrow : t.row < t.rows) :
    Shows con.nextLine t.lineFeed := by
  have hrows := h.rows_lt
  have hcur := h.row
  exact { h with
    row := (toNat_succ (by omega) hrows).trans (congrArg (· + 1) hcur)
    col := rfl }

theorem Shows.carriageReturn (h : Shows con t) :
    Shows { con with curCol := 0 } t.carriageReturn :=
  { h with col := rfl }

/-- Scrolling on the framebuffer is scrolling on the grid. -/
theorem Shows.settle (h : Shows con t) (hrows : 0 < t.rows) :
    Shows (if con.curRow ≥ con.rows then { con.draw (scroll con) with curRow := con.rows - 1 }
      else con) t.settle := by
  have h1 : (1 : UInt32).toNat = 1 := rfl
  have hguard : con.curRow ≥ con.rows ↔ ¬t.row < t.rows := by
    rw [ge_iff_le, UInt32.le_iff_toNat_le, h.rows, h.row, not_lt]
  by_cases hlow : t.row < t.rows
  · rw [if_neg (fun hge => hguard.1 hge hlow), Terminal.settle_of_lt hlow]
    exact h
  rw [if_pos (hguard.2 hlow), Terminal.settle, if_neg hlow]
  have hheight := h.height
  have hwidth := h.width
  have hpitch := h.pitch
  have hlt := con.fbHeight.toNat_lt
  have hcount := h.rows
  have hpred : (con.rows - 1).toNat = con.rows.toNat - 1 :=
    UInt32.toNat_sub_of_le _ _ (UInt32.le_iff_toNat_le.2 (by omega))
  have hdrawn : Shows (con.draw (scroll con)) { t with
      cells := fun r c => if r + 1 < t.rows then t.cells (r + 1) c else .blank t.bg } := by
    refine h.draw _ fun r hr c hc y hy x hx => ?_
    dsimp only at hr hc ⊢
    rw [scroll_pixel hpitch (by omega) (by omega) con.screen _ (by omega), hcount]
    by_cases hlast : r + 1 < t.rows
    · -- the row comes from the one below
      have hmoved := h.cells (r + 1) hlast c hc y hy x hx
      rw [if_neg (by omega), if_pos (by omega), if_pos hlast, ← hmoved]
      congr 1
      omega
    · rw [if_pos (by omega), if_neg hlast, h.bg]
      rfl
  exact { hdrawn with row := hpred.trans (by rw [hcount]) }

/-- Drawing a glyph changes one cell. -/
theorem Shows.place (h : Shows con t) (hin : t.InBounds) (ch : Int8) :
    Shows (con.draw (drawGlyph con con.curCol con.curRow ch)) (t.place ch) := by
  obtain ⟨hrow, hcol⟩ := hin
  have hheight := h.height
  have hwidth := h.width
  have hpitch := h.pitch
  have hlt := con.fbHeight.toNat_lt
  have hcurRow := h.row
  have hcurCol := h.col
  refine h.draw _ fun r hr c hc y hy x hx => ?_
  dsimp only at hr hc ⊢
  rw [drawGlyph_pixel ch (by omega) (by omega) con.screen _ (by omega), hcurRow, hcurCol]
  by_cases hhere : r = t.row ∧ c = t.col
  · obtain ⟨rfl, rfl⟩ := hhere
    rw [if_pos (by omega), if_pos ⟨rfl, rfl⟩, Nat.add_sub_cancel_left, Nat.add_sub_cancel_left,
      h.fg, h.bg]
    rfl
  · rw [if_neg (by omega), if_neg hhere]
    exact h.cells r hr c hc y hy x hx

/-- Moving the cursor to the next column of the same row. -/
theorem Shows.nextCol (h : Shows con t) (hcol : t.col < t.cols) :
    Shows { con with curCol := con.curCol + 1 } { t with col := t.col + 1 } := by
  have hcols := h.cols_lt
  have hcur := h.col
  exact { h with col := (toNat_succ (by omega) hcols).trans (congrArg (· + 1) hcur) }

/-! ## One call -/

theorem Shows.putc (h : Shows con t) (hin : t.InBounds) (c : Int8) :
    Shows (fbconPutc c con) (terminalPut t c) := by
  have hrows : 0 < t.rows := Nat.zero_lt_of_lt hin.row_lt
  have hready : ¬(!con.ready) = true := by simp [h.ready]
  unfold fbconPutc terminalPut
  rw [if_neg hready]
  by_cases hnl : c = 10
  · rw [if_pos hnl, if_pos hnl]
    exact (h.lineFeed hin.row_lt).settle hrows
  rw [if_neg hnl, if_neg hnl]
  by_cases hcr : c = 13
  · rw [if_pos hcr, if_pos hcr]
    have hsettled := h.carriageReturn.settle hrows
    rw [Terminal.settle_of_lt hin.carriageReturn.row_lt] at hsettled
    exact hsettled
  rw [if_neg hcr, if_neg hcr]
  by_cases hprint : 0x20 ≤ c
  swap
  · rw [if_neg hprint, if_neg hprint]
    have hsettled := h.settle hrows
    rw [Terminal.settle_of_lt hin.row_lt] at hsettled
    exact hsettled
  rw [if_pos hprint, if_pos hprint]
  have hplaced := (h.place hin c).nextCol hin.col_lt
  generalize con.draw (drawGlyph con con.curCol con.curRow c) = drawn at hplaced ⊢
  have hguard : drawn.curCol + 1 ≥ drawn.cols ↔ ¬(t.place c).col + 1 < (t.place c).cols := by
    have hcur := hplaced.col
    have hcols := hplaced.cols
    dsimp only at hcur hcols
    rw [ge_iff_le, UInt32.le_iff_toNat_le, hcur, hcols, not_lt]
  unfold Terminal.write Terminal.advance
  by_cases hroom : (t.place c).col + 1 < (t.place c).cols
  · dsimp only
    rw [if_neg (fun hge => hguard.1 hge hroom), if_pos hroom]
    -- the cursor moved within its row, so nothing scrolls
    have hsettled := hplaced.settle hrows
    have hrow : ({ t.place c with col := (t.place c).col + 1 } : ConsoleTerminal).row < t.rows :=
      hin.row_lt
    rw [Terminal.settle_of_lt hrow] at hsettled
    exact hsettled
  · dsimp only
    rw [if_pos (hguard.2 hroom), if_neg hroom]
    exact (hplaced.lineFeed hin.row_lt).settle hrows

theorem terminalCall_inBounds (hin : t.InBounds) (call : ConsoleCall) :
    (terminalCall t call).InBounds := by
  cases call with
  | setColors fg bg => exact ⟨hin.row_lt, hin.col_lt⟩
  | putc c =>
    change (terminalPut t c).InBounds
    unfold terminalPut
    split
    · exact hin.newline
    split
    · exact hin.carriageReturn
    split
    · exact hin.write c
    · exact hin

/-- One call of the console is one call of the terminal. -/
theorem Shows.call (h : Shows con t) (hin : t.InBounds) (call : ConsoleCall) :
    Shows (call.run con) (terminalCall t call) := by
  cases call with
  | putc c => exact h.putc hin c
  | setColors fg bg => exact { h with fg := rfl, bg := rfl }

/-! ## What no call changes -/

/-- What neither drawing nor the cursor changes, no character changes. -/
theorem fbconPutc_frame {α : Type} (π : Fbcon → α)
    (h : ∀ con screen col row, π { con with screen := screen, curCol := col, curRow := row } =
      π con) (c : Int8) (con : Fbcon) : π (fbconPutc c con) = π con := by
  have hscroll (s : Fbcon) (hs : π s = π con) :
      π (if s.curRow ≥ s.rows then { s.draw (scroll s) with curRow := s.rows - 1 } else s) =
        π con := by
    split
    · exact (h s _ s.curCol _).trans hs
    · exact hs
  unfold fbconPutc
  split
  · rfl
  refine hscroll _ ?_
  split
  · exact h con con.screen _ _
  split
  · exact h con con.screen _ con.curRow
  split
  · have hdrawn : π (con.draw (drawGlyph con con.curCol con.curRow c)) = π con :=
      h con _ con.curCol con.curRow
    generalize con.draw (drawGlyph con con.curCol con.curRow c) = drawn at hdrawn ⊢
    dsimp only
    split
    · exact (h drawn drawn.screen 0 _).trans hdrawn
    · exact (h drawn drawn.screen _ drawn.curRow).trans hdrawn
  · rfl

theorem fbconPutc_layout (c : Int8) (con : Fbcon) :
    (fbconPutc c con).fbPitch32 = con.fbPitch32 ∧ (fbconPutc c con).fbFormat = con.fbFormat :=
  ⟨fbconPutc_frame Fbcon.fbPitch32 (fun _ _ _ _ => rfl) c con,
    fbconPutc_frame Fbcon.fbFormat (fun _ _ _ _ => rfl) c con⟩

theorem ConsoleCall.run_layout (call : ConsoleCall) (con : Fbcon) :
    (call.run con).fbPitch32 = con.fbPitch32 ∧ (call.run con).fbFormat = con.fbFormat := by
  cases call with
  | putc c => exact fbconPutc_layout c con
  | setColors fg bg => exact ⟨rfl, rfl⟩

theorem terminalCall_size (call : ConsoleCall) (t : ConsoleTerminal) :
    (terminalCall t call).rows = t.rows ∧ (terminalCall t call).cols = t.cols := by
  cases call with
  | setColors fg bg => exact ⟨rfl, rfl⟩
  | putc c =>
    change (terminalPut t c).rows = t.rows ∧ (terminalPut t c).cols = t.cols
    unfold terminalPut
    split
    · exact ⟨t.newline_rows, t.newline_cols⟩
    split
    · exact ⟨rfl, rfl⟩
    split
    · exact ⟨t.write_rows c, t.write_cols c⟩
    · exact ⟨rfl, rfl⟩

/-- Every sequence of calls keeps the relation, the layout and the size of the grid. -/
theorem Shows.calls (h : Shows con t) (hin : t.InBounds) (calls : List ConsoleCall) :
    let s := calls.foldl ConsoleCall.run con
    let u := calls.foldl terminalCall t
    Shows s u ∧ s.fbPitch32 = con.fbPitch32 ∧ s.fbFormat = con.fbFormat ∧ u.rows = t.rows ∧
      u.cols = t.cols := by
  induction calls generalizing con t with
  | nil => exact ⟨h, rfl, rfl, rfl, rfl⟩
  | cons call calls ih =>
    obtain ⟨hshows, hpitch, hformat, hrows, hcols⟩ :=
      ih (h.call hin call) (terminalCall_inBounds hin call)
    obtain ⟨hpitch', hformat'⟩ := call.run_layout con
    obtain ⟨hrows', hcols'⟩ := terminalCall_size call t
    exact ⟨hshows, hpitch.trans hpitch', hformat.trans hformat', hrows.trans hrows',
      hcols.trans hcols'⟩

/-! ## From the start -/

/-- The terminal of a framebuffer, in cells of 16 by 16 pixels inside a margin of 8. -/
def bootTerminal (bi : BootFramebuffer) (fg bg : UInt32) : ConsoleTerminal :=
  .clear ((bi.fbHeight.toNat - 16) / 16) ((bi.fbWidth.toNat - 16) / 16) fg bg

/-- The variables that `fbcon_init` sets before it draws. -/
def Fbcon.booted (bi : BootFramebuffer) (con : Fbcon) : Fbcon := { con with
  fb := bi.fbBase
  fbWidth := bi.fbWidth
  fbHeight := bi.fbHeight
  fbPitch32 := bi.fbPitch / 4
  fbFormat := bi.fbFormat
  cols := (bi.fbWidth - 2 * margin) / cellW
  rows := (bi.fbHeight - 2 * margin) / cellH
  curCol := 0
  curRow := 0 }

/-- What `fbcon_init` accepts. -/
theorem fbconInit_accepts {bi : BootFramebuffer} (hinit : (fbconInit bi con).1 = true) :
    320 ≤ bi.fbWidth.toNat ∧ 200 ≤ bi.fbHeight.toNat ∧
      (fbconInit bi con).2 = { (con.booted bi).draw (fillRect (bi.fbPitch / 4) 0 0 bi.fbWidth
        bi.fbHeight (toNative bi.fbFormat con.bg)) with ready := true } := by
  unfold fbconInit at hinit ⊢
  by_cases hformat : bi.fbFormat ≠ sypasFbXrgb8888 ∧ bi.fbFormat ≠ sypasFbXbgr8888
  · rw [if_pos hformat] at hinit
    cases hinit
  rw [if_neg hformat] at hinit ⊢
  by_cases hsmall : bi.fbBase = 0 ∨ bi.fbWidth < 320 ∨ bi.fbHeight < 200
  · rw [if_pos hsmall] at hinit
    cases hinit
  rw [if_neg hsmall]
  simp only [not_or, UInt32.lt_iff_toNat_lt, not_lt] at hsmall
  exact ⟨hsmall.2.1, hsmall.2.2, rfl⟩

/-- How `fbcon_init` leaves the console. -/
theorem fbconInit_shows {bi : BootFramebuffer} (hinit : (fbconInit bi con).1 = true)
    (hpitch : bi.fbWidth.toNat ≤ bi.fbPitch.toNat / 4) :
    Shows (fbconInit bi con).2 (bootTerminal bi con.fg con.bg) ∧
      (bootTerminal bi con.fg con.bg).InBounds ∧
      (fbconInit bi con).2.fbPitch32.toNat = bi.fbPitch.toNat / 4 ∧
      (fbconInit bi con).2.fbFormat = bi.fbFormat := by
  obtain ⟨hwidth, hheight, hafter⟩ := fbconInit_accepts hinit
  rw [hafter]
  have hlt := bi.fbHeight.toNat_lt
  have hfour : (bi.fbPitch / 4).toNat = bi.fbPitch.toNat / 4 := UInt32.toNat_div _ _
  have h0 : (0 : UInt32).toNat = 0 := rfl
  have hcells : ∀ k : UInt32, 16 ≤ k.toNat →
      ((k - 2 * margin) / cellW).toNat = (k.toNat - 16) / 16 := by
    intro k hk
    have hmargins : (2 * margin).toNat = 16 := by decide
    rw [UInt32.toNat_div, toNat_cellW,
      UInt32.toNat_sub_of_le _ _ (UInt32.le_iff_toNat_le.2 (by rw [hmargins]; exact hk)), hmargins]
  refine ⟨?_, ⟨?_, ?_⟩, hfour, rfl⟩
  · refine
      { ready := rfl
        pitch := by rw [← hfour] at hpitch; exact hpitch
        rows := hcells bi.fbHeight (by omega)
        cols := hcells bi.fbWidth (by omega)
        height := ?_
        width := ?_
        row := rfl
        col := rfl
        fg := rfl
        bg := rfl
        cells := ?_ }
    · change 16 + (bi.fbHeight.toNat - 16) / 16 * 16 ≤ bi.fbHeight.toNat
      omega
    · change 16 + (bi.fbWidth.toNat - 16) / 16 * 16 ≤ bi.fbWidth.toNat
      omega
    -- the screen is filled with the background, which is how a blank looks
    · intro r hr c hc y hy x hx
      change r < (bi.fbHeight.toNat - 16) / 16 at hr
      change c < (bi.fbWidth.toNat - 16) / 16 at hc
      dsimp only [Fbcon.draw, Fbcon.booted]
      rw [fillRect_pixel _ (by rw [h0, hfour]; omega) (by rw [h0]; omega) _ _
        (by rw [hfour]; omega), h0, if_pos (by omega)]
      rfl
  · change 0 < (bi.fbHeight.toNat - 16) / 16
    omega
  · change 0 < (bi.fbWidth.toNat - 16) / 16
    omega

/-- The smallest framebuffer that the console accepts. -/
def smallFramebuffer : BootFramebuffer where
  fbBase := 0x80000000
  fbWidth := 320
  fbHeight := 200
  fbPitch := 1280
  fbFormat := sypasFbXbgr8888

end Sypas
