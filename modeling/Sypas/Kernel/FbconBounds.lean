import Sypas.Kernel.FbconRefine

/-!
# The bounds of the console

The cursor stays inside the grid, the coordinates are computed without wrapping, and no drawing
routine touches a pixel behind the last line of the framebuffer.

## Main definitions

- `Sypas.Fbcon.CoordinatesExact` — the 32-bit coordinates of the next call have their exact values

## Main results

- `Sypas.fillRect_below`, `Sypas.drawGlyph_below`, `Sypas.scroll_below` — the drawing routines
- `Sypas.Shows.call_touches` — one call
- `Sypas.fbcon_bounds` — every sequence of calls after `fbcon_init`
-/

namespace Sypas

open Prog Raster

/-! ## The drawing routines -/

theorem line_below {pitch y n x w : ℕ} (hy : y < n) (hw : x + w ≤ pitch) :
    y * pitch + x + w ≤ n * pitch := by
  have hmul := Nat.mul_le_mul_right pitch (show y + 1 ≤ n from hy)
  rw [Nat.add_mul, Nat.one_mul] at hmul
  omega

theorem fillRect_below {fbPitch32 x y w h : UInt32} (native : UInt32) {height : ℕ}
    (hx : x.toNat + w.toNat ≤ fbPitch32.toNat) (hy : y.toNat + h.toNat ≤ height)
    (hheight : height < 2 ^ 32) :
    Below (height * fbPitch32.toNat) (fillRect fbPitch32 x y w h native) := by
  refine .forRange fun dy _ hdy => storeRun_below _ ?_
  rw [pixelIndex_eq, toNat_add_ofNat (by omega)]
  exact line_below (by omega) hx

theorem drawGlyph_below {con : Fbcon} {col row : UInt32} (ch : Int8) {height : ℕ}
    (hcol : 8 + col.toNat * 16 + 16 ≤ con.fbPitch32.toNat)
    (hrow : 8 + row.toNat * 16 + 16 ≤ height) (hheight : height < 2 ^ 32) :
    Below (height * con.fbPitch32.toNat) (drawGlyph con col row ch) := by
  have hp := con.fbPitch32.toNat_lt
  have hsize : glyphSize.toNat = 8 := by decide
  have hscale : glyphScale.toNat = 2 := by decide
  obtain ⟨hx0, -⟩ := toNat_cellOrigin (k := col) (by omega)
  obtain ⟨-, hy0⟩ := toNat_cellOrigin (k := row) (by omega)
  unfold drawGlyph
  dsimp only
  rw [hsize, hscale]
  refine .forRange fun gy _ hgy => .forRange fun sy _ hsy => .forRange fun gx _ hgx => ?_
  refine storeRun_below _ ?_
  rw [pixelIndex_eq, toNat_glyphLine (by omega) hgy hsy, hx0, hy0]
  have hline := @line_below con.fbPitch32.toNat _ _ (8 + col.toNat * 16) 16
    (show 8 + row.toNat * 16 + (gy * 2 + sy) < height by omega) (by omega)
  omega

/-- The source of the copy reaches one line of cells further than its destination, up to the end
    of the grid. -/
theorem scroll_below {con : Fbcon} {height : ℕ}
    (hwidth : con.fbWidth.toNat ≤ con.fbPitch32.toNat) (hrows : 1 ≤ con.rows.toNat)
    (hgrid : 8 + con.rows.toNat * 16 ≤ height) (hheight : height < 2 ^ 32) :
    Below (height * con.fbPitch32.toNat) (scroll con) := by
  have h0 : (0 : UInt32).toNat = 0 := rfl
  obtain ⟨hdst, hsrc, hcount⟩ := scroll_extent hrows (by omega)
  have hlast := toNat_lastRow hrows (by omega)
  refine .bind (copyRun_below ?_ ?_) fun _ => fillRect_below _ ?_ ?_ hheight
  · rw [hdst, hcount, ← Nat.add_mul]
    exact Nat.mul_le_mul_right _ (by omega)
  · rw [hsrc, hcount, ← Nat.add_mul]
    exact Nat.mul_le_mul_right _ (by omega)
  · rw [h0]
    omega
  · rw [hlast, toNat_cellH]
    omega

/-! ## Coordinates -/

/-- Every 32-bit coordinate that a call computes from this state has its exact value: the corner
    and the lines of the cursor's cell, the next cursor, the last row and its lines. -/
structure Fbcon.CoordinatesExact (con : Fbcon) : Prop where
  cellX : (margin + con.curCol * cellW).toNat = margin.toNat + con.curCol.toNat * cellW.toNat
  cellY : (margin + con.curRow * cellH).toNat = margin.toNat + con.curRow.toNat * cellH.toNat
  glyphLine : ∀ gy < glyphSize.toNat, ∀ sy < glyphScale.toNat,
    (margin + con.curRow * cellH + UInt32.ofNat gy * glyphScale + UInt32.ofNat sy).toNat =
      margin.toNat + con.curRow.toNat * cellH.toNat + (gy * glyphScale.toNat + sy)
  nextCol : (con.curCol + 1).toNat = con.curCol.toNat + 1
  nextRow : (con.curRow + 1).toNat = con.curRow.toNat + 1
  lastRow : (con.rows - 1).toNat + 1 = con.rows.toNat
  lastY : (margin + (con.rows - 1) * cellH).toNat =
    margin.toNat + (con.rows.toNat - 1) * cellH.toNat
  clearLine : ∀ dy < cellH.toNat, (margin + (con.rows - 1) * cellH + UInt32.ofNat dy).toNat =
    margin.toNat + (con.rows.toNat - 1) * cellH.toNat + dy

variable {con : Fbcon} {t : ConsoleTerminal}

theorem Shows.coordinatesExact (h : Shows con t) (hin : t.InBounds) : con.CoordinatesExact := by
  obtain ⟨hrow, hcol⟩ := hin
  have hrows := h.rows
  have hcols := h.cols
  have hcurRow := h.row
  have hcurCol := h.col
  have hheight := h.height
  have hwidth := h.width
  have hlt := con.fbHeight.toNat_lt
  have hlt' := con.fbWidth.toNat_lt
  have h1 : (1 : UInt32).toNat = 1 := rfl
  have hsize : glyphSize.toNat = 8 := by decide
  have hscale : glyphScale.toNat = 2 := by decide
  obtain ⟨hx0, -⟩ := toNat_cellOrigin (k := con.curCol) (by omega)
  obtain ⟨-, hy0⟩ := toNat_cellOrigin (k := con.curRow) (by omega)
  have hlast : (margin + (con.rows - 1) * cellH).toNat = 8 + (con.rows.toNat - 1) * 16 :=
    toNat_lastRow (by omega) (by omega)
  refine ⟨?_, ?_, ?_, ?_, ?_, ?_, ?_, ?_⟩
  · rw [hx0, toNat_margin, toNat_cellW]
  · rw [hy0, toNat_margin, toNat_cellH]
  · intro gy hgy sy hsy
    rw [hsize] at hgy
    rw [hscale] at hsy ⊢
    rw [toNat_glyphLine (by omega) hgy hsy, hy0, toNat_margin, toNat_cellH]
  · exact toNat_succ (n := t.cols) (by omega) h.cols_lt
  · exact toNat_succ (n := t.rows) (by omega) h.rows_lt
  · rw [UInt32.toNat_sub_of_le _ _ (UInt32.le_iff_toNat_le.2 (by omega)), h1]
    omega
  · rw [hlast, toNat_margin, toNat_cellH]
  · intro dy hdy
    rw [toNat_cellH] at hdy
    rw [toNat_add_ofNat (by omega), hlast, toNat_margin, toNat_cellH]

/-! ## One call -/

/-- The pixels that `con'` has touched since `con` lie in front of `n`. -/
def Touches (n : ℕ) (con con' : Fbcon) : Prop :=
  ∀ i ∈ con'.screen.log, i ∈ con.screen.log ∨ i < n

theorem Touches.refl (n : ℕ) (con : Fbcon) : Touches n con con := fun _ hi => .inl hi

theorem Touches.trans {n : ℕ} {con con' con'' : Fbcon} (h : Touches n con con')
    (h' : Touches n con' con'') : Touches n con con'' := by
  intro i hi
  obtain hi | hi := h' i hi
  · exact h i hi
  · exact .inr hi

theorem Touches.draw {n : ℕ} (con : Fbcon) {prog : StateM (Raster UInt32) Unit}
    (h : Below n prog) : Touches n con (con.draw prog) := h con.screen

theorem Fbcon.draw_size (con : Fbcon) (prog : StateM (Raster UInt32) Unit) :
    (con.draw prog).fbHeight.toNat * (con.draw prog).fbPitch32.toNat =
      con.fbHeight.toNat * con.fbPitch32.toNat := rfl

/-- Moving the cursor touches no pixel. -/
theorem Touches.moveTo {n : ℕ} {con con' : Fbcon} (h : Touches n con con') (col row : UInt32) :
    Touches n con { con' with curCol := col, curRow := row } := h

theorem Shows.settle_touches (h : Shows con t) (hrows : 0 < t.rows) {n : ℕ}
    (hn : con.fbHeight.toNat * con.fbPitch32.toNat = n) :
    Touches n con
      (if con.curRow ≥ con.rows then { con.draw (scroll con) with curRow := con.rows - 1 }
        else con) := by
  have hcount := h.rows
  have hheight := h.height
  have hscroll := scroll_below h.pitch (by omega) (by omega) con.fbHeight.toNat_lt
  rw [hn] at hscroll
  by_cases hlow : con.curRow ≥ con.rows
  · rw [if_pos hlow]
    exact (Touches.draw con hscroll).moveTo con.curCol _
  · rw [if_neg hlow]
    exact .refl _ con

theorem Shows.place_touches (h : Shows con t) (hin : t.InBounds) (ch : Int8) :
    Touches (con.fbHeight.toNat * con.fbPitch32.toNat) con
      (con.draw (drawGlyph con con.curCol con.curRow ch)) := by
  obtain ⟨hrow, hcol⟩ := hin
  have hcurRow := h.row
  have hcurCol := h.col
  have hheight := h.height
  have hwidth := h.width
  have hpitch := h.pitch
  exact .draw con (drawGlyph_below ch (by omega) (by omega) con.fbHeight.toNat_lt)

theorem Shows.putc_touches (h : Shows con t) (hin : t.InBounds) (c : Int8) {n : ℕ}
    (hn : con.fbHeight.toNat * con.fbPitch32.toNat = n) : Touches n con (fbconPutc c con) := by
  have hrows : 0 < t.rows := Nat.zero_lt_of_lt hin.row_lt
  have hready : ¬(!con.ready) = true := by simp [h.ready]
  have hmove : ∀ col row, Touches n con { con with curCol := col, curRow := row } :=
    (Touches.refl n con).moveTo
  unfold fbconPutc
  rw [if_neg hready]
  by_cases hnl : c = 10
  · rw [if_pos hnl]
    exact (hmove 0 (con.curRow + 1)).trans ((h.lineFeed hin.row_lt).settle_touches hrows hn)
  rw [if_neg hnl]
  by_cases hcr : c = 13
  · rw [if_pos hcr]
    exact (hmove 0 con.curRow).trans (h.carriageReturn.settle_touches hrows hn)
  rw [if_neg hcr]
  by_cases hprint : c ≥ 0x20
  swap
  · rw [if_neg hprint]
    exact h.settle_touches hrows hn
  rw [if_pos hprint]
  have hplaced := (h.place hin c).nextCol hin.col_lt
  have htouches := h.place_touches hin c
  rw [hn] at htouches
  have hsize := (con.draw_size (drawGlyph con con.curCol con.curRow c)).trans hn
  generalize con.draw (drawGlyph con con.curCol con.curRow c) = drawn at hplaced htouches hsize ⊢
  dsimp only
  by_cases hwrap : drawn.curCol + 1 ≥ drawn.cols
  · rw [if_pos hwrap]
    exact (htouches.moveTo 0 (drawn.curRow + 1)).trans
      ((hplaced.lineFeed hin.row_lt).settle_touches hrows hsize)
  · rw [if_neg hwrap]
    exact (htouches.moveTo (drawn.curCol + 1) drawn.curRow).trans
      (hplaced.settle_touches hrows hsize)

/-- One call touches no pixel behind the last line. -/
theorem Shows.call_touches (h : Shows con t) (hin : t.InBounds) (call : ConsoleCall) :
    Touches (con.fbHeight.toNat * con.fbPitch32.toNat) con (call.run con) := by
  cases call with
  | putc c => exact h.putc_touches hin c rfl
  | setColors fg bg => exact fun i hi => .inl hi

/-! ## Every sequence of calls -/

theorem ConsoleCall.run_size (call : ConsoleCall) (con : Fbcon) :
    (call.run con).fbHeight.toNat * (call.run con).fbPitch32.toNat =
      con.fbHeight.toNat * con.fbPitch32.toNat := by
  cases call with
  | putc c =>
    exact fbconPutc_frame (fun con => con.fbHeight.toNat * con.fbPitch32.toNat)
      (fun _ _ _ _ => rfl) c con
  | setColors fg bg => rfl

theorem Shows.calls_touches (h : Shows con t) (hin : t.InBounds) (calls : List ConsoleCall) :
    Touches (con.fbHeight.toNat * con.fbPitch32.toNat) con (calls.foldl ConsoleCall.run con) := by
  induction calls generalizing con t with
  | nil => exact .refl _ con
  | cons call calls ih =>
    have hrest := ih (h.call hin call) (terminalCall_inBounds hin call)
    rw [call.run_size] at hrest
    exact (h.call_touches hin call).trans hrest

theorem terminalCalls_inBounds (hin : t.InBounds) (calls : List ConsoleCall) :
    (calls.foldl terminalCall t).InBounds := by
  induction calls generalizing t with
  | nil => exact hin
  | cons call calls ih => exact ih (terminalCall_inBounds hin call)

/-- What `fbcon_init` accepts is large enough for its own subtractions, and it clears the
    framebuffer without leaving it. -/
theorem fbconInit_bounds {bi : BootFramebuffer} (hinit : (fbconInit bi con).1 = true)
    (hpitch : bi.fbWidth.toNat ≤ bi.fbPitch.toNat / 4) :
    2 * margin.toNat ≤ bi.fbWidth.toNat ∧ 2 * margin.toNat ≤ bi.fbHeight.toNat ∧
      (fbconInit bi con).2.fbHeight = bi.fbHeight ∧
      Touches (bi.fbHeight.toNat * (bi.fbPitch.toNat / 4)) con (fbconInit bi con).2 := by
  obtain ⟨hwidth, hheight, hafter⟩ := fbconInit_accepts hinit
  have hmargin : 2 * margin.toNat = 16 := by decide
  have hfour : (bi.fbPitch / 4).toNat = bi.fbPitch.toNat / 4 := UInt32.toNat_div _ _
  have h0 : (0 : UInt32).toNat = 0 := rfl
  have hfill : Below (bi.fbHeight.toNat * (bi.fbPitch / 4).toNat) (fillRect (bi.fbPitch / 4) 0 0
      bi.fbWidth bi.fbHeight (toNative bi.fbFormat con.bg)) :=
    fillRect_below _ (by rw [h0, hfour]; omega) (by rw [h0]; omega) bi.fbHeight.toNat_lt
  rw [hafter, ← hfour]
  exact ⟨by omega, by omega, rfl, Touches.draw (con.booted bi) hfill⟩

/-- After `fbcon_init` accepts a framebuffer whose pitch covers its width, and after any calls of
    `fbcon_putc` and `fbcon_set_colors`: the cursor is in the grid, the next call computes its
    coordinates without wrapping, and every pixel touched so far lies in the framebuffer. -/
theorem fbcon_bounds {bi : BootFramebuffer} (hinit : (fbconInit bi con).1 = true)
    (hpitch : bi.fbWidth.toNat ≤ bi.fbPitch.toNat / 4) :
    ((bi.fbWidth - 2 * margin).toNat = bi.fbWidth.toNat - 2 * margin.toNat ∧
      (bi.fbHeight - 2 * margin).toNat = bi.fbHeight.toNat - 2 * margin.toNat ∧
      ∀ dy < bi.fbHeight.toNat, ((0 : UInt32) + UInt32.ofNat dy).toNat = dy) ∧
    ∀ calls : List ConsoleCall, let s := calls.foldl ConsoleCall.run (fbconInit bi con).2
      s.curCol < s.cols ∧ s.curRow < s.rows ∧ s.CoordinatesExact ∧
        ∀ i ∈ s.screen.log,
          i ∈ con.screen.log ∨ i < bi.fbHeight.toNat * (bi.fbPitch.toNat / 4) := by
  obtain ⟨hwide, hhigh, hheight, hclear⟩ := fbconInit_bounds hinit hpitch
  obtain ⟨hstart, hin, hfour, -⟩ := fbconInit_shows hinit hpitch
  have hmargins : (2 * margin).toNat = 2 * margin.toNat := by decide
  have hsub : ∀ k : UInt32, 2 * margin.toNat ≤ k.toNat →
      (k - 2 * margin).toNat = k.toNat - 2 * margin.toNat := by
    intro k hk
    rw [UInt32.toNat_sub_of_le _ _ (UInt32.le_iff_toNat_le.2 (hmargins.trans_le hk)), hmargins]
  refine ⟨⟨hsub _ hwide, hsub _ hhigh, fun dy hdy => ?_⟩, fun calls => ?_⟩
  · have hlt := bi.fbHeight.toNat_lt
    have h0 : (0 : UInt32).toNat = 0 := rfl
    rw [toNat_add_ofNat (by omega), h0, Nat.zero_add]
  · intro s
    obtain ⟨hshows, -, -, hrows, hcols⟩ := hstart.calls hin calls
    have hin' := terminalCalls_inBounds hin calls
    have htouches := hstart.calls_touches hin calls
    rw [hheight, hfour] at htouches
    refine ⟨?_, ?_, hshows.coordinatesExact hin', hclear.trans htouches⟩
    · rw [UInt32.lt_iff_toNat_lt, hshows.col, hshows.cols]
      exact hin'.col_lt
    · rw [UInt32.lt_iff_toNat_lt, hshows.row, hshows.rows]
      exact hin'.row_lt

theorem smallFramebuffer_bounds :
    let calls := [.putc 72, .putc 10, .setColors 0x000000FF 0, .putc 105]
    let s := calls.foldl ConsoleCall.run (fbconInit smallFramebuffer (.zero ⟨fun _ => 0, []⟩)).2
    s.curCol < s.cols ∧ s.curRow < s.rows ∧ s.CoordinatesExact ∧
      ∀ i ∈ s.screen.log, i ∈ ([] : List ℕ) ∨ i < 200 * (1280 / 4) :=
  (fbcon_bounds (show (fbconInit smallFramebuffer (.zero ⟨fun _ => 0, []⟩)).1 = true from rfl)
    (by decide)).2 _

end Sypas
