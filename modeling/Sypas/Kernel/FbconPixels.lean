import Sypas.Kernel.Fbcon
import Sypas.Lib.Word

/-!
# What the console draws

Each drawing routine, seen by lines and columns of the framebuffer: which pixels it
sets and to what. All other pixels inside the pitch keep their values.

## Main results

- `Sypas.fillRect_pixel`, `Sypas.drawGlyph_pixel`, `Sypas.scroll_pixel`
-/

namespace Sypas

open Prog Raster

/-! ## Coordinates -/

/-- The 64-bit index does not wrap. -/
theorem pixelIndex_eq (fbPitch32 y x : UInt32) :
    pixelIndex fbPitch32 y x = y.toNat * fbPitch32.toNat + x.toNat := by
  have hy := y.toNat_lt
  have hx := x.toNat_lt
  have hp := fbPitch32.toNat_lt
  have hmul : y.toNat * fbPitch32.toNat ≤ (2 ^ 32 - 1) * (2 ^ 32 - 1) :=
    Nat.mul_le_mul (by omega) (by omega)
  rw [pixelIndex, UInt64.toNat_add, UInt64.toNat_mul, UInt32.toNat_toUInt64, UInt32.toNat_toUInt64,
    UInt32.toNat_toUInt64, Nat.mod_eq_of_lt (by omega), Nat.mod_eq_of_lt (by omega)]

theorem toNat_add_ofNat {y : UInt32} {k : ℕ} (h : y.toNat + k < 2 ^ 32) :
    (y + UInt32.ofNat k).toNat = y.toNat + k := by
  rw [UInt32.toNat_add, UInt32.toNat_ofNat', Nat.mod_eq_of_lt (a := k) (by omega),
    Nat.mod_eq_of_lt h]

theorem toNat_cellW : cellW.toNat = 16 := by decide

theorem toNat_cellH : cellH.toNat = 16 := by decide

theorem toNat_margin : margin.toNat = 8 := by decide

/-- The first column or line of a cell, in pixels. -/
theorem toNat_cellOrigin {k : UInt32} (h : 8 + k.toNat * 16 < 2 ^ 32) :
    (margin + k * cellW).toNat = 8 + k.toNat * 16 ∧
      (margin + k * cellH).toNat = 8 + k.toNat * 16 := by
  have hmul : (k * cellW).toNat = k.toNat * 16 := by
    rw [UInt32.toNat_mul, toNat_cellW, Nat.mod_eq_of_lt (by omega)]
  have horigin : (margin + k * cellW).toNat = 8 + k.toNat * 16 := by
    rw [UInt32.toNat_add, toNat_margin, hmul, Nat.mod_eq_of_lt h]
  exact ⟨horigin, horigin⟩

/-! ## Rectangles -/

theorem fillRect_pixel {fbPitch32 x y w h : UInt32} (native : UInt32)
    (hx : x.toNat + w.toNat ≤ fbPitch32.toNat) (hy : y.toNat + h.toNat < 2 ^ 32)
    (s : Raster UInt32) (y' : ℕ) {x' : ℕ} (hx' : x' < fbPitch32.toNat) :
    (fillRect fbPitch32 x y w h native s).2.pixel fbPitch32.toNat y' x' =
      if (y.toNat ≤ y' ∧ y' < y.toNat + h.toNat) ∧ x.toNat ≤ x' ∧ x' < x.toNat + w.toNat then native
      else s.pixel fbPitch32.toNat y' x' := by
  have hrun := @forRange_invariant _
    (fun dy => storeRun (pixelIndex fbPitch32 (y + UInt32.ofNat dy) x) w.toNat fun _ => native)
    0 h.toNat
    (fun k (t : Raster UInt32) => t.pixel fbPitch32.toNat y' x' =
      if (y.toNat ≤ y' ∧ y' < y.toNat + k) ∧ x.toNat ≤ x' ∧ x' < x.toNat + w.toNat then native
      else s.pixel fbPitch32.toNat y' x')
    (Nat.zero_le h.toNat) s (by rw [if_neg (by omega)]) ?_
  · exact hrun
  · intro k t _ hk ht
    have hline := @mem_line_iff fbPitch32.toNat (y.toNat + k) x.toNat w.toNat y' x' hx hx'
    rw [Raster.pixel] at ht ⊢
    rw [storeRun_px, pixelIndex_eq, toNat_add_ofNat (by omega), if_congr hline rfl rfl, ht]
    by_cases hhere : y' = y.toNat + k ∧ x.toNat ≤ x' ∧ x' < x.toNat + w.toNat
    · rw [if_pos hhere, if_pos (by omega)]
    · rw [if_neg hhere]
      exact if_congr (by omega) rfl rfl

/-! ## Glyphs -/

/-- Whether the glyph of `ch` is set in row `gy` and column `gx`. -/
def glyphBit (ch : Int8) (gy gx : ℕ) : Bool :=
  ((glyphBits ch).getD gy 0 >>> UInt8.ofNat gx) &&& 1 ≠ 0

/-- The colour of a glyph's pixel. -/
def glyphPixel (fbFormat : UInt32) (ch : Int8) (fg bg : UInt32) (gy gx : ℕ) : UInt32 :=
  if glyphBit ch gy gx then toNative fbFormat fg else toNative fbFormat bg

theorem toNat_glyphLine {y0 : UInt32} {gy sy : ℕ} (hy0 : y0.toNat + 16 < 2 ^ 32) (hgy : gy < 8)
    (hsy : sy < 2) :
    (y0 + UInt32.ofNat gy * glyphScale + UInt32.ofNat sy).toNat = y0.toNat + (gy * 2 + sy) := by
  have hscale : glyphScale.toNat = 2 := by decide
  have hmul : UInt32.ofNat gy * glyphScale = UInt32.ofNat (gy * 2) := by
    rw [← UInt32.toNat_inj, UInt32.toNat_mul, UInt32.toNat_ofNat', UInt32.toNat_ofNat', hscale]
    omega
  rw [hmul, toNat_add_ofNat (by rw [toNat_add_ofNat (by omega)]; omega),
    toNat_add_ofNat (by omega), Nat.add_assoc]

theorem drawGlyph_pixel {con : Fbcon} {col row : UInt32} (ch : Int8)
    (hcol : 8 + col.toNat * 16 + 16 ≤ con.fbPitch32.toNat)
    (hrow : 8 + row.toNat * 16 + 16 < 2 ^ 32) (s : Raster UInt32) (y' : ℕ) {x' : ℕ}
    (hx' : x' < con.fbPitch32.toNat) :
    (drawGlyph con col row ch s).2.pixel con.fbPitch32.toNat y' x' =
      if (8 + row.toNat * 16 ≤ y' ∧ y' < 8 + row.toNat * 16 + 16) ∧
          8 + col.toNat * 16 ≤ x' ∧ x' < 8 + col.toNat * 16 + 16 then
        glyphPixel con.fbFormat ch con.fg con.bg ((y' - (8 + row.toNat * 16)) / 2)
          ((x' - (8 + col.toNat * 16)) / 2)
      else s.pixel con.fbPitch32.toNat y' x' := by
  have hp := con.fbPitch32.toNat_lt
  have hsize : glyphSize.toNat = 8 := by decide
  have hscale : glyphScale.toNat = 2 := by decide
  obtain ⟨hx0, -⟩ := toNat_cellOrigin (k := col) (by omega)
  obtain ⟨-, hy0⟩ := toNat_cellOrigin (k := row) (by omega)
  unfold drawGlyph
  dsimp only
  rw [hsize, hscale]
  generalize margin + col * cellW = x0 at hx0 ⊢
  generalize margin + row * cellH = y0 at hy0 ⊢
  -- the picture after `n` lines
  set drawn : ℕ → Raster UInt32 → Prop := fun n t => t.pixel con.fbPitch32.toNat y' x' =
    if (y0.toNat ≤ y' ∧ y' < y0.toNat + n) ∧ x0.toNat ≤ x' ∧ x' < x0.toNat + 16 then
      glyphPixel con.fbFormat ch con.fg con.bg ((y' - y0.toNat) / 2) ((x' - x0.toNat) / 2)
    else s.pixel con.fbPitch32.toNat y' x' with hdrawn
  rw [← hx0, ← hy0]
  have hline : ∀ gy sy t, gy < 8 → sy < 2 → drawn (gy * 2 + sy) t →
      drawn (gy * 2 + sy + 1) (forRange 0 8 (fun gx => storeRun (pixelIndex con.fbPitch32
        (y0 + UInt32.ofNat gy * glyphScale + UInt32.ofNat sy) x0 + gx * 2) 2 fun _ =>
          if ((glyphBits ch).getD gy 0 >>> UInt8.ofNat gx) &&& 1 ≠ 0 then
            toNative con.fbFormat con.fg else toNative con.fbFormat con.bg) t).2 := by
    intro gy sy t hgy hsy ht
    have hy : (y0 + UInt32.ofNat gy * glyphScale + UInt32.ofNat sy).toNat =
        y0.toNat + (gy * 2 + sy) := toNat_glyphLine (by omega) hgy hsy
    have hmem := @mem_line_iff con.fbPitch32.toNat (y0.toNat + (gy * 2 + sy)) x0.toNat 16 y' x'
      (by omega) hx'
    rw [hdrawn] at ht ⊢
    dsimp only at ht ⊢
    rw [Raster.pixel] at ht ⊢
    rw [storeRuns_px, pixelIndex_eq, hy, if_congr hmem rfl rfl, ht]
    by_cases hhere : y' = y0.toNat + (gy * 2 + sy) ∧ x0.toNat ≤ x' ∧ x' < x0.toNat + 16
    · have hin : (y0.toNat ≤ y' ∧ y' < y0.toNat + (gy * 2 + sy + 1)) ∧
          x0.toNat ≤ x' ∧ x' < x0.toNat + 16 := by omega
      have hcolumn : y' * con.fbPitch32.toNat + x' -
          ((y0.toNat + (gy * 2 + sy)) * con.fbPitch32.toNat + x0.toNat) = x' - x0.toNat := by
        rw [hhere.1, Nat.add_sub_add_left]
      have hrowbits : (y' - y0.toNat) / 2 = gy := by omega
      rw [if_pos hhere, if_pos hin, hcolumn, hrowbits, glyphPixel, glyphBit]
      simp only [decide_eq_true_eq]
    · rw [if_neg hhere]
      exact if_congr (by omega) rfl rfl
  refine forRange_invariant (fun gy t => drawn (gy * 2) t) (Nat.zero_le 8) ?_ ?_
  · rw [hdrawn]
    dsimp only
    rw [if_neg (by omega)]
  · intro gy t _ hgy ht
    have hrow := forRange_invariant (fun sy u => drawn (gy * 2 + sy) u) (Nat.zero_le 2)
      ht (fun sy u _ hsy hu => hline gy sy u hgy hsy hu)
    rwa [Nat.add_mul]

/-! ## Scrolling -/

/-- The stretches that scrolling copies: no 64-bit product wraps. -/
theorem scroll_extent {con : Fbcon} (hrows : 1 ≤ con.rows.toNat)
    (hheight : 8 + con.rows.toNat * 16 < 2 ^ 32) :
    (margin.toUInt64 * con.fbPitch32.toUInt64).toNat = 8 * con.fbPitch32.toNat ∧
      (margin.toUInt64 * con.fbPitch32.toUInt64 +
        cellH.toUInt64 * con.fbPitch32.toUInt64).toNat = 24 * con.fbPitch32.toNat ∧
      (cellH.toUInt64 * con.fbPitch32.toUInt64 * (con.rows - 1).toUInt64).toNat =
        (con.rows.toNat - 1) * 16 * con.fbPitch32.toNat := by
  have hp := con.fbPitch32.toNat_lt
  have h1 : (1 : UInt32).toNat = 1 := rfl
  have hpred : (con.rows - 1).toNat = con.rows.toNat - 1 :=
    UInt32.toNat_sub_of_le _ _ (UInt32.le_iff_toNat_le.2 hrows)
  have hrowPx : (cellH.toUInt64 * con.fbPitch32.toUInt64).toNat = 16 * con.fbPitch32.toNat := by
    rw [UInt64.toNat_mul, UInt32.toNat_toUInt64, UInt32.toNat_toUInt64, toNat_cellH,
      Nat.mod_eq_of_lt (by omega)]
  have hdst : (margin.toUInt64 * con.fbPitch32.toUInt64).toNat = 8 * con.fbPitch32.toNat := by
    rw [UInt64.toNat_mul, UInt32.toNat_toUInt64, UInt32.toNat_toUInt64, toNat_margin,
      Nat.mod_eq_of_lt (by omega)]
  refine ⟨hdst, ?_, ?_⟩
  · rw [Word.toNat_add_of_lt (by omega), hdst, hrowPx]
    omega
  · have hfits : 16 * con.fbPitch32.toNat * (con.rows.toNat - 1) ≤ 16 * (2 ^ 32 - 1) * 2 ^ 28 :=
      Nat.mul_le_mul (by omega) (by omega)
    rw [UInt64.toNat_mul, hrowPx, UInt32.toNat_toUInt64, hpred, Nat.mod_eq_of_lt (by omega)]
    ring

/-- The line that scrolling clears from. -/
theorem toNat_lastRow {con : Fbcon} (hrows : 1 ≤ con.rows.toNat)
    (hheight : 8 + con.rows.toNat * 16 < 2 ^ 32) :
    (margin + (con.rows - 1) * cellH).toNat = 8 + (con.rows.toNat - 1) * 16 := by
  have h1 : (1 : UInt32).toNat = 1 := rfl
  have hpred : (con.rows - 1).toNat = con.rows.toNat - 1 :=
    UInt32.toNat_sub_of_le _ _ (UInt32.le_iff_toNat_le.2 hrows)
  obtain ⟨-, hlast⟩ := toNat_cellOrigin (k := con.rows - 1) (by omega)
  rw [hlast, hpred]

/-- Scrolling moves every line of cells up by one, over the whole pitch, and clears the
    last one over the width. -/
theorem scroll_pixel {con : Fbcon} (hwidth : con.fbWidth.toNat ≤ con.fbPitch32.toNat)
    (hrows : 1 ≤ con.rows.toNat) (hheight : 8 + con.rows.toNat * 16 < 2 ^ 32) (s : Raster UInt32)
    (y' : ℕ) {x' : ℕ} (hx' : x' < con.fbPitch32.toNat) :
    (scroll con s).2.pixel con.fbPitch32.toNat y' x' =
      if (8 + (con.rows.toNat - 1) * 16 ≤ y' ∧ y' < 8 + con.rows.toNat * 16) ∧
          x' < con.fbWidth.toNat then toNative con.fbFormat con.bg
      else if 8 ≤ y' ∧ y' < 8 + (con.rows.toNat - 1) * 16 then
        s.pixel con.fbPitch32.toNat (y' + 16) x'
      else s.pixel con.fbPitch32.toNat y' x' := by
  have h0 : (0 : UInt32).toNat = 0 := rfl
  obtain ⟨hdst, hsrc, hcount⟩ := scroll_extent hrows hheight
  have hlast := toNat_lastRow hrows hheight
  unfold scroll
  simp only [bind_run]
  rw [fillRect_pixel _ (by rw [h0]; omega) (by rw [hlast, toNat_cellH]; omega) _ _ hx', hlast,
    toNat_cellH, h0]
  have hmem := @mem_lines_iff con.fbPitch32.toNat 8 ((con.rows.toNat - 1) * 16) y' x' hx'
  have hcopied : (copyRun (margin.toUInt64 * con.fbPitch32.toUInt64).toNat
      (margin.toUInt64 * con.fbPitch32.toUInt64 + cellH.toUInt64 * con.fbPitch32.toUInt64).toNat
      (cellH.toUInt64 * con.fbPitch32.toUInt64 * (con.rows - 1).toUInt64).toNat s).2.pixel
        con.fbPitch32.toNat y' x' =
      if 8 ≤ y' ∧ y' < 8 + (con.rows.toNat - 1) * 16 then
        s.pixel con.fbPitch32.toNat (y' + 16) x'
      else s.pixel con.fbPitch32.toNat y' x' := by
    rw [hdst, hsrc, hcount, Raster.pixel, copyRun_px _ (by omega), if_congr hmem rfl rfl]
    by_cases hin : 8 ≤ y' ∧ y' < 8 + (con.rows.toNat - 1) * 16
    · have hle := (hmem.2 hin).1
      rw [if_pos hin, if_pos hin, Raster.pixel, Nat.add_mul]
      congr 1
      omega
    · rw [if_neg hin, if_neg hin, Raster.pixel]
  rw [hcopied]
  exact if_congr (by omega) rfl rfl

end Sypas
