import Sypas.BootProto
import Sypas.Kernel.Font8x8
import Sypas.Lib.Raster

/-!
# The framebuffer console (`kernel/graphics/fbcon.c`)

The console's static variables are one record. The framebuffer is pixel memory indexed
from `fb`, and a pixel index is computed as in the source: coordinates in 32 bits, the
product with the pitch in 64.

## Main definitions

- `Sypas.fillRect`, `Sypas.drawGlyph`, `Sypas.scroll` — what is drawn
- `Sypas.fbconInit`, `Sypas.fbconSetColors`, `Sypas.fbconPutc` — the console's interface
-/

namespace Sypas

open Prog Raster

def glyphSize : UInt32 := 8
def glyphScale : UInt32 := 2
def cellW : UInt32 := glyphSize * glyphScale
def cellH : UInt32 := glyphSize * glyphScale
def margin : UInt32 := 8

/-- The framebuffer fields of `sypas_bootinfo_t`. -/
structure BootFramebuffer where
  fbBase : UInt64
  fbWidth : UInt32
  fbHeight : UInt32
  fbPitch : UInt32
  fbFormat : UInt32
deriving DecidableEq, Repr

/-- The static variables of `fbcon.c`, with the memory that `fb` points to. -/
structure Fbcon where
  fb : UInt64
  fbWidth : UInt32
  fbHeight : UInt32
  fbPitch32 : UInt32
  fbFormat : UInt32
  cols : UInt32
  rows : UInt32
  curCol : UInt32
  curRow : UInt32
  fg : UInt32
  bg : UInt32
  ready : Bool
  screen : Raster UInt32

/-- The console before anything has run, over the given memory. -/
def Fbcon.zero (screen : Raster UInt32) : Fbcon where
  fb := 0
  fbWidth := 0
  fbHeight := 0
  fbPitch32 := 0
  fbFormat := 0
  cols := 0
  rows := 0
  curCol := 0
  curRow := 0
  fg := 0x00E8E3D5
  bg := 0x000B0E14
  ready := false
  screen := screen

/-- `to_native`. -/
def toNative (fbFormat rgb : UInt32) : UInt32 :=
  if fbFormat = sypasFbXbgr8888 then
    (rgb &&& (0x0000FF00 : UInt32)) ||| ((rgb &&& (0x00FF0000 : UInt32)) >>> (16 : UInt32)) |||
      ((rgb &&& (0x000000FF : UInt32)) <<< (16 : UInt32))
  else rgb

/-- The index of the pixel at line `y` and column `x`. -/
def pixelIndex (fbPitch32 y x : UInt32) : ℕ :=
  (y.toUInt64 * fbPitch32.toUInt64 + x.toUInt64).toNat

/-- `fill_rect`. -/
def fillRect (fbPitch32 x y w h native : UInt32) : StateM (Raster UInt32) Unit :=
  forRange 0 h.toNat fun dy =>
    storeRun (pixelIndex fbPitch32 (y + UInt32.ofNat dy) x) w.toNat fun _ => native

/-- The glyph of a character. -/
def glyphBits (ch : Int8) : List UInt8 := font8x8Basic.getD (ch.toUInt8 &&& 0x7F).toNat []

/-- `draw_glyph`. -/
def drawGlyph (con : Fbcon) (col row : UInt32) (ch : Int8) : StateM (Raster UInt32) Unit :=
  let bits := glyphBits ch
  let x0 := margin + col * cellW
  let y0 := margin + row * cellH
  let nfg := toNative con.fbFormat con.fg
  let nbg := toNative con.fbFormat con.bg
  forRange 0 glyphSize.toNat fun gy =>
    let rowbits := bits.getD gy 0
    forRange 0 glyphScale.toNat fun sy =>
      let line := pixelIndex con.fbPitch32 (y0 + UInt32.ofNat gy * glyphScale + UInt32.ofNat sy) x0
      forRange 0 glyphSize.toNat fun gx =>
        let c := if (rowbits >>> UInt8.ofNat gx) &&& 1 ≠ 0 then nfg else nbg
        storeRun (line + gx * glyphScale.toNat) glyphScale.toNat fun _ => c

/-- `scroll`. -/
def scroll (con : Fbcon) : StateM (Raster UInt32) Unit := do
  let rowPx := cellH.toUInt64 * con.fbPitch32.toUInt64
  let dst := margin.toUInt64 * con.fbPitch32.toUInt64
  let src := dst + rowPx
  let count := rowPx * (con.rows - 1).toUInt64
  copyRun dst.toNat src.toNat count.toNat
  fillRect con.fbPitch32 0 (margin + (con.rows - 1) * cellH) con.fbWidth cellH
    (toNative con.fbFormat con.bg)

/-- Draw on the screen. -/
def Fbcon.draw (con : Fbcon) (x : StateM (Raster UInt32) Unit) : Fbcon :=
  { con with screen := (x con.screen).2 }

/-- `fbcon_init`. -/
def fbconInit (bi : BootFramebuffer) (con : Fbcon) : Bool × Fbcon :=
  if bi.fbFormat ≠ sypasFbXrgb8888 ∧ bi.fbFormat ≠ sypasFbXbgr8888 then (false, con)
  else if bi.fbBase = 0 ∨ bi.fbWidth < 320 ∨ bi.fbHeight < 200 then (false, con)
  else
    let con := { con with
      fb := bi.fbBase
      fbWidth := bi.fbWidth
      fbHeight := bi.fbHeight
      fbPitch32 := bi.fbPitch / 4
      fbFormat := bi.fbFormat
      cols := (bi.fbWidth - 2 * margin) / cellW
      rows := (bi.fbHeight - 2 * margin) / cellH
      curCol := 0
      curRow := 0 }
    let con := con.draw
      (fillRect con.fbPitch32 0 0 con.fbWidth con.fbHeight (toNative con.fbFormat con.bg))
    (true, { con with ready := true })

/-- `fbcon_set_colors`. -/
def fbconSetColors (newFg newBg : UInt32) (con : Fbcon) : Fbcon :=
  { con with fg := newFg, bg := newBg }

/-- The start of the next line, not yet scrolled into view. -/
def Fbcon.nextLine (con : Fbcon) : Fbcon := { con with curCol := 0, curRow := con.curRow + 1 }

/-- `fbcon_putc`. -/
def fbconPutc (c : Int8) (con : Fbcon) : Fbcon :=
  if !con.ready then con
  else
    let con :=
      if c = 10 then con.nextLine -- '\n'
      else if c = 13 then { con with curCol := 0 } -- '\r'
      else if c ≥ 0x20 then
        let con := con.draw (drawGlyph con con.curCol con.curRow c)
        let con := { con with curCol := con.curCol + 1 }
        if con.curCol ≥ con.cols then con.nextLine else con
      else con
    if con.curRow ≥ con.rows then { con.draw (scroll con) with curRow := con.rows - 1 } else con

/-- A call of the console. -/
inductive ConsoleCall where
  | putc (c : Int8)
  | setColors (fg bg : UInt32)

def ConsoleCall.run (con : Fbcon) : ConsoleCall → Fbcon
  | putc c => fbconPutc c con
  | setColors fg bg => fbconSetColors fg bg con

end Sypas
