import Mathlib

/-!
# A grid terminal

A text terminal as a grid of cells, a cursor and the current colours. A cell is blank
or holds a character with the colours it was written in. Below the last row the
terminal scrolls: the top row is lost and a blank row appears at the bottom.

## Main definitions

- `Terminal` — the grid, the cursor and the colours
- `Terminal.newline`, `Terminal.carriageReturn`, `Terminal.write` — what can be done to it

## Main results

- `Terminal.InBounds` and its preservation by each operation
-/

/-- What a cell of the grid holds. -/
inductive TermCell (χ κ : Type) where
  | blank (bg : κ)
  | glyph (ch : χ) (fg bg : κ)
deriving DecidableEq, Repr

/-- A terminal for characters of type `χ` and colours of type `κ`. -/
structure Terminal (χ κ : Type) where
  rows : ℕ
  cols : ℕ
  row : ℕ
  col : ℕ
  fg : κ
  bg : κ
  cells : ℕ → ℕ → TermCell χ κ

namespace Terminal

variable {χ κ : Type}

/-- A cleared terminal. -/
def clear (rows cols : ℕ) (fg bg : κ) : Terminal χ κ where
  rows := rows
  cols := cols
  row := 0
  col := 0
  fg := fg
  bg := bg
  cells := fun _ _ => .blank bg

/-- The start of the next row, which may be below the last one. -/
def lineFeed (t : Terminal χ κ) : Terminal χ κ := { t with row := t.row + 1, col := 0 }

/-- Scroll by one row if the cursor is below the last one. -/
def settle (t : Terminal χ κ) : Terminal χ κ :=
  if t.row < t.rows then t
  else { t with
    row := t.rows - 1
    cells := fun r c => if r + 1 < t.rows then t.cells (r + 1) c else .blank t.bg }

def newline (t : Terminal χ κ) : Terminal χ κ := t.lineFeed.settle

def carriageReturn (t : Terminal χ κ) : Terminal χ κ := { t with col := 0 }

/-- Put a character in the cell at the cursor. -/
def place (t : Terminal χ κ) (ch : χ) : Terminal χ κ :=
  { t with cells := fun r c => if r = t.row ∧ c = t.col then .glyph ch t.fg t.bg else t.cells r c }

/-- Move the cursor to the next cell, wrapping after the last column. -/
def advance (t : Terminal χ κ) : Terminal χ κ :=
  if t.col + 1 < t.cols then { t with col := t.col + 1 } else t.newline

def write (t : Terminal χ κ) (ch : χ) : Terminal χ κ := (t.place ch).advance

def setColors (t : Terminal χ κ) (fg bg : κ) : Terminal χ κ := { t with fg := fg, bg := bg }

/-! ## The cursor stays on the grid -/

/-- The cursor is on the grid. -/
structure InBounds (t : Terminal χ κ) : Prop where
  row_lt : t.row < t.rows
  col_lt : t.col < t.cols

variable {t : Terminal χ κ}

theorem settle_of_lt (h : t.row < t.rows) : t.settle = t := if_pos h

@[simp] theorem settle_rows (t : Terminal χ κ) : t.settle.rows = t.rows := by
  unfold settle
  split <;> rfl

@[simp] theorem settle_cols (t : Terminal χ κ) : t.settle.cols = t.cols := by
  unfold settle
  split <;> rfl

@[simp] theorem newline_rows (t : Terminal χ κ) : t.newline.rows = t.rows := settle_rows _

@[simp] theorem newline_cols (t : Terminal χ κ) : t.newline.cols = t.cols := settle_cols _

@[simp] theorem advance_rows (t : Terminal χ κ) : t.advance.rows = t.rows := by
  unfold advance
  split
  · rfl
  · exact t.newline_rows

@[simp] theorem advance_cols (t : Terminal χ κ) : t.advance.cols = t.cols := by
  unfold advance
  split
  · rfl
  · exact t.newline_cols

@[simp] theorem write_rows (t : Terminal χ κ) (ch : χ) : (t.write ch).rows = t.rows :=
  (t.place ch).advance_rows

@[simp] theorem write_cols (t : Terminal χ κ) (ch : χ) : (t.write ch).cols = t.cols :=
  (t.place ch).advance_cols

theorem settle_row_lt (h : 0 < t.rows) : t.settle.row < t.settle.rows := by
  unfold settle
  split
  · assumption
  · exact Nat.sub_lt h Nat.one_pos

theorem settle_col (t : Terminal χ κ) : t.settle.col = t.col := by
  unfold settle
  split <;> rfl

theorem InBounds.newline (h : t.InBounds) : t.newline.InBounds where
  row_lt := settle_row_lt (Nat.zero_lt_of_lt h.row_lt)
  col_lt := by
    rw [Terminal.newline, settle_col, settle_cols]
    exact Nat.zero_lt_of_lt h.col_lt

theorem InBounds.carriageReturn (h : t.InBounds) : t.carriageReturn.InBounds where
  row_lt := h.row_lt
  col_lt := Nat.zero_lt_of_lt h.col_lt

theorem InBounds.write (h : t.InBounds) (ch : χ) : (t.write ch).InBounds := by
  have hplaced : (t.place ch).InBounds := ⟨h.row_lt, h.col_lt⟩
  unfold Terminal.write advance
  by_cases hroom : (t.place ch).col + 1 < (t.place ch).cols
  · rw [if_pos hroom]
    exact ⟨h.row_lt, hroom⟩
  · rw [if_neg hroom]
    exact hplaced.newline

end Terminal
