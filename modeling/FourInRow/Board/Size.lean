import FourInRow.Player

/-!
# Board sizes

A board is wider than it is high, at least five columns wide and at least four rows high.
`Board.Size` carries the proof, so that a board can only be built for a playable size.

Component: `Board`, its `validate_dimensions`, and `BoardError`.
-/

namespace FourInRow

namespace Board

/-- Why a board cannot be built or a part of it cannot be named. -/
inductive Error
  /-- The size is not playable. -/
  | invalidDimensions (columns rows : UInt8)
  /-- There is no such column. -/
  | columnOutOfRange (column : UInt8)
  /-- There is no such slot. -/
  | slotOutOfRange (column row : UInt8)
deriving DecidableEq, Repr

/-- The wording of a board error. -/
def Error.message : Error → String
  | invalidDimensions columns rows => s!"invalid board dimensions {columns}x{rows}"
  | columnOutOfRange column => s!"column {column} out of range"
  | slotOutOfRange column row => s!"slot ({column}, {row}) out of range"

/-- The least number of columns. -/
def minColumns : UInt8 := 5

/-- The least number of rows. -/
def minRows : UInt8 := 4

/-- A playable size: wide enough, high enough, and wider than high. -/
structure Size where
  columns : UInt8
  rows : UInt8
  minColumns_le : minColumns ≤ columns
  minRows_le : minRows ≤ rows
  rows_lt_columns : rows < columns
deriving DecidableEq, Repr

namespace Size

/-- Accepts two bytes as a size exactly when they describe a playable board. -/
def check (columns rows : UInt8) : Except Error Size :=
  if h : minColumns ≤ columns ∧ minRows ≤ rows ∧ rows < columns then
    .ok ⟨columns, rows, h.1, h.2.1, h.2.2⟩
  else
    .error (.invalidDimensions columns rows)

/-- The number of columns, as a length. -/
def width (s : Size) : Nat := s.columns.toNat

/-- The number of rows, as a length. -/
def height (s : Size) : Nat := s.rows.toNat

theorem four_le_height (s : Size) : 4 ≤ s.height :=
  UInt8.le_iff_toNat_le.1 s.minRows_le

theorem height_lt_width (s : Size) : s.height < s.width :=
  UInt8.lt_iff_toNat_lt.1 s.rows_lt_columns

theorem width_lt (s : Size) : s.width < 256 := s.columns.toNat_lt

theorem check_columns_rows (s : Size) : check s.columns s.rows = .ok s :=
  dif_pos ⟨s.minColumns_le, s.minRows_le, s.rows_lt_columns⟩

end Size

end Board

end FourInRow
