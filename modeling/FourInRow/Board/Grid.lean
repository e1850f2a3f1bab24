import FourInRow.Board.Basic

/-!
# Boards as grids

A board laid out slot by slot.  A grid holds the owners of all slots, column by column, and beside
them the number of pieces in each column.  The two are kept in step by hand: a piece that lands is
written into its slot, and the number of pieces in its column goes up by one.  Neither can be left
out, as a slot that holds a piece of nobody's looks like an empty one.

Component: `Board`, with its fields `columns` and `heights` and its `drop_piece`.
-/

namespace FourInRow

namespace Board

/-- The slots of a board of a playable size, and the number of pieces in each column. -/
structure Grid where
  size : Size
  /-- The owners of the slots of each column, bottom to top. -/
  columns : List (List Player)
  /-- The number of pieces in each column. -/
  heights : List UInt8
  length_columns : columns.length = size.width
  length_cells : ∀ cells ∈ columns, cells.length = size.height
  length_heights : heights.length = size.width
  heights_le : ∀ height ∈ heights, height ≤ size.rows
deriving Repr

namespace Grid

/-- The grid without pieces. -/
def empty (size : Size) : Grid where
  size := size
  columns := List.replicate size.width (List.replicate size.height nobody)
  heights := List.replicate size.width 0
  length_columns := List.length_replicate
  length_cells := by
    intro cells hcells
    rw [(List.mem_replicate.1 hcells).2, List.length_replicate]
  length_heights := List.length_replicate
  heights_le := by
    intro height hheight
    rw [(List.mem_replicate.1 hheight).2]
    exact UInt8.le_iff_toNat_le.2 (Nat.zero_le _)

/-- The grid without pieces of the given dimensions, if they are playable. -/
def new (columns rows : UInt8) : Except Error Grid := (Size.check columns rows).map empty

section

variable {g : Grid} {column row : UInt8}

/-- A column of the board has its slots. -/
theorem lt_length_columns (h : column < g.size.columns) : column.toNat < g.columns.length := by
  rw [g.length_columns]
  exact UInt8.lt_iff_toNat_lt.1 h

/-- A column of the board has its number of pieces. -/
theorem lt_length_heights (h : column < g.size.columns) : column.toNat < g.heights.length := by
  rw [g.length_heights]
  exact UInt8.lt_iff_toNat_lt.1 h

/-- Every column has a slot in every row. -/
theorem lt_length_cells {cells : List Player} (hcells : cells ∈ g.columns)
    (h : row < g.size.rows) : row.toNat < cells.length := by
  rw [g.length_cells cells hcells]
  exact UInt8.lt_iff_toNat_lt.1 h

end

/-- Writes a piece into the slot above the others of its column, and counts it. -/
def put (g : Grid) (column : UInt8) (p : Player) (hcolumn : column.toNat < g.columns.length)
    (hheight : column.toNat < g.heights.length)
    (room : g.heights[column.toNat] < g.size.rows) : Grid where
  size := g.size
  columns := g.columns.set column.toNat
    (g.columns[column.toNat].set g.heights[column.toNat].toNat p)
  heights := g.heights.set column.toNat (g.heights[column.toNat] + 1)
  length_columns := by rw [List.length_set, g.length_columns]
  length_cells := by
    intro cells hcells
    rcases List.mem_or_eq_of_mem_set hcells with hold | rfl
    · exact g.length_cells cells hold
    · rw [List.length_set, g.length_cells _ (List.getElem_mem hcolumn)]
  length_heights := by rw [List.length_set, g.length_heights]
  heights_le := by
    intro height hmem
    rcases List.mem_or_eq_of_mem_set hmem with hold | rfl
    · exact g.heights_le height hold
    · have hlt := UInt8.lt_iff_toNat_lt.1 room
      have htop := g.size.rows.toNat_lt
      rw [UInt8.le_iff_toNat_le, UInt8.toNat_add, UInt8.toNat_one, Nat.mod_eq_of_lt (by omega)]
      exact hlt

/-- Drops a piece into a column.  A column that is full, or missing, leaves the grid as it is. -/
def drop (g : Grid) (column : UInt8) (p : Player) : Grid × Except Error Bool :=
  if h : column < g.size.columns then
    have hcolumn := lt_length_columns h
    have hheight := lt_length_heights h
    if hfull : g.heights[column.toNat] = g.size.rows then (g, .ok false)
    else
      have room : g.heights[column.toNat] < g.size.rows :=
        UInt8.lt_of_le_of_ne (g.heights_le _ (List.getElem_mem hheight)) hfull
      (g.put column p hcolumn hheight room, .ok true)
  else
    (g, .error (.columnOutOfRange column))

/-- The number of pieces in a column. -/
def height (g : Grid) (column : UInt8) : Except Error UInt8 :=
  if h : column < g.size.columns then
    have hheight := lt_length_heights h
    .ok g.heights[column.toNat]
  else
    .error (.columnOutOfRange column)

/-- Has the column no room left? -/
def isColumnFull (g : Grid) (column : UInt8) : Except Error Bool :=
  (g.height column).map (· == g.size.rows)

/-- Has no column any room left? -/
def isFull (g : Grid) : Bool := g.heights.all (· == g.size.rows)

/-- The owner of a slot. -/
def owner (g : Grid) (column row : UInt8) : Except Error Player :=
  if h : column < g.size.columns ∧ row < g.size.rows then
    have hcolumn := lt_length_columns h.1
    have hrow := lt_length_cells (List.getElem_mem hcolumn) h.2
    .ok g.columns[column.toNat][row.toNat]
  else
    .error (.slotOutOfRange column row)

/-- The owners of a column's slots, bottom to top. -/
def column (g : Grid) (column : UInt8) : Except Error (List Player) :=
  if h : column < g.size.columns then
    have hcolumn := lt_length_columns h
    .ok g.columns[column.toNat]
  else
    .error (.columnOutOfRange column)

/-- The owners of a row's slots, left to right. -/
def row (g : Grid) (row : UInt8) : Except Error (List Player) :=
  if h : row < g.size.rows then
    .ok (g.columns.attach.map fun cells =>
      have hrow := lt_length_cells cells.2 h
      cells.1[row.toNat])
  else
    .error (.slotOutOfRange 0 row)

/-- Drops pieces of any players into any columns, one after another.  The second component says
for each piece how the drop was answered. -/
def dropAll (g : Grid) : List (UInt8 × Player) → Grid × List (Except Error Bool)
  | [] => (g, [])
  | (column, p) :: rest =>
    let (g', answer) := g.drop column p
    let (g'', more) := g'.dropAll rest
    (g'', answer :: more)

end Grid

end Board

end FourInRow
