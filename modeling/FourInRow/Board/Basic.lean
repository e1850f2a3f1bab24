import FourInRow.Board.Size

/-!
# Boards

A board is a row of piles of pieces, one pile for each column.  A piece is the number of
the player that owns it, and lands on top of its column.  Slots are named by a column from
the left and a row from the bottom, both counted from 0; a slot above its pile is empty and
owned by nobody.

A pile keeps its pieces even where their owner is the number of nobody, so a column's height
is never read off the owners of its slots.

Component: `Board`, its columns told by what lies in them; `Board.Grid` has it field by field.
-/

namespace FourInRow

/-- A board of a playable size: one pile of pieces for each column, listed bottom to top. -/
structure Board where
  size : Board.Size
  piles : List (List Player)
  length_piles : piles.length = size.width
  length_le : ∀ s ∈ piles, s.length ≤ size.height
deriving DecidableEq, Repr

namespace Board

/-- The board without pieces. -/
def empty (size : Size) : Board where
  size := size
  piles := List.replicate size.width []
  length_piles := List.length_replicate
  length_le := by simp

/-- The board without pieces of the given dimensions, if they are playable. -/
def new (columns rows : UInt8) : Except Error Board :=
  (Size.check columns rows).map empty

/-- The pieces of a column, bottom to top. -/
def pile (b : Board) (column : UInt8) : Except Error (List Player) :=
  match b.piles[column.toNat]? with
  | some s => .ok s
  | none => .error (.columnOutOfRange column)

/-- Puts a piece on top of a pile that has room for it. -/
def push (b : Board) (i : Nat) (hi : i < b.piles.length) (p : Player)
    (room : b.piles[i].length < b.size.height) : Board where
  size := b.size
  piles := b.piles.set i (b.piles[i] ++ [p])
  length_piles := by simpa using b.length_piles
  length_le := by
    intro s hs
    rcases List.mem_or_eq_of_mem_set hs with h | rfl
    · exact b.length_le s h
    · simpa using Nat.succ_le_of_lt room

/-- Drops a piece into a column; there is no next board if the column is full. -/
def drop (b : Board) (column : UInt8) (p : Player) : Except Error (Option Board) :=
  if hi : column.toNat < b.piles.length then
    if room : b.piles[column.toNat].length < b.size.height then
      .ok (some (b.push column.toNat hi p room))
    else
      .ok none
  else
    .error (.columnOutOfRange column)

/-- The number of pieces in a column. -/
def height (b : Board) (column : UInt8) : Except Error Nat :=
  (b.pile column).map List.length

/-- Has the column no room left? -/
def isColumnFull (b : Board) (column : UInt8) : Except Error Bool :=
  (b.height column).map (· == b.size.height)

/-- Has no column any room left? -/
def isFull (b : Board) : Bool :=
  b.piles.all fun s => s.length == b.size.height

/-- The owner of a slot, which may lie above its pile. -/
def owner (b : Board) (column row : UInt8) : Except Error Player :=
  if column < b.size.columns ∧ row < b.size.rows then
    .ok (((b.piles[column.toNat]?).getD [])[row.toNat]?.getD nobody)
  else
    .error (.slotOutOfRange column row)

/-- The owners of the slots that a pile takes up on the board, the empty ones included. -/
def slots (b : Board) (s : List Player) : List Player :=
  s ++ List.replicate (b.size.height - s.length) nobody

/-- The owners of a column's slots, bottom to top. -/
def column (b : Board) (column : UInt8) : Except Error (List Player) :=
  (b.pile column).map b.slots

/-- The owners of all slots, column by column. -/
def columns (b : Board) : List (List Player) :=
  b.piles.map b.slots

/-- The owners of a row's slots, left to right; nobody where there is no such row. -/
def rowOwners (b : Board) (row : Nat) : List Player :=
  b.piles.map fun s => s[row]?.getD nobody

/-- The owners of a row's slots, left to right. -/
def row (b : Board) (row : UInt8) : Except Error (List Player) :=
  if row < b.size.rows then .ok (b.rowOwners row.toNat) else .error (.slotOutOfRange 0 row)

/-- The columns that have room, in ascending order. -/
def openColumns (b : Board) : List UInt8 :=
  (List.range b.size.width).filterMap fun i =>
    let column := UInt8.ofNat i
    match b.isColumnFull column with
    | .ok false => some column
    | _ => none

/-- Drops pieces of any players into any columns, one after another.  A piece that does not land
leaves the board as it is.  The second component says for each piece whether it landed. -/
def dropAll (b : Board) : List (UInt8 × Player) → Board × List (Except Error Bool)
  | [] => (b, [])
  | (column, p) :: rest =>
    let (b', landed) : Board × Except Error Bool :=
      match b.drop column p with
      | .error e => (b, .error e)
      | .ok none => (b, .ok false)
      | .ok (some b') => (b', .ok true)
    let (b'', more) := b'.dropAll rest
    (b'', landed :: more)

/-- Drops `count` pieces of one player into a column, and counts those that land. -/
def fill (b : Board) (column : UInt8) (p : Player) : Nat → Except Error (Board × Nat)
  | 0 => .ok (b, 0)
  | count + 1 =>
    match b.drop column p with
    | .error e => .error e
    | .ok none => b.fill column p count
    | .ok (some b') => (b'.fill column p count).map fun r => (r.1, r.2 + 1)

end Board

end FourInRow
