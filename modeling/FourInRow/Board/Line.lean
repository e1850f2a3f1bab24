import FourInRow.Board.Basic

/-!
# Lines of four

Four pieces of one player in a row, in a column or on a diagonal win.  A newly landed piece can
only complete a line that passes through it, so it is enough to count the player's pieces on
both sides of it along the four axes.

Component: `FourAcross`, its `check_for_winner`.
-/

namespace FourInRow

namespace Board

/-- The number of pieces that win. -/
def winLength : Nat := 4

/-- The directions of a line: up, right, and the two diagonals. -/
def axes : List (Int × Int) := [(0, 1), (1, 0), (1, 1), (-1, 1)]

/-- Do the coordinates name a slot of the board? -/
def contains (b : Board) (column row : Int) : Bool :=
  0 ≤ column && column < b.size.width && 0 ≤ row && row < b.size.height

/-- How many of the next `n` slots, from the given one on in the given direction, are owned by
the player without a gap.  The walk ends at the edge of the board. -/
def reach (b : Board) (p : Player) (step : Int × Int) : Nat → Int → Int → Except Error Nat
  | 0, _, _ => .ok 0
  | n + 1, column, row =>
    if b.contains column row then do
      let o ← b.owner (UInt8.ofNat column.toNat) (UInt8.ofNat row.toNat)
      if o = p then
        let further ← b.reach p step n (column + step.1) (row + step.2)
        return further + 1
      else
        return 0
    else
      return 0

/-- Does the player's line through the given slot along one axis reach the winning length? -/
def lineAlong (b : Board) (p : Player) (column row : Int) (axis : Int × Int) :
    Except Error Bool := do
  let ahead ← b.reach p axis (winLength - 1) (column + axis.1) (row + axis.2)
  let behind ← b.reach p (-axis.1, -axis.2) (winLength - 1) (column - axis.1) (row - axis.2)
  return decide (winLength ≤ ahead + 1 + behind)

/-- Does one of the axes carry a line of the player through the given slot? -/
def lineAlongAny (b : Board) (p : Player) (column row : Int) :
    List (Int × Int) → Except Error Bool
  | [] => .ok false
  | axis :: rest => do
    if ← b.lineAlong p column row axis then return true
    else b.lineAlongAny p column row rest

/-- The player that owns a line of four through the given slot, if there is one. -/
def lineOwner (b : Board) (column row : UInt8) : Except Error (Option Player) := do
  let p ← b.owner column row
  if ← b.lineAlongAny p column.toNat row.toNat axes then return some p
  else return none

end Board

end FourInRow
