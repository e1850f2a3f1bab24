import FourInRow.Board.Basic

/-!
# The text of a board

A board is written row by row, the top row first.  A row is a blank and its owners' numbers,
parted by bars; between two rows stands a line of dashes.

Component: the text of a `Board`.
-/

namespace FourInRow

namespace Board

/-- The line that shows one row. -/
def rowLine (b : Board) (row : Nat) : String :=
  " " ++ " | ".intercalate ((b.rowOwners row).map fun p => toString p)

/-- The line between two rows. -/
def dashes (b : Board) : String :=
  String.ofList (List.replicate (4 * b.size.width - 1) '-')

/-- The lines of a board, the top row first. -/
def lines (b : Board) : List String :=
  ((List.range b.size.height).reverse.map b.rowLine).intersperse b.dashes

/-- The text of a board: its lines, each ended by a newline. -/
def render (b : Board) : String :=
  String.join (b.lines.map (· ++ "\n"))

end Board

end FourInRow
