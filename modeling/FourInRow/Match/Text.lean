import FourInRow.Board.Text
import FourInRow.Match.Basic

/-!
# The text of a match

The board, an empty line, whose turn it is and whose is next, the number of turns, and the
winner if there is one.

Component: the text of a `FourAcross`.
-/

namespace FourInRow

namespace Match

/-- The lines below the board. -/
def summary (m : Match) : List String :=
  let current := m.current
  let next := m.next
  let turns := m.turns
  ["", s!"Current player: {current} Next player: {next}", s!"Num turns: {turns}"] ++
    (m.winner.map fun w => s!"Winner: {w}").toList

/-- The text of a match: the board's text and the lines below it, each ended by a newline. -/
def render (m : Match) : String :=
  m.board.render ++ String.join (m.summary.map (· ++ "\n"))

end Match

end FourInRow
