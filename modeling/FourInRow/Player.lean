/-!
# Players

Players are numbered from 1 within a lobby.  The number 0 stands for nobody: it marks an
empty slot of a board, a connection that has no seat yet, and a match without a winner.

Components: `PlayerId` and `NO_PLAYER`.
-/

namespace FourInRow

/-- A player's number, or 0 for nobody. -/
abbrev Player := UInt8

/-- The number that no player bears. -/
def nobody : Player := 0

/-- The first player in the order of moves. -/
def firstPlayer : Player := 1

end FourInRow
