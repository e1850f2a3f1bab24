import FourInRow.Board.Line
import FourInRow.Match.TurnResult

/-!
# Matches

A match is a board on which the players 1 to `players` drop pieces in turn, until one of them
owns a line of four or the board is full.  An attempt that breaks a rule is answered by the rule
it breaks and leaves the match as it was; the rules are looked at in the order of
`Match.turn`: a match that is won, another player's turn, a column that is missing or full.

Component: `FourAcross`, with its `take_turn`, and `GameError`.
-/

namespace FourInRow

/-- A match: who takes part, whose turn it is, and what has happened so far. -/
structure Match where
  /-- The number of players. -/
  players : UInt8
  /-- The player whose turn it is. -/
  current : Player
  /-- The number of pieces that have landed. -/
  turns : Nat
  /-- The column and row of the newest piece. -/
  last : Option (UInt8 × UInt8)
  /-- The owner of a line of four. -/
  winner : Option Player
  board : Board
deriving DecidableEq, Repr

namespace Match

/-- Why a match cannot be set up or go on. -/
inductive Error
  /-- The board does not allow it. -/
  | board (cause : Board.Error)
deriving DecidableEq, Repr

/-- The wording of a match error. -/
def Error.message : Error → String
  | board cause => "board error: " ++ cause.message

/-- The least number of players. -/
def minPlayers : UInt8 := 2

/-- A match on an empty board.  There are always two players at least, and the first player
begins where the proposed one does not take part. -/
def start (players first : UInt8) (size : Board.Size) : Match :=
  let players := max players minPlayers
  { players := players
    current := if firstPlayer ≤ first ∧ first ≤ players then first else firstPlayer
    turns := 0
    last := none
    winner := none
    board := Board.empty size }

/-- A match on an empty board of the given dimensions, if they are playable. -/
def new (players first columns rows : UInt8) : Except Error Match :=
  ((Board.Size.check columns rows).map (start players first)).mapError Error.board

/-- The player whose turn is next; the first player follows the last one. -/
def next (m : Match) : Player :=
  if m.players ≤ m.current then firstPlayer else m.current + 1

/-- Has a player won? -/
def isWon (m : Match) : Bool := m.winner.isSome

/-- Is the board full? -/
def isFull (m : Match) : Bool := m.board.isFull

/-- A match is over when it is won or the board is full. -/
def isOver (m : Match) : Bool := m.isWon || m.isFull

/-- The owner of a line of four through the newest piece. -/
def findWinner (m : Match) : Except Board.Error (Option Player) :=
  match m.last with
  | none => .ok none
  | some (column, row) => m.board.lineOwner column row

/-- The match after the current player's piece has landed in a column of the given board. -/
def landed (m : Match) (column : UInt8) (board : Board) : Except Board.Error Match := do
  let height ← board.height column
  let m' : Match := { m with
    board := board
    last := some (column, UInt8.ofNat (height - 1))
    current := m.next
    turns := m.turns + 1 }
  let winner ← m'.findWinner
  return { m' with winner := winner }

/-- A player's attempt to drop a piece into a column. -/
def turn (m : Match) (p : Player) (column : UInt8) : Except Error (Match × TurnResult) :=
  if m.isWon then
    .ok (m, .gameFinished)
  else if p ≠ m.current then
    .ok (m, .wrongPlayer)
  else
    match m.board.drop column p with
    | .error (.columnOutOfRange _) => .ok (m, .badColumn)
    | .error e => .error (.board e)
    | .ok none => .ok (m, .columnFull)
    | .ok (some board) =>
      match m.landed column board with
      | .error e => .error (.board e)
      | .ok m' => .ok (m', .success)

/-- Attempts of any players at any columns, one after another. -/
def attempts (m : Match) : List (Player × UInt8) → Except Error (Match × List TurnResult)
  | [] => .ok (m, [])
  | (p, column) :: rest =>
    match m.turn p column with
    | .error e => .error e
    | .ok (m', r) => (m'.attempts rest).map fun answer => (answer.1, r :: answer.2)

/-- The current player's attempts at a list of columns, one after another. -/
def play (m : Match) : List UInt8 → Except Error (Match × List TurnResult)
  | [] => .ok (m, [])
  | column :: rest =>
    match m.turn m.current column with
    | .error e => .error e
    | .ok (m', r) => (m'.play rest).map fun answer => (answer.1, r :: answer.2)

end Match

end FourInRow
