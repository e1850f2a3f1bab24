import FourInRow.Match.TurnResult
import FourInRow.Player

/-!
# Messages

What the server and its clients tell each other, and the kinds that stand first in a record.
A turn request travels as the same kind of record as a turn.

Components: `Message` and `MessageType`.
-/

namespace FourInRow

/-- A message between the server and a client. -/
inductive Message
  /-- Kept free. -/
  | error
  /-- The client has a seat, as the given player. -/
  | connected (player : Player)
  /-- The server asks whether the client is still there. -/
  | ping
  /-- The client is still there. -/
  | pong
  /-- The client waits for a seat, at the given place counted from 1. -/
  | inQueue (position : UInt64)
  /-- A match begins. -/
  | gameStart (players columns rows : UInt8) (first : Player)
  /-- A match has ended; nobody won if it was drawn or broken off. -/
  | gameEnd (winner : Player)
  /-- The client is ready for a match. -/
  | ready (player : Player)
  /-- The client drops a piece. -/
  | takeTurn (player : Player) (column : UInt8)
  /-- It is the player's turn. -/
  | turnRequest (player : Player)
  /-- What became of the client's own turn. -/
  | turnResult (result : TurnResult) (column : UInt8)
  /-- Another player's piece has landed. -/
  | update (player : Player) (column : UInt8)
deriving DecidableEq, Repr

namespace Wire

/-- The kinds of record. -/
inductive Kind
  | error
  | connected
  | ping
  | pong
  | inQueue
  | gameStart
  | gameEnd
  | ready
  | takeTurn
  | turnResult
  | update
deriving DecidableEq, Repr

namespace Kind

/-- The byte that stands first in a record of the kind. -/
def tag : Kind → UInt8
  | error => 0
  | connected => 1
  | ping => 2
  | pong => 3
  | inQueue => 4
  | gameStart => 5
  | gameEnd => 6
  | ready => 7
  | takeTurn => 8
  | turnResult => 9
  | update => 10

/-- The kind of record that begins with a byte. -/
def ofTag? : UInt8 → Option Kind
  | 0 => some error
  | 1 => some connected
  | 2 => some ping
  | 3 => some pong
  | 4 => some inQueue
  | 5 => some gameStart
  | 6 => some gameEnd
  | 7 => some ready
  | 8 => some takeTurn
  | 9 => some turnResult
  | 10 => some update
  | _ => none

@[simp] theorem ofTag?_tag (k : Kind) : ofTag? k.tag = some k := by
  cases k <;> rfl

end Kind

end Wire

namespace Message

/-- The kind of record that carries a message. -/
def kind : Message → Wire.Kind
  | error => .error
  | connected _ => .connected
  | ping => .ping
  | pong => .pong
  | inQueue _ => .inQueue
  | gameStart .. => .gameStart
  | gameEnd _ => .gameEnd
  | ready _ => .ready
  | takeTurn .. | turnRequest _ => .takeTurn
  | turnResult .. => .turnResult
  | update .. => .update

end Message

end FourInRow
