import FourInRow.Identity

/-!
# Commands

What the connections ask of the hall that seats and queues them.

Component: `ServerCommand`.
-/

namespace FourInRow

/-- A request to the hall. -/
inductive Command
  /-- A new connection asks to be let in. -/
  | connect (id : ConnectionId)
  /-- A connection is gone. -/
  | disconnect (id : ConnectionId)
  /-- A connection is ready for a match. -/
  | ready (id : ConnectionId)
  /-- A connection drops a piece. -/
  | turn (id : ConnectionId) (column : UInt8)
  /-- The hall is to be shut. -/
  | shutDown
deriving DecidableEq, Repr

end FourInRow
