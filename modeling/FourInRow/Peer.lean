import FourInRow.Identity
import FourInRow.Wire.Message

/-!
# Peers

A peer is a client as the server sees it: the identifier of its connection, the player number it
bears, whether it is ready for a match, and whether anybody still listens at the other end.
What happens around a peer turns into messages to it; a peer that has stopped listening stays
where it is, and messages to it are lost without notice.

Component: `Connection`.
-/

namespace FourInRow

/-- Messages together with the connections that they are for, in the order they are sent. -/
abbrev Mail := List (ConnectionId × Message)

/-- A client as the server sees it. -/
structure Peer where
  id : ConnectionId
  /-- The player number, nobody's until the first seat. -/
  player : Player
  /-- Has the peer asked for a match since the last one? -/
  ready : Bool
  /-- Is the receiving end of its messages still there? -/
  listening : Bool
deriving DecidableEq, Repr

namespace Peer

/-- Why a message cannot be sent. -/
inductive SendError
  /-- Nobody listens any more. -/
  | channelClosed
deriving DecidableEq, Repr

/-- The wording of a send error. -/
def SendError.message : SendError → String
  | channelClosed => "Channel closed"

/-- A newly connected peer. -/
def new (id : ConnectionId) : Peer := ⟨id, nobody, false, true⟩

/-- Sends a message, or says why that is impossible. -/
def send (p : Peer) (m : Message) : Except SendError Mail :=
  if p.listening then .ok [(p.id, m)] else .error .channelClosed

/-- Sends a message where somebody listens. -/
def tell (p : Peer) (m : Message) : Mail :=
  if p.listening then [(p.id, m)] else []

/-- Gives the peer a player number, once and for all. -/
def assign (p : Peer) (player : Player) : Peer × Mail :=
  if p.player ≠ nobody then (p, [])
  else
    let p' := { p with player := player }
    (p', p'.tell (.connected player))

/-- The place of a waiting peer is told to it. -/
def queued (p : Peer) (position : UInt64) : Mail := p.tell (.inQueue position)

/-- The beginning of a match is told to the peer. -/
def matchBegins (p : Peer) (players columns rows : UInt8) (first : Player) : Mail :=
  p.tell (.gameStart players columns rows first)

/-- A request for a player's turn reaches the peer only if it is that player. -/
def turnRequested (p : Peer) (player : Player) : Mail :=
  if player = p.player then p.tell (.turnRequest player) else []

/-- The outcome of a player's turn: the player hears what became of it, the others hear only of
pieces that have landed. -/
def turnTaken (p : Peer) (player : Player) (column : UInt8) (result : TurnResult) : Mail :=
  if player = p.player then p.tell (.turnResult result column)
  else if result = .success then p.tell (.update player column)
  else []

/-- The end of a match is told to the peer. -/
def matchEnds (p : Peer) (winner : Player) : Mail := p.tell (.gameEnd winner)

/-- The receiving end goes away. -/
def hangUp (p : Peer) : Peer := { p with listening := false }

end Peer

end FourInRow
