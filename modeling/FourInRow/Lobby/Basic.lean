import FourInRow.Match.Basic
import FourInRow.Peer

/-!
# Lobbies

A lobby is a row of seats for one match at a time.  It is closed, gathers players, or is playing.
While it gathers, newcomers take the first free seat and say when they are ready.  The tallies of
taken seats and of ready peers are kept up to date by every operation, so that nobody has to walk
along the seats to see whether a match can begin.

Component: `Lobby`, its flags told by a phase; `Lobby.Book` has it field by field.
-/

namespace FourInRow

/-- What a lobby is doing. -/
inductive Lobby.Phase
  /-- Nobody is let in. -/
  | closed
  /-- Newcomers are let in. -/
  | gathering
  /-- A match is running; newcomers may be let in if a seat were free. -/
  | playing (game : Match) (accepting : Bool)
deriving DecidableEq, Repr

/-- A lobby: its seats, its tallies, and what it is doing. -/
structure Lobby where
  number : Nat
  /-- The seats in order; the peer in seat `i` was given the player number `i + 1`, unless it
  had a number before. -/
  seats : List (Option Peer)
  /-- The number of taken seats. -/
  players : Nat
  /-- The number of taken seats whose peer is ready. -/
  readied : Nat
  /-- The width of the boards to play on. -/
  columns : UInt8
  /-- The height of the boards to play on. -/
  rows : UInt8
  phase : Lobby.Phase
deriving DecidableEq, Repr

namespace Lobby

/-- A closed lobby with empty seats. -/
def new (number : Nat) (capacity columns rows : UInt8) : Lobby where
  number := number
  seats := List.replicate capacity.toNat none
  players := 0
  readied := 0
  columns := columns
  rows := rows
  phase := .closed

/-! ## What can be seen of a lobby -/

/-- The number of seats. -/
def capacity (l : Lobby) : Nat := l.seats.length

/-- The peers in the lobby, in the order of their seats. -/
def members (l : Lobby) : List Peer := l.seats.filterMap fun s => s

/-- The member with the given connection. -/
def member? (l : Lobby) (id : ConnectionId) : Option Peer := l.members.find? fun p => p.id = id

/-- Is the lobby open? -/
def isOpen (l : Lobby) : Bool := l.phase ≠ .closed

/-- Would the lobby let somebody in if it had a free seat? -/
def isAccepting (l : Lobby) : Bool :=
  match l.phase with
  | .closed => false
  | .gathering => true
  | .playing _ accepting => accepting

/-- The running match. -/
def game? (l : Lobby) : Option Match :=
  match l.phase with
  | .playing game _ => some game
  | _ => none

/-- Is a match running? -/
def isPlaying (l : Lobby) : Bool := l.game?.isSome

/-- Are all seats taken? -/
def isFull (l : Lobby) : Bool := l.players == l.capacity

/-- Are all seats free? -/
def isEmpty (l : Lobby) : Bool := l.players == 0

/-- Can a newcomer be seated right now? -/
def hasFreeSeat (l : Lobby) : Bool := l.isAccepting && !l.isFull

/-! ## Doors and seats -/

/-- Opens the doors for newcomers, whatever goes on inside. -/
def openDoors (l : Lobby) : Lobby :=
  { l with phase :=
      match l.phase with
      | .playing game _ => .playing game true
      | _ => .gathering }

/-- Seats a newcomer in the first free seat and gives it the seat's player number, unless it has
one from before.  There is no answer if the newcomer is turned away. -/
def seat (l : Lobby) (p : Peer) : Option (Player × Lobby × Mail) :=
  if l.hasFreeSeat then
    match l.seats.findIdx? Option.isNone with
    | none => none
    | some i =>
      let player := UInt8.ofNat (i + 1)
      let (p', mail) := { p with ready := false }.assign player
      some (player, { l with seats := l.seats.set i (some p'), players := l.players + 1 }, mail)
  else
    none

/-- Replaces a member by what a function makes of it. -/
def updateMember (l : Lobby) (id : ConnectionId) (f : Peer → Peer) : Lobby :=
  { l with seats := l.seats.map (Option.map fun p => if p.id = id then f p else p) }

/-- The receiving end of a member's messages goes away. -/
def hangUp (l : Lobby) (id : ConnectionId) : Lobby := l.updateMember id Peer.hangUp

end Lobby

end FourInRow
