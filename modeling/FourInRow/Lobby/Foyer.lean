import FourInRow.Lobby.Play

/-!
# A lobby and its foyer

A lobby together with the peers that stand outside it: newcomers that were turned away and members
that have left or been released.  A peer outside keeps its player number and comes in with it
again.  `Foyer.step` is everything that can happen to the lobby, one event at a time.

Component: `Lobby`, with the connections that it hands out and takes back.
-/

namespace FourInRow

/-- A lobby, the peers outside it, and the choices that chance has left. -/
structure Foyer where
  lobby : Lobby
  outside : List Peer
  draws : Draws
deriving DecidableEq, Repr

namespace Foyer

/-- What can happen to a lobby. -/
inductive Event
  /-- The doors are opened. -/
  | openDoors
  /-- A peer wants to come in. -/
  | enter (id : ConnectionId)
  /-- A peer says that it is ready. -/
  | ready (id : ConnectionId)
  /-- A peer takes its turn. -/
  | turn (id : ConnectionId) (column : UInt8)
  /-- A peer leaves. -/
  | leave (id : ConnectionId)
  /-- The lobby is closed. -/
  | close
  /-- A peer stops listening. -/
  | hangUp (id : ConnectionId)
deriving DecidableEq, Repr

/-- What comes of an event besides messages. -/
inductive Reply
  | nothing
  /-- The peer has the seat of the given player number. -/
  | seated (player : Player)
  /-- The peer was turned away. -/
  | rejected
  /-- The peer was in the lobby already. -/
  | present
  /-- The peer left. -/
  | left (p : Peer)
  /-- The members were released, in the order of their seats. -/
  | released (ps : List Peer)
deriving DecidableEq, Repr

/-- A closed lobby with nobody outside. -/
def new (capacity columns rows : UInt8) (draws : Draws) : Foyer :=
  ⟨Lobby.new 0 capacity columns rows, [], draws⟩

/-- The peer outside with the given connection, or a new one. -/
def comer (f : Foyer) (id : ConnectionId) : Peer :=
  (f.outside.find? fun p => p.id = id).getD (Peer.new id)

/-- The peers outside without the given one. -/
def others (f : Foyer) (id : ConnectionId) : List Peer :=
  f.outside.filter fun p => p.id ≠ id

/-- A peer from outside, or a new one, wants to come in. -/
def enter (f : Foyer) (id : ConnectionId) : Foyer × Reply × Mail :=
  match f.lobby.member? id with
  | some _ => (f, .present, [])
  | none =>
    match f.lobby.seat (f.comer id) with
    | none => ({ f with outside := f.others id ++ [f.comer id] }, .rejected, [])
    | some (player, lobby, mail) =>
      ({ f with lobby := lobby, outside := f.others id }, .seated player, mail)

/-- One event: the lobby and the foyer after it, its reply, and the messages sent. -/
def step (f : Foyer) : Event → Foyer × Reply × Mail
  | .openDoors => ({ f with lobby := f.lobby.openDoors }, .nothing, [])
  | .enter id => f.enter id
  | .ready id =>
    let (lobby, draws, mail) := f.lobby.ready f.draws id
    ({ f with lobby := lobby, draws := draws }, .nothing, mail)
  | .turn id column =>
    let (lobby, mail) := f.lobby.turn id column
    ({ f with lobby := lobby }, .nothing, mail)
  | .leave id =>
    match f.lobby.leave id with
    | none => (f, .nothing, [])
    | some (p, lobby, mail) =>
      ({ f with lobby := lobby, outside := f.outside ++ [p] }, .left p, mail)
  | .close =>
    let (released, lobby, mail) := f.lobby.close
    ({ f with lobby := lobby, outside := f.outside ++ released }, .released released, mail)
  | .hangUp id =>
    ({ f with
        lobby := f.lobby.hangUp id
        outside := f.outside.map fun p => if p.id = id then p.hangUp else p },
      .nothing, [])

/-- A run of events, with all messages sent. -/
def run (f : Foyer) : List Event → Foyer × Mail
  | [] => (f, [])
  | e :: es =>
    let (f', _, mail) := f.step e
    let (f'', more) := f'.run es
    (f'', mail ++ more)

theorem run_append (f : Foyer) (es es' : List Event) :
    f.run (es ++ es') =
      (((f.run es).1.run es').1, (f.run es).2 ++ ((f.run es).1.run es').2) := by
  induction es generalizing f with
  | nil => rfl
  | cons e es ih => simp [run, ih]

end Foyer

end FourInRow
