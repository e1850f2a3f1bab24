import FourInRow.Command
import FourInRow.Hall.Index
import FourInRow.Lobby.Play
import FourInRow.Settings.Basic

/-!
# The hall

The hall holds all lobbies and a queue of peers that wait for a seat.  A newcomer is seated in
the first lobby with a free seat; where there is none a new lobby is opened as long as the
settings allow it, and otherwise the newcomer queues up.  Whenever a seat becomes free it goes to
the front of the queue.

Everything is one step of the form `Hall → Command → Hall × List Effect`: the effects are the
messages that are sent and the connections that the hall lets go of, in order.

Component: `GameServer`, with its handlers of commands and its queue.
-/

namespace FourInRow

/-- The lobbies, the queue, and what is needed to run them. -/
structure Hall where
  settings : Settings
  /-- The lobbies, numbered from 0 in the order they were opened. -/
  lobbies : List Lobby
  /-- Which lobby holds a connection. -/
  index : Hall.Index
  /-- The peers that wait for a seat, the next one first. -/
  queue : List Peer
  /-- The length of the queue when all its places were last told. -/
  announced : Nat
  draws : Draws
deriving DecidableEq, Repr

namespace Hall

/-- What a step of the hall brings about. -/
inductive Effect
  /-- A message is sent. -/
  | send (recipient : ConnectionId) (m : Message)
  /-- The hall lets go of a connection and will not send to it any more. -/
  | release (id : ConnectionId)
deriving DecidableEq, Repr

/-- Messages as effects. -/
def sends (mail : Mail) : List Effect := mail.map fun m => .send m.1 m.2

/-- A hall without lobbies and with an empty queue. -/
def new (settings : Settings) (draws : Draws) : Hall :=
  ⟨settings, [], [], [], 0, draws⟩

/-! ## Seats -/

/-- Does the lobby with the given number have a free seat? -/
def hasFreeSeat (h : Hall) (n : Nat) : Bool := (h.lobbies[n]?).any Lobby.hasFreeSeat

/-- Replaces a lobby. -/
def setLobby (h : Hall) (n : Nat) (l : Lobby) : Hall := { h with lobbies := h.lobbies.set n l }

/-- Seats a peer in a lobby; there is no answer if the lobby turns it away. -/
def place (h : Hall) (n : Nat) (p : Peer) : Option (Hall × Mail) :=
  match h.lobbies[n]? with
  | none => none
  | some l =>
    match l.seat p with
    | none => none
    | some (_, l', mail) => some ({ h.setLobby n l' with index := h.index.insert p.id n }, mail)

/-- Opens one more lobby, if the settings allow it. -/
def openLobby (h : Hall) : Option (Hall × Nat) :=
  let n := h.lobbies.length
  if n < h.settings.maxLobbies.toNat then
    let s := h.settings
    let l := (Lobby.new n s.playersPerLobby s.boardColumns s.boardRows).openDoors
    some ({ h with lobbies := h.lobbies ++ [l] }, n)
  else
    none

/-! ## The queue -/

/-- Tells every waiting peer its place, counted from 1. -/
def announceQueue (h : Hall) : Hall × Mail :=
  ({ h with announced := h.queue.length },
    h.queue.zipIdx.flatMap fun e => e.1.queued (UInt64.ofNat (e.2 + 1)))

/-- Puts a peer at the end of the queue and tells it its place. -/
def enqueue (h : Hall) (p : Peer) : Hall × Mail :=
  let queue := h.queue ++ [p]
  ({ h with queue := queue }, p.queued (UInt64.ofNat queue.length))

/-- Fills the free seats of a lobby from the front of a queue.  Peers that have stopped listening
are let go.  What remains of the queue is the second component. -/
def seatFrom (n : Nat) (h : Hall) : List Peer → Hall × List Peer × List Effect
  | [] => (h, [], [])
  | p :: rest =>
    if h.hasFreeSeat n then
      if p.listening then
        match h.place n p with
        | none => (h, p :: rest, [])
        | some (h', mail) =>
          let (h'', queue, effects) := seatFrom n h' rest
          (h'', queue, sends mail ++ effects)
      else
        let (h', queue, effects) := seatFrom n h rest
        (h', queue, .release p.id :: effects)
    else
      (h, p :: rest, [])

/-- Gives the free seats of a lobby to the queue; if that makes the queue shorter, all places in
it are told. -/
def backfill (h : Hall) (n : Nat) : Hall × List Effect :=
  let (h', queue, effects) := seatFrom n h h.queue
  let h' := { h' with queue := queue }
  if queue.length = h.queue.length then (h', effects)
  else
    let (h'', mail) := h'.announceQueue
    (h'', effects ++ sends mail)

/-- The length from which on the places in a queue are told only when the length has changed
enough. -/
def longQueue : Nat := 10

/-- The change in length that is enough. -/
def largeChange : Nat := 10

/-- Reviews the queue: peers that have stopped listening are let go, and the places are told
again, in a long queue only after a large change. -/
def reviewQueue (h : Hall) : Hall × List Effect :=
  let gone := h.queue.filter fun p => !p.listening
  let h' := { h with queue := h.queue.filter fun p => p.listening }
  let released := gone.map fun p => Effect.release p.id
  let size := h'.queue.length
  if size = 0 then
    ({ h' with announced := 0 }, released)
  else if size < longQueue ∨ largeChange ≤ (size - h.announced) + (h.announced - size) then
    let (h'', mail) := h'.announceQueue
    (h'', released ++ sends mail)
  else
    (h', released)

/-! ## Commands -/

/-- Seats a new connection, in the first lobby with a free seat or else in a new lobby, or puts
it into the queue. -/
def connect (h : Hall) (id : ConnectionId) : Hall × Mail :=
  let p := Peer.new id
  let placed :=
    match h.lobbies.findIdx? Lobby.hasFreeSeat with
    | some n => h.place n p
    | none => none
  match placed with
  | some r => r
  | none =>
    match h.openLobby with
    | none => h.enqueue p
    | some (h', n) =>
      match h'.place n p with
      | some r => r
      | none => h'.enqueue p

/-- Lets go of a connection wherever it is.  A seat that it leaves is filled from the queue, and
a place that it leaves in the queue moves those behind it up. -/
def disconnect (h : Hall) (id : ConnectionId) : Hall × List Effect :=
  match h.index.find? id with
  | some n =>
    let h := { h with index := h.index.remove id }
    match h.lobbies[n]?.bind fun l => l.leave id with
    | none => h.backfill n
    | some (_, l, mail) =>
      let (h', effects) := (h.setLobby n l).backfill n
      (h', sends mail ++ .release id :: effects)
  | none =>
    match h.queue.find? fun p => p.id = id with
    | none => (h, [])
    | some _ =>
      let (h', mail) := { h with queue := h.queue.eraseP fun p => p.id = id }.announceQueue
      (h', .release id :: sends mail)

/-- A connection is ready; heard only from a seat. -/
def ready (h : Hall) (id : ConnectionId) : Hall × Mail :=
  match h.index.find? id with
  | none => (h, [])
  | some n =>
    match h.lobbies[n]? with
    | none => (h, [])
    | some l =>
      let (l', draws, mail) := l.ready h.draws id
      ({ h.setLobby n l' with draws := draws }, mail)

/-- A connection takes its turn; heard only from a seat.  The match may end by it, so the lobby
is filled up afterwards. -/
def turn (h : Hall) (id : ConnectionId) (column : UInt8) : Hall × List Effect :=
  match h.index.find? id with
  | none => (h, [])
  | some n =>
    match h.lobbies[n]? with
    | none => h.backfill n
    | some l =>
      let (l', mail) := l.turn id column
      let (h', effects) := (h.setLobby n l').backfill n
      (h', sends mail ++ effects)

/-- Closes the lobbies one after another, and lists what that brings about. -/
def closeAll : List Lobby → List Lobby × List Effect
  | [] => ([], [])
  | l :: rest =>
    let (released, l', mail) := l.close
    let (rest', effects) := closeAll rest
    (l' :: rest', sends mail ++ released.map (fun p => .release p.id) ++ effects)

/-- Closes every lobby and lets go of every connection. -/
def shutDown (h : Hall) : Hall × List Effect :=
  let (lobbies, effects) := closeAll h.lobbies
  ({ h with lobbies := lobbies, index := [], queue := [] },
    effects ++ h.queue.map fun p => .release p.id)

/-- Carries out a command. -/
def handle (h : Hall) : Command → Hall × List Effect
  | .connect id =>
    let (h', mail) := h.connect id
    (h', sends mail)
  | .disconnect id => h.disconnect id
  | .ready id =>
    let (h', mail) := h.ready id
    (h', sends mail)
  | .turn id column => h.turn id column
  | .shutDown => h.shutDown

/-! ## Runs -/

/-- The receiving end of a connection goes away, unnoticed by the hall. -/
def hangUp (h : Hall) (id : ConnectionId) : Hall :=
  { h with
    lobbies := h.lobbies.map fun l => l.hangUp id
    queue := h.queue.map fun p => if p.id = id then p.hangUp else p }

/-- What can happen to a hall. -/
inductive Event
  /-- A command arrives. -/
  | command (c : Command)
  /-- A connection stops listening. -/
  | hangUp (id : ConnectionId)
  /-- It is time to review the queue. -/
  | review
deriving DecidableEq, Repr

/-- One event. -/
def step (h : Hall) : Event → Hall × List Effect
  | .command c => h.handle c
  | .hangUp id => (h.hangUp id, [])
  | .review => h.reviewQueue

/-- A run of events, with all it brings about. -/
def run (h : Hall) : List Event → Hall × List Effect
  | [] => (h, [])
  | e :: es =>
    let (h', effects) := h.step e
    let (h'', more) := h'.run es
    (h'', effects ++ more)

theorem run_append (h : Hall) (es es' : List Event) :
    h.run (es ++ es') =
      (((h.run es).1.run es').1, (h.run es).2 ++ ((h.run es).1.run es').2) := by
  induction es generalizing h with
  | nil => rfl
  | cons e es ih => simp [run, ih]

end Hall

end FourInRow
