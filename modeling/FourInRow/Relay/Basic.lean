import FourInRow.Command
import FourInRow.Heartbeat
import FourInRow.Wire.Record

/-!
# Relays

A relay stands between one client's socket and the hall.  It registers the connection, passes the
client's requests on as commands, writes the messages that the hall has queued for the client,
and keeps the heartbeat.  However it ends, the last thing it does is to tell the hall that the
connection is gone.

A relay takes small steps, one event at a time, so that bytes may arrive, be read and be written
in any order and at any pace: what has arrived waits in `inbox`, what is to be written waits in
`outbox`, and the rest of a record that is being written waits in `unwritten`.

Component: `handle_connection`.
-/

namespace FourInRow

namespace Relay

/-- Why a relay ended. -/
inductive Ending
  /-- The hall could not be reached to register the connection. -/
  | unregistered
  /-- The client has sent all it will send. -/
  | peerClosed
  /-- A command could not be passed on. -/
  | hallClosed
  /-- The hall has let the connection go. -/
  | released
  /-- The client missed too many questions for a sign of life. -/
  | expired
  /-- There is nothing left to write, or writing failed. -/
  | writeEnded
deriving DecidableEq, Repr

/-- Why a relay failed. -/
inductive Error
  /-- The hall could not be reached. -/
  | channelSend
deriving DecidableEq, Repr

/-- The wording of a relay's failure. -/
def Error.message : Error → String
  | channelSend => "Channel send error"

/-- A relay that could not register has failed; every other ending is in order. -/
def Ending.result : Ending → Except Error Unit
  | unregistered => .error .channelSend
  | _ => .ok ()

/-- What can happen to a relay. -/
inductive Event
  /-- Bytes arrive from the client. -/
  | arrive (bytes : List UInt8)
  /-- The client will send no more. -/
  | finish
  /-- The relay looks at the next record that has arrived. -/
  | read
  /-- It is time for the next question for a sign of life. -/
  | tick
  /-- The hall queues a message for the client. -/
  | post (m : Message)
  /-- The hall lets the connection go. -/
  | release
  /-- The socket has room for some bytes. -/
  | write (room : Nat)
  /-- Writing to the socket fails. -/
  | writeFails
  /-- The hall is not to be reached any more. -/
  | hallCloses
deriving DecidableEq, Repr

/-- What a relay does. -/
inductive Action
  /-- It passes a command on. -/
  | command (c : Command)
  /-- It writes bytes to the socket. -/
  | bytes (bs : List UInt8)
  /-- It ends and closes the socket. -/
  | close (why : Ending)
deriving DecidableEq, Repr

end Relay

/-- A relay between a client's socket and the hall. -/
structure Relay where
  id : ConnectionId
  heartbeat : Heartbeat
  /-- The bytes that have arrived and are not read yet. -/
  inbox : List UInt8
  /-- Will the client send no more? -/
  finished : Bool
  /-- The messages that wait to be written. -/
  outbox : List Message
  /-- What is left of the record that is being written. -/
  unwritten : List UInt8
  /-- Has the hall let the connection go? -/
  released : Bool
  /-- Can the hall still be reached? -/
  reachable : Bool
  /-- How the relay ended. -/
  ending : Option Relay.Ending
deriving DecidableEq, Repr

namespace Relay

/-- A relay before it has registered. -/
def idle (id : ConnectionId) (maxMissed : UInt32) (reachable : Bool) : Relay :=
  ⟨id, Heartbeat.start maxMissed, [], false, [], [], false, reachable, none⟩

/-- A new relay registers its connection first of all. -/
def start (id : ConnectionId) (maxMissed : UInt32) (reachable : Bool) : Relay × List Action :=
  let r := idle id maxMissed reachable
  if reachable then (r, [.command (.connect id)])
  else ({ r with ending := some .unregistered }, [.close .unregistered])

/-- Ends the relay: what has not been written is lost, and the hall hears that the connection is
gone if it can be reached. -/
def finishWith (r : Relay) (why : Ending) : Relay × List Action :=
  ({ r with ending := some why },
    (if r.reachable then [.command (.disconnect r.id)] else []) ++ [.close why])

/-- Passes a command on, or ends where that is impossible. -/
def passOn (r : Relay) (c : Command) : Relay × List Action :=
  if r.reachable then (r, [.command c]) else r.finishWith .hallClosed

/-- The command that a client's message stands for, if it is a request.  The player number in the
message does not matter. -/
def request? (id : ConnectionId) : Message → Option Command
  | .ready _ => some (.ready id)
  | .takeTurn _ column => some (.turn id column)
  | _ => none

/-- What the relay does about a message from the client. -/
def receive (r : Relay) : Message → Relay × List Action
  | .pong => ({ r with heartbeat := r.heartbeat.pong }, [])
  | m =>
    match request? r.id m with
    | some c => r.passOn c
    | none => (r, [])

/-- Looks at the next record; when none is left and no more will come, the relay ends.  Records
that carry no message are skipped, and one that is cut short is dropped. -/
def read (r : Relay) : Relay × List Action :=
  match Wire.Record.split? r.inbox with
  | some (record, rest) =>
    let r := { r with inbox := rest }
    match Message.decode record with
    | .ok m => r.receive m
    | .error _ => (r, [])
  | none => if r.finished then r.finishWith .peerClosed else (r, [])

/-- Asks for a sign of life, unless the client has expired or the hall has let it go. -/
def tick (r : Relay) : Relay × List Action :=
  let (heartbeat, verdict) := r.heartbeat.tick
  let r := { r with heartbeat := heartbeat }
  match verdict with
  | .expire => r.finishWith .expired
  | .ping =>
    if r.released then r.finishWith .released
    else ({ r with outbox := r.outbox ++ [.ping] }, [])

/-- Writes at most `room` bytes of the record that is being written, or of the next one.  When
nothing is left to write and nothing more can come, the relay ends. -/
def write (r : Relay) (room : Nat) : Relay × List Action :=
  match r.unwritten, r.outbox with
  | [], [] => if r.released then r.finishWith .writeEnded else (r, [])
  | [], m :: rest =>
    let bytes := m.encode.bytes
    ({ r with outbox := rest, unwritten := bytes.drop room }, [.bytes (bytes.take room)])
  | bytes, _ => ({ r with unwritten := bytes.drop room }, [.bytes (bytes.take room)])

/-- One event of a relay that has not ended. -/
def act (r : Relay) : Event → Relay × List Action
  | .arrive bytes => ({ r with inbox := r.inbox ++ bytes }, [])
  | .finish => ({ r with finished := true }, [])
  | .read => r.read
  | .tick => r.tick
  | .post m => (if r.released then r else { r with outbox := r.outbox ++ [m] }, [])
  | .release => ({ r with released := true }, [])
  | .write room => r.write room
  | .writeFails => r.finishWith .writeEnded
  | .hallCloses => ({ r with reachable := false }, [])

/-- One event; nothing happens to a relay that has ended. -/
def step (r : Relay) (e : Event) : Relay × List Action :=
  if r.ending.isSome then (r, []) else r.act e

/-- A run of events, with all the relay does. -/
def run (r : Relay) : List Event → Relay × List Action
  | [] => (r, [])
  | e :: es =>
    let (r', actions) := r.step e
    let (r'', more) := r'.run es
    (r'', actions ++ more)

theorem run_append (r : Relay) (es es' : List Event) :
    r.run (es ++ es') =
      (((r.run es).1.run es').1, (r.run es).2 ++ ((r.run es).1.run es').2) := by
  induction es generalizing r with
  | nil => rfl
  | cons e es ih => simp [run, ih]

/-! ## Running to rest -/

/-- Enough steps for the relay to read and write all there is, with a socket that takes whole
records. -/
def pending (r : Relay) : List Event :=
  List.replicate (r.inbox.length / Wire.Record.length + 1) .read ++
    List.replicate (r.outbox.length + 2) (.write Wire.Record.length)

/-- Lets an event happen and the relay do all it can do about it. -/
def settle (r : Relay) (e : Event) : Relay × List Action :=
  let (r', actions) := r.step e
  let (r'', more) := r'.run r'.pending
  (r'', actions ++ more)

/-- The commands among a relay's actions. -/
def commands (actions : List Action) : List Command :=
  actions.filterMap fun
    | .command c => some c
    | _ => none

/-- The bytes among a relay's actions, in one string. -/
def written (actions : List Action) : List UInt8 :=
  actions.flatMap fun
    | .bytes bs => bs
    | _ => []

end Relay

end FourInRow
