import FourInRow.Hall.Host
import FourInRow.Relay.Clocked

/-!
# The service

The service is a host together with one relay for each client.  Commands travel from the relays
to the host in the order they are given, and what the host brings about travels back to the
relays.  After each event everything runs until nothing is left to do.

Component: `serve`.
-/

namespace FourInRow

/-- A host and the relays that are running. -/
structure Service where
  settings : Settings
  host : Host
  relays : List ClockedRelay
deriving DecidableEq, Repr

namespace Service

/-- What the clients notice of the service. -/
inductive Output
  /-- Bytes reach a client. -/
  | bytes (recipient : ConnectionId) (bs : List UInt8)
  /-- A client's socket is closed. -/
  | closed (id : ConnectionId)
deriving DecidableEq, Repr

/-- The connection that an output goes to. -/
def Output.connection : Output → ConnectionId
  | bytes recipient _ => recipient
  | closed id => id

/-- A service that begins without clients. -/
def start (settings : Settings) (draws : Draws) : Service :=
  ⟨settings, Host.start settings draws, []⟩

/-- Is the host on duty? -/
def isRunning (s : Service) : Bool := s.host.onDuty

/-- What a client notices of its relay's actions. -/
def outputs (id : ConnectionId) (actions : List Relay.Action) : List Output :=
  actions.filterMap fun
    | .bytes bs => some (.bytes id bs)
    | .close _ => some (.closed id)
    | .command _ => none

/-- Replaces a relay by its next state, or drops it if it has ended. -/
def update (s : Service) (r : ClockedRelay) : Service :=
  let others := s.relays.filter fun q => q.relay.id ≠ r.relay.id
  if r.relay.ending.isSome then { s with relays := others }
  else { s with relays := s.relays.map fun q => if q.relay.id = r.relay.id then r else q }

/-- Lets an event happen to a connection's relay; nothing happens where there is no relay. -/
def settle (s : Service) (id : ConnectionId) (e : Relay.Event) :
    Service × List Command × List Output :=
  match s.relays.find? fun r => r.relay.id = id with
  | none => (s, [], [])
  | some r =>
    let (r', actions) := r.settle e
    (s.update r', Relay.commands actions, outputs id actions)

/-- Passes the effects of a command on to the relays. -/
def route (s : Service) : List Hall.Effect → Service × List Command × List Output
  | [] => (s, [], [])
  | effect :: rest =>
    let (s', commands, out) :=
      match effect with
      | .send recipient m => s.settle recipient (.post m)
      | .release id => s.settle id .release
    let (s'', more, out') := s'.route rest
    (s'', commands ++ more, out ++ out')

/-- Carries out the waiting commands, and those that come of them.  A command that comes of
another one is the last word of a relay that has ended, so the running relays bound their
number. -/
def carryOut : Nat → Service → List Command → Service × List Output
  | fuel + 1, s, c :: rest =>
    let (host, effects) := s.host.submit c
    let (s', more, out) := { s with host := host }.route effects
    let (s'', out') := carryOut fuel s' (rest ++ more)
    (s'', out ++ out')
  | _, s, _ => (s, [])

/-- Carries out all waiting commands. -/
def runCommands (s : Service) (commands : List Command) : Service × List Output :=
  carryOut (commands.length + s.relays.length) s commands

/-- Lets an event happen to a relay, and everything that comes of it. -/
def event (s : Service) (id : ConnectionId) (e : Relay.Event) : Service × List Output :=
  let (s', commands, out) := s.settle id e
  let (s'', out') := s'.runCommands commands
  (s'', out ++ out')

/-- A client connects. -/
def connect (s : Service) (id : ConnectionId) : Service × List Output :=
  let (r, actions) :=
    ClockedRelay.start id s.settings.maxMissedPings s.settings.pingInterval.toNat s.isRunning
  let s' := if r.relay.ending.isSome then s else { s with relays := s.relays ++ [r] }
  let (s'', out) := s'.runCommands (Relay.commands actions)
  (s'', outputs id actions ++ out)

/-- A client writes bytes. -/
def write (s : Service) (id : ConnectionId) (bytes : List UInt8) : Service × List Output :=
  s.event id (.arrive bytes)

/-- A client will write no more. -/
def finish (s : Service) (id : ConnectionId) : Service × List Output := s.event id .finish

/-- A client drops its socket, and notices nothing any more. -/
def drop (s : Service) (id : ConnectionId) : Service × List Output :=
  let (s', out) := s.event id .finish
  (s', out.filter fun o => o.connection ≠ id)

/-- The host is told to shut the hall. -/
def shutDown (s : Service) : Service × List Output := s.runCommands [.shutDown]

/-- The timers of the relays with the given connections move on. -/
def tickRelays (s : Service) : List ConnectionId → Service × List Output
  | [] => (s, [])
  | id :: rest =>
    match s.relays.find? fun r => r.relay.id = id with
    | none => s.tickRelays rest
    | some r =>
      let (r', actions) := r.tick
      let (s', out) := (s.update r').runCommands (Relay.commands actions)
      let (s'', out') := s'.tickRelays rest
      (s'', outputs id actions ++ out ++ out')

/-- One millisecond passes. -/
def tick (s : Service) : Service × List Output :=
  let (host, effects) := s.host.tick
  let (reviewed, commands, told) := { s with host := host }.route effects
  let (rested, more) := reviewed.runCommands commands
  let (ticked, last) := rested.tickRelays (rested.relays.map fun r => r.relay.id)
  (ticked, told ++ more ++ last)

/-- Some milliseconds pass. -/
def advance (s : Service) : Nat → Service × List Output
  | 0 => (s, [])
  | ms + 1 =>
    let (s', out) := s.tick
    let (s'', more) := s'.advance ms
    (s'', out ++ more)

end Service

end FourInRow
