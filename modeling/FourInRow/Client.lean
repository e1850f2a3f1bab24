import FourInRow.Wire.Record

/-!
# Clients

A client reads messages from a server and sends its own.  It answers questions for a sign of life
by itself, before it looks at anything that came after them, and remembers the player number it
was given last.

Component: `GameClient`.
-/

namespace FourInRow

/-- A client: its player number and what it has received and not read yet. -/
structure Client where
  player : Player
  inbox : List UInt8
  /-- Is the server's end of the connection gone? -/
  severed : Bool
deriving DecidableEq, Repr

namespace Client

/-- A client that has just connected. -/
def new : Client := ⟨nobody, [], false⟩

/-- Why a client cannot send. -/
inductive SendError
  /-- Nobody is there to receive it. -/
  | brokenPipe
deriving DecidableEq, Repr

/-- What comes of looking for the next message. -/
inductive Reading
  /-- A message. -/
  | message (m : Message)
  /-- A record that carries no message. -/
  | malformed (e : Wire.Error)
  /-- The server is gone and no whole record is left. -/
  | endOfStream
  /-- A question was read that can no longer be answered. -/
  | brokenPipe
  /-- Nothing more has come so far. -/
  | waiting
deriving DecidableEq, Repr

/-- Bytes arrive from the server. -/
def feed (c : Client) (bytes : List UInt8) : Client := { c with inbox := c.inbox ++ bytes }

/-- The server's end goes away. -/
def sever (c : Client) : Client := { c with severed := true }

/-- Sends a message. -/
def send (c : Client) (m : Message) : Except SendError (List Message) :=
  if c.severed then .error .brokenPipe else .ok [m]

/-- Asks for a match. -/
def ready (c : Client) : Except SendError (List Message) := c.send (.ready c.player)

/-- Drops a piece. -/
def takeTurn (c : Client) (column : UInt8) : Except SendError (List Message) :=
  c.send (.takeTurn c.player column)

/-- Takes note of a message: the player number is the one that was given last. -/
def note (c : Client) : Message → Client
  | .connected player => { c with player := player }
  | _ => c

/-- Reads until something else than a question for a sign of life turns up.  The third component
is what the client sends meanwhile. -/
def next (c : Client) : Client × Reading × List Message :=
  match _ : Wire.Record.split? c.inbox with
  | none => (c, if c.severed then .endOfStream else .waiting, [])
  | some (r, rest) =>
    let c' := { c with inbox := rest }
    match Message.decode r with
    | .error e => (c', .malformed e, [])
    | .ok .ping =>
      if c.severed then (c', .brokenPipe, [])
      else
        let (c'', reading, sent) := c'.next
        (c'', reading, .pong :: sent)
    | .ok m => (c'.note m, .message m, [])
termination_by c.inbox.length
decreasing_by exact Wire.Record.length_lt_of_split? ‹_›

/-- Reads as `next` does, but gives up where it would have to wait.  The part of a record that
has been taken off the stream by then is lost. -/
def poll (c : Client) : Client × Reading × List Message :=
  match c.next with
  | (c', .waiting, sent) => ({ c' with inbox := [] }, .waiting, sent)
  | answer => answer

/-! ## Runs -/

/-- What can happen to a client. -/
inductive Event
  /-- Bytes arrive from the server. -/
  | feed (bytes : List UInt8)
  /-- The server's end goes away. -/
  | sever
  /-- The client looks for the next message. -/
  | next
  /-- It asks for a match. -/
  | ready
  /-- It drops a piece. -/
  | takeTurn (column : UInt8)
deriving DecidableEq, Repr

/-- What goes out when a client sends something, which is nothing if nobody is there. -/
def posted : Except SendError (List Message) → List Message
  | .ok ms => ms
  | .error _ => []

/-- One event, with what the client reads and what it sends. -/
def step (c : Client) : Event → Client × List Reading × List Message
  | .feed bytes => (c.feed bytes, [], [])
  | .sever => (c.sever, [], [])
  | .next => (c.next.1, [c.next.2.1], c.next.2.2)
  | .ready => (c, [], posted c.ready)
  | .takeTurn column => (c, [], posted (c.takeTurn column))

/-- A run of events, with all that the client reads and sends. -/
def run (c : Client) : List Event → Client × List Reading × List Message
  | [] => (c, [], [])
  | e :: es =>
    let (c', readings, sent) := c.step e
    let (c'', readings', sent') := c'.run es
    (c'', readings ++ readings', sent ++ sent')

end Client

end FourInRow
