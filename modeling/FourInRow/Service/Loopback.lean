import FourInRow.Client
import FourInRow.Service.Basic

/-!
# A service and its clients

A service together with the clients at the other ends of its sockets.  Settings that make no sense
are refused at once, and then there is no service.  A client that waits for a message lets time
pass until there is one.
-/

namespace FourInRow

/-- A service, its clients, and how serving ended. -/
structure Loopback where
  service : Service
  /-- The clients, in the order they connected. -/
  clients : List Client
  ended : Option (Except Settings.Fault Unit)

namespace Loopback

/-- Starts to serve, if the settings make sense. -/
def start (settings : Settings) (draws : Draws) : Loopback where
  service := Service.start settings draws
  clients := []
  ended :=
    match settings.check with
    | .ok () => none
    | .error fault => some (.error fault)

/-- Replaces a client by what a function makes of it. -/
def modify (l : Loopback) (n : Nat) (f : Client → Client) : Loopback :=
  { l with clients := l.clients.modify n f }

/-- Hands what the service puts out to the clients. -/
def deliver (l : Loopback) : List Service.Output → Loopback
  | [] => l
  | .bytes recipient bs :: rest => (l.modify recipient.toNat fun c => c.feed bs).deliver rest
  | .closed id :: rest => (l.modify id.toNat Client.sever).deliver rest

/-- Lets something happen to the service, unless serving has ended. -/
def serve (l : Loopback) (event : Service → Service × List Service.Output) : Loopback :=
  if l.ended.isSome then l
  else
    let (service, out) := event l.service
    { l with service := service }.deliver out

/-- Another client connects. -/
def connect (l : Loopback) : Loopback :=
  let n := l.clients.length
  let c := if l.ended.isSome then Client.new.sever else Client.new
  { l with clients := l.clients ++ [c] }.serve fun s => s.connect (ConnectionId.ofNat n)

/-- A client sends messages. -/
def send (l : Loopback) (n : Nat) (ms : List Message) : Loopback :=
  l.serve fun s => s.write (ConnectionId.ofNat n) (Message.stream ms)

/-- A client sends what it is asked to send, if the server is there. -/
def request (l : Loopback) (n : Nat)
    (message : Client → Except Client.SendError (List Message)) : Loopback :=
  match l.clients[n]? with
  | none => l
  | some c =>
    match message c with
    | .ok ms => l.send n ms
    | .error _ => l

/-- A client drops its socket. -/
def close (l : Loopback) (n : Nat) : Loopback :=
  l.serve fun s => s.drop (ConnectionId.ofNat n)

/-- The service is told to stop. -/
def shutDown (l : Loopback) : Loopback :=
  if l.ended.isSome then l else { l.serve Service.shutDown with ended := some (.ok ()) }

/-- One millisecond passes. -/
def tick (l : Loopback) : Loopback := l.serve Service.tick

/-- A client reads its next message.  While there is none, time passes; the last argument bounds
how much. -/
def receive (l : Loopback) (n : Nat) : Nat → Loopback × Client.Reading
  | 0 => (l, .waiting)
  | patience + 1 =>
    match l.clients[n]? with
    | none => (l, .endOfStream)
    | some c =>
      let (c', reading, sent) := c.next
      let l := (l.modify n fun _ => c').send n sent
      if reading = .waiting then l.tick.receive n patience else (l, reading)

/-- How long a client waits, in milliseconds. -/
def patience : Nat := 60000

/-- A client reads some messages, and no more after the end of its connection. -/
def receiveMany (l : Loopback) (n : Nat) : Nat → Loopback × List Client.Reading
  | 0 => (l, [])
  | count + 1 =>
    match l.receive n patience with
    | (l', .message m) =>
      let (l'', readings) := l'.receiveMany n count
      (l'', .message m :: readings)
    | (l', .malformed e) =>
      let (l'', readings) := l'.receiveMany n count
      (l'', .malformed e :: readings)
    | (l', reading) => (l', [reading])

end Loopback

end FourInRow
