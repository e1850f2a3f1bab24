import FourInRow.Diagnosis
import FourInRow.Service.Basic
import Std.Async.Signal
import Std.Async.TCP
import Std.Sync.Channel
import Std.Sync.Mutex

/-!
# The server program

The program reads its settings, listens on their address, and runs the service for the clients
that connect, until it is interrupted.  It holds no rule of its own: bytes that arrive, sockets
that end and milliseconds that pass are handed to the service one after another, and what the
service puts out is written to the sockets.
-/

namespace FourInRow

namespace Program

open Std.Async

/-- What is to be written to a socket; closed when the socket is to be closed. -/
abbrev Line := Std.CloseableChannel ByteArray

/-- The service and the lines to its clients. -/
structure Desk where
  service : Service
  lines : List (ConnectionId × Line)

/-- The desk, at which one event is dealt with at a time. -/
abbrev SharedDesk := Std.Mutex Desk

/-- How many numbers are drawn in advance of an event. -/
def stock : Nat := 1024

/-- A service with enough numbers drawn for the next event. -/
def restock (s : Service) : IO Service := do
  let missing := stock - s.host.hall.draws.length
  let mut draws := s.host.hall.draws
  for _ in [0:missing] do
    draws := (← IO.rand 0 0xFFFF) :: draws
  return { s with host := { s.host with hall := { s.host.hall with draws := draws } } }

/-- Hands what the service puts out to the lines. -/
def deliver (d : Desk) : List Service.Output → IO Desk
  | [] => return d
  | .bytes recipient bs :: rest => do
    if let some line := d.lines.lookup recipient then
      let _ ← line.send ⟨bs.toArray⟩
    deliver d rest
  | .closed id :: rest => do
    if let some line := d.lines.lookup id then
      let _ ← (line.close).toBaseIO
    deliver { d with lines := d.lines.filter fun e => e.1 ≠ id } rest

/-- Lets the service deal with an event. -/
def handle (desk : SharedDesk) (event : Service → Service × List Service.Output) : IO Unit :=
  desk.atomically do
    let d ← get
    let (service, out) := event (← restock d.service)
    set (← deliver { d with service := service } out)

/-- An identifier that no other connection has. -/
def freshId : IO ConnectionId := do
  let mut n := 0
  for _ in [0:16] do
    n := 256 * n + (← IO.rand 0 255)
  return ConnectionId.ofNat n

/-- Writes what comes along a line to a socket, and closes the socket at the end of the line. -/
partial def writeLoop (socket : TCP.Socket.Client) (line : Line) : Async Unit := do
  match ← await (← line.recv) with
  | some bytes =>
    socket.send bytes
    writeLoop socket line
  | none => socket.shutdown

/-- Hands what arrives on a socket to the service. -/
partial def readLoop (desk : SharedDesk) (id : ConnectionId) (socket : TCP.Socket.Client) :
    Async Unit := do
  let arrived ← try socket.recv? 4096 catch _ => pure none
  match arrived with
  | some bytes =>
    handle desk fun s => s.write id bytes.toList
    readLoop desk id socket
  | none => handle desk fun s => s.finish id

/-- Takes on a client. -/
def takeOn (desk : SharedDesk) (socket : TCP.Socket.Client) : Async Unit := do
  socket.noDelay
  let id ← freshId
  let line : Line ← Std.CloseableChannel.new
  desk.atomically do modify fun d => { d with lines := (id, line) :: d.lines }
  background (writeLoop socket line)
  handle desk fun s => s.connect id
  background (readLoop desk id socket)

/-- Takes on one client after another. -/
partial def acceptLoop (desk : SharedDesk) (server : TCP.Socket.Server) : Async Unit := do
  takeOn desk (← server.accept)
  acceptLoop desk server

/-- Lets the service know of the milliseconds that pass, as long as it runs. -/
partial def clockLoop (desk : SharedDesk) (last : Nat) : IO Unit := do
  IO.sleep 5
  let now ← IO.monoMsNow
  handle desk fun s => s.advance (now - last)
  if ← desk.atomically do return (← get).service.isRunning then clockLoop desk now

/-- The address of a socket for the operating system. -/
def systemAddress (a : SocketAddress) : Std.Net.SocketAddress :=
  let port := UInt16.ofNat a.port
  match a.ip with
  | .v4 bits =>
    let bytes := BigEndian.encode 4 bits
    .v4 ⟨⟨Vector.ofFn fun i : Fin 4 => bytes.getD i 0⟩, port⟩
  | .v6 groups =>
    .v6 ⟨⟨Vector.ofFn fun i : Fin 8 => UInt16.ofNat (groups.getD i 0)⟩, port⟩

/-- Listens on an address. -/
def listen (address : String) : IO TCP.Socket.Server := do
  match SocketAddress.ofText? address with
  | none => throw (IO.userError "invalid socket address")
  | some a =>
    let server ← TCP.Socket.Server.mk
    server.bind (systemAddress a)
    server.listen 128
    return server

/-- Serves until the program is interrupted. -/
def serve (server : TCP.Socket.Server) (settings : Settings) : IO Unit := do
  let desk : SharedDesk ← Std.Mutex.new ⟨Service.start settings [], []⟩
  let interrupt ← Signal.Waiter.mk .sigint false
  let interrupted ← interrupt.wait
  let now ← IO.monoMsNow
  let _ ← IO.asTask (clockLoop desk now) Task.Priority.dedicated
  (background (acceptLoop desk server) : Async Unit).block
  let _ ← interrupted.block
  handle desk Service.shutDown
  IO.sleep 100

/-- What the program says about itself, line by line. -/
def usage : List String :=
  ["A lobby-based game server for four in a row",
    "",
    "Usage: four_across_server [OPTIONS] [ADDR]",
    "",
    "Arguments:",
    "  [ADDR]  Address to bind to",
    "",
    "Options:",
    "  -c, --config <CONFIG>            JSON config file",
    "      --max-lobbies <MAX_LOBBIES>  Most lobbies that may exist at once",
    "  -p, --players <PLAYERS>          Players per lobby",
    "      --columns <COLUMNS>          Board columns",
    "      --rows <ROWS>                Board rows",
    "  -h, --help                       Print help",
    "  -V, --version                    Print version"]

/-- Ends the program for a reason that its arguments give. -/
def stop (why : CommandLine.Stop) : IO UInt32 := do
  match why with
  | .help => usage.forM IO.println
  | .version => IO.println "four_across_server 0.1.0"
  | .misuse => usage.forM IO.eprintln
  return why.exitCode

/-- Ends the program with a failure. -/
def fail (why : Launch.Failure) : IO UInt32 := do
  IO.eprintln ("Error: " ++ why.diagnosis)
  return 1

/-- What a file holds, if it can be read. -/
def contents (path : String) : IO (Option ByteArray) :=
  try return some (← IO.FS.readBinFile path) catch _ => return none

/-- Runs the program. -/
def run (args : List String) : IO UInt32 := do
  match Launch.Overrides.parse args with
  | .error why => stop why
  | .ok o =>
    let file ← match o.file with
      | some path => contents path
      | none => pure none
    match Launch.settings o fun _ => file with
    | .error why => fail why
    | .ok settings =>
      match ← (listen settings.bindAddress).toBaseIO with
      | .error _ => fail .bind
      | .ok server =>
        IO.println ("Four Across server on " ++ settings.summary)
        (← IO.getStdout).flush
        serve server settings
        return 0

end Program

end FourInRow

/-- The server program. -/
def main (args : List String) : IO UInt32 := FourInRow.Program.run args
