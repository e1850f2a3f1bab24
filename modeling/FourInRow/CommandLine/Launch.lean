import FourInRow.CommandLine.Number
import FourInRow.CommandLine.Scan
import FourInRow.Settings.Document
import FourInRow.SocketAddress

/-!
# Launching a server

A server is launched with settings in three layers: what the command line says counts first, then
what the settings file says, then the defaults.  Only the settings that come out of all three are
checked, so the command line may mend a file or spoil it.
-/

namespace FourInRow

namespace Launch

open CommandLine

/-- An option of the server with its value. -/
inductive Choice
  /-- The settings file. -/
  | file (path : String)
  | maxLobbies (n : UInt64)
  | players (n : UInt8)
  | columns (n : UInt8)
  | rows (n : UInt8)
deriving DecidableEq, Repr

/-- A path, which must not be empty. -/
def readPath (s : String) : Option Choice := if s.isEmpty then none else some (.file s)

/-- A byte. -/
def readByte (s : String) : Option UInt8 := (integerBelow? UInt8.size s).map UInt8.ofNat

/-- The options of the server. -/
def specs : List (Spec Choice) :=
  [⟨"config", some 'c', readPath⟩,
    ⟨"max-lobbies", none, fun s =>
      (naturalBelow? UInt64.size s).map fun n => .maxLobbies (UInt64.ofNat n)⟩,
    ⟨"players", some 'p', fun s => (readByte s).map .players⟩,
    ⟨"columns", none, fun s => (readByte s).map .columns⟩,
    ⟨"rows", none, fun s => (readByte s).map .rows⟩]

/-- What the command line says about the settings. -/
structure Overrides where
  bindAddress : Option String
  file : Option String
  maxLobbies : Option UInt64
  players : Option UInt8
  columns : Option UInt8
  rows : Option UInt8
deriving DecidableEq, Repr

namespace Overrides

/-- A command line that says nothing. -/
def none : Overrides :=
  ⟨Option.none, Option.none, Option.none, Option.none, Option.none, Option.none⟩

/-- Takes down one option. -/
def choose (o : Overrides) : Choice → Overrides
  | .file path => { o with file := some path }
  | .maxLobbies n => { o with maxLobbies := some n }
  | .players n => { o with players := some n }
  | .columns n => { o with columns := some n }
  | .rows n => { o with rows := some n }

/-- What scanned arguments say. -/
def ofArguments (a : Arguments Choice) : Overrides :=
  a.values.foldl choose { none with bindAddress := a.operand }

/-- Reads a command line. -/
def parse (args : List String) : Except Stop Overrides :=
  (Arguments.none.scan specs args).map ofArguments

/-- Lays what the command line says over settings. -/
def apply (o : Overrides) (s : Settings) : Settings :=
  { s with
    bindAddress := o.bindAddress.getD s.bindAddress
    maxLobbies := o.maxLobbies.getD s.maxLobbies
    playersPerLobby := o.players.getD s.playersPerLobby
    boardColumns := o.columns.getD s.boardColumns
    boardRows := o.rows.getD s.boardRows }

end Overrides

/-- Why a server cannot be launched. -/
inductive Failure
  /-- The settings file cannot be used. -/
  | file (cause : Settings.FileError)
  /-- The settings make no sense. -/
  | settings (fault : Settings.Fault)
  /-- The server cannot listen on its address. -/
  | bind
deriving DecidableEq, Repr

/-- Settings that pass the check, or what is wrong with them. -/
def checked (s : Settings) : Except Failure Settings :=
  match s.check with
  | .error fault => .error (.settings fault)
  | .ok () => .ok s

/-- The settings of a launch.  The file system is given as what a path holds. -/
def settings (o : Overrides) (files : String → Option ByteArray) : Except Failure Settings :=
  let base : Except Failure Settings :=
    match o.file with
    | none => .ok Settings.default
    | some path => (Settings.ofFile (files path)).mapError .file
  match base with
  | .error e => .error e
  | .ok s => checked (o.apply s)

/-- What comes of calling the server program. -/
inductive Outcome
  /-- It says something about itself, or how to call it, and exits. -/
  | stopped (why : CommandLine.Stop)
  /-- It fails. -/
  | failed (why : Failure)
  /-- It serves. -/
  | serving (s : Settings)
deriving DecidableEq, Repr

/-- Can a server listen on the address? -/
def canListen (address : String) : Bool :=
  (SocketAddress.ofText? address).any fun a => a.ip.isUsable

/-- Calls the server program. -/
def outcome (args : List String) (files : String → Option ByteArray) : Outcome :=
  match Overrides.parse args with
  | .error why => .stopped why
  | .ok o =>
    match settings o files with
    | .error why => .failed why
    | .ok s => if canListen s.bindAddress then .serving s else .failed .bind

end Launch

end FourInRow
