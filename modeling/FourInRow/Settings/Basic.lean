import FourInRow.Board.Size
import FourInRow.Match.Basic

/-!
# Settings

What a server is told before it starts.  Not every value that can be written down makes sense for
a server: `Settings.check` says which settings do, and names the first fault otherwise.

Component: `ServerConfig`, with its `validate`.
-/

namespace FourInRow

/-- The settings of a server.  Intervals are in milliseconds. -/
structure Settings where
  /-- The address to listen on. -/
  bindAddress : String
  /-- How many lobbies there may be. -/
  maxLobbies : UInt64
  /-- How many seats a lobby has. -/
  playersPerLobby : UInt8
  boardColumns : UInt8
  boardRows : UInt8
  /-- The time between two questions for a sign of life. -/
  pingInterval : UInt64
  /-- How many of them may go unanswered in a row. -/
  maxMissedPings : UInt32
  /-- The time between two reviews of the waiting queue. -/
  queueInterval : UInt64
deriving DecidableEq, Repr

namespace Settings

/-- The settings of a server that is told nothing. -/
def default : Settings where
  bindAddress := "127.0.0.1:8888"
  maxLobbies := 4
  playersPerLobby := 2
  boardColumns := 7
  boardRows := 6
  pingInterval := 10000
  maxMissedPings := 3
  queueInterval := 30000

instance : Inhabited Settings := ⟨default⟩

/-- What is wrong with settings. -/
inductive Fault
  /-- There may be no lobby. -/
  | noLobbies
  /-- A lobby has too few seats for a match. -/
  | tooFewPlayers
  /-- An interval is zero. -/
  | zeroInterval
  /-- The board is not playable. -/
  | board (cause : Board.Error)
deriving DecidableEq, Repr

/-- The wording of a fault. -/
def Fault.reason : Fault → String
  | noLobbies => "max_lobbies must be at least 1"
  | tooFewPlayers =>
    let least := Match.minPlayers
    s!"players_per_lobby must be at least {least}"
  | zeroInterval => "intervals must be non-zero"
  | board cause => cause.message

/-- The wording of a fault where it is not clear that it is one of the settings. -/
def Fault.message (f : Fault) : String := "Invalid configuration: " ++ f.reason

/-- Accepts settings that a server can work with, or names their first fault. -/
def check (s : Settings) : Except Fault Unit :=
  if s.maxLobbies = 0 then .error .noLobbies
  else if s.playersPerLobby < Match.minPlayers then .error .tooFewPlayers
  else if s.pingInterval = 0 ∨ s.queueInterval = 0 then .error .zeroInterval
  else ((Board.Size.check s.boardColumns s.boardRows).map fun _ => ()).mapError .board

/-- The line that a server writes when it begins to serve. -/
def summary (s : Settings) : String :=
  let address := s.bindAddress
  let lobbies := s.maxLobbies
  let players := s.playersPerLobby
  let columns := s.boardColumns
  let rows := s.boardRows
  s!"{address}: up to {lobbies} lobbies of {players}, {columns}x{rows} board"

end Settings

end FourInRow
