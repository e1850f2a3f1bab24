import FourInRow.Board.Basic
import FourInRow.Client
import FourInRow.Draws

/-!
# Bots

A bot is a client that plays by itself.  It asks for a match as soon as it has a seat, keeps a
board of its own on which it repeats every piece it hears of, and answers a request for its turn
with one of the columns that have room there.  After each match it asks for another one, until it
has played as many as it was told to.

Component: the bot client, with its `choose_column`.
-/

namespace FourInRow

/-- A bot: its client, its board while a match is running, and its account of matches. -/
structure Bot where
  client : Client
  board : Option Board
  played : Nat
  goal : Nat
  draws : Draws
deriving DecidableEq, Repr

namespace Bot

/-- Why a bot gives up. -/
inductive Error
  /-- The connection is gone. -/
  | connectionLost
  /-- A record carries no message. -/
  | malformed (cause : Wire.Error)
  /-- The board does not allow what the server says. -/
  | board (cause : Board.Error)
deriving DecidableEq, Repr

/-- How a bot stands. -/
inductive Status
  /-- It waits for a message. -/
  | waiting
  /-- It has played all its matches. -/
  | finished
  /-- It has given up. -/
  | failed (why : Error)
deriving DecidableEq, Repr

/-- A bot that has just connected. -/
def new (goal : Nat) (draws : Draws) : Bot := ⟨Client.new, none, 0, goal, draws⟩

/-- Has the bot played all its matches? -/
def isDone (b : Bot) : Bool := b.goal ≤ b.played

/-- Sends a message, if the server is there. -/
def send (b : Bot) (m : Message) : Except Error (Bot × List Message) :=
  match b.client.send m with
  | .ok sent => .ok (b, sent)
  | .error _ => .error .connectionLost

/-- Repeats a piece on the bot's own board.  A piece for which there is no room is let be. -/
def repeatPiece (b : Bot) (column : UInt8) (p : Player) : Except Error (Bot × List Message) :=
  match b.board with
  | none => .ok (b, [])
  | some board =>
    match board.drop column p with
    | .error e => .error (.board e)
    | .ok none => .ok (b, [])
    | .ok (some board') => .ok ({ b with board := some board' }, [])

/-- Chooses a column that has room, by chance. -/
def chooseColumn (b : Bot) : Option (UInt8 × Draws) :=
  match b.board with
  | none => none
  | some board =>
    let columns := board.openColumns
    let (choice, draws) := b.draws.choose columns.length
    columns[choice]?.map fun column => (column, draws)

/-- What the bot does about a message. -/
def react (b : Bot) : Message → Except Error (Bot × List Message)
  | .connected _ => b.send (.ready b.client.player)
  | .gameStart _ columns rows _ =>
    match Board.new columns rows with
    | .error e => .error (.board e)
    | .ok board => .ok ({ b with board := some board }, [])
  | .turnRequest _ =>
    match b.chooseColumn with
    | none => .ok (b, [])
    | some (column, draws) =>
      { b with draws := draws }.send (.takeTurn b.client.player column)
  | .turnResult result column =>
    if result = .success then b.repeatPiece column b.client.player else .ok (b, [])
  | .update p column => b.repeatPiece column p
  | .gameEnd _ =>
    let b := { b with played := b.played + 1, board := none }
    if b.isDone then .ok (b, []) else b.send (.ready b.client.player)
  | _ => .ok (b, [])

/-- The bot takes note of a message and reacts to it. -/
def hear (b : Bot) (m : Message) : Except Error (Bot × List Message) :=
  { b with client := b.client.note m }.react m

/-- What the bot does about what its client has read. -/
def take (b : Bot) (reading : Client.Reading) : Except Error (Bot × List Message) :=
  match reading with
  | .message m => b.react m
  | .malformed e => .error (.malformed e)
  | .endOfStream | .brokenPipe => .error .connectionLost
  | .waiting => .ok (b, [])

/-- Reads and reacts until the bot has to wait or is done with its work.  The last argument
bounds the number of messages. -/
def workFor : Nat → Bot → Bot × List Message × Status
  | 0, b => (b, [], .waiting)
  | fuel + 1, b =>
    if b.isDone then (b, [], .finished)
    else
      let (client, reading, sent) := b.client.next
      let b := { b with client := client }
      if reading = .waiting then (b, sent, .waiting)
      else
        match b.take reading with
        | .error e => (b, sent, .failed e)
        | .ok (b', out) =>
          let (b'', more, status) := workFor fuel b'
          (b'', sent ++ out ++ more, status)

/-- Does all that can be done about what the server has sent so far. -/
def work (b : Bot) : Bot × List Message × Status := workFor (b.client.inbox.length + 1) b

end Bot

end FourInRow
