import FourInRow.Bot.Basic
import FourInRow.Hall.Basic
import FourInRow.Relay.Basic

/-!
# The arena

A hall and the bots that play in it.  Two lines run between the hall and every bot, one in each
direction; nothing on them is lost, and nothing overtakes.  The hall carries out one command at a
time and a bot hears one message at a time, in any order across the bots, and a bot may drop its
connection at any moment.  The hall may then find out that nobody listens before it comes to the
bot's last command.  `Arena.run` is any such course of events, with all that the hall says.

Components: `GameServer` and bot clients, with the channels between them.
-/

namespace FourInRow

/-- A bot and the lines between it and the hall. -/
structure Contestant where
  id : ConnectionId
  bot : Bot
  /-- The commands on their way to the hall, the oldest first. -/
  asked : List Command
  /-- The messages on their way to the bot, the oldest first. -/
  told : List Message
  /-- Has the bot dropped its connection? -/
  gone : Bool
deriving DecidableEq, Repr

namespace Contestant

/-- The bot drops its connection, which is the last thing the hall hears of it. -/
def depart (c : Contestant) : Contestant :=
  if c.gone then c else { c with asked := c.asked ++ [.disconnect c.id], gone := true }

/-- A bot that has no match left to play drops its connection. -/
def departIfDone (c : Contestant) : Contestant := if c.bot.isDone then c.depart else c

/-- A bot that has just connected. -/
def new (id : ConnectionId) (goal : Nat) (draws : Draws) : Contestant :=
  departIfDone ⟨id, Bot.new goal draws, [.connect id], [], false⟩

/-- A message is put on the line to the bot; nobody listens there once the bot is gone. -/
def tell (c : Contestant) (m : Message) : Contestant :=
  if c.gone then c else { c with told := c.told ++ [m] }

/-- The bot hears the oldest message and does what is to be done about it.  One that cannot go on
drops its connection. -/
def hear (c : Contestant) : Contestant :=
  match c.gone, c.told with
  | false, m :: rest =>
    let c := { c with told := rest }
    match c.bot.hear m with
    | .error _ => c.depart
    | .ok (bot, sent) =>
      let requests := sent.filterMap fun m => Relay.request? c.id m
      { c with bot := bot, asked := c.asked ++ requests }.departIfDone
  | _, _ => c

end Contestant

/-- A hall and the bots that play in it. -/
structure Arena where
  hall : Hall
  contestants : List Contestant
deriving DecidableEq, Repr

namespace Arena

/-- What can happen in the arena. -/
inductive Event
  /-- A bot connects under an identifier that was not used before. -/
  | enter (id : ConnectionId) (goal : Nat) (draws : Draws)
  /-- The hall carries out a bot's oldest command. -/
  | serve (id : ConnectionId)
  /-- A bot hears its oldest message. -/
  | hear (id : ConnectionId)
  /-- A bot drops its connection. -/
  | depart (id : ConnectionId)
  /-- The line to a bot that has dropped its connection breaks. -/
  | hangUp (id : ConnectionId)
  /-- It is time for the hall to review its queue. -/
  | review
deriving DecidableEq, Repr

/-- An arena without bots. -/
def new (settings : Settings) (draws : Draws) : Arena := ⟨Hall.new settings draws, []⟩

/-- The contestant with the given connection. -/
def find? (a : Arena) (id : ConnectionId) : Option Contestant :=
  a.contestants.find? fun c => c.id = id

/-- Replaces a contestant by what a function makes of it. -/
def modify (a : Arena) (id : ConnectionId) (f : Contestant → Contestant) : Arena :=
  { a with contestants := a.contestants.map fun c => if c.id = id then f c else c }

/-- Puts the messages among the effects on the lines to the bots. -/
def deliver (a : Arena) (effects : List Hall.Effect) : Arena :=
  effects.foldl (fun a e =>
    match e with
    | .send recipient m => a.modify recipient fun c => c.tell m
    | .release _ => a) a

/-- Something happens to the hall, and the bots are told what it says about it. -/
def act (a : Arena) (e : Hall.Event) : Arena × List Hall.Effect :=
  let (hall, effects) := a.hall.step e
  ({ a with hall := hall }.deliver effects, effects)

/-- The hall carries out a bot's oldest command. -/
def serve (a : Arena) (id : ConnectionId) : Arena × List Hall.Effect :=
  match a.find? id with
  | none => (a, [])
  | some c =>
    match c.asked with
    | [] => (a, [])
    | command :: rest => (a.modify id fun c => { c with asked := rest }).act (.command command)

/-- The line to a bot that has dropped its connection breaks. -/
def hangUp (a : Arena) (id : ConnectionId) : Arena × List Hall.Effect :=
  match a.find? id with
  | none => (a, [])
  | some c => if c.gone then a.act (.hangUp id) else (a, [])

/-- One event. -/
def step (a : Arena) : Event → Arena × List Hall.Effect
  | .enter id goal draws =>
    if (a.find? id).isSome then (a, [])
    else ({ a with contestants := a.contestants ++ [Contestant.new id goal draws] }, [])
  | .serve id => a.serve id
  | .hear id => (a.modify id Contestant.hear, [])
  | .depart id => (a.modify id Contestant.depart, [])
  | .hangUp id => a.hangUp id
  | .review => a.act .review

/-- A course of events, with all that the hall says meanwhile. -/
def run (a : Arena) : List Event → Arena × List Hall.Effect
  | [] => (a, [])
  | e :: es =>
    let (a', effects) := a.step e
    let (a'', more) := a'.run es
    (a'', effects ++ more)

theorem run_append (a : Arena) (es es' : List Event) :
    a.run (es ++ es') =
      (((a.run es).1.run es').1, (a.run es).2 ++ ((a.run es).1.run es').2) := by
  induction es generalizing a with
  | nil => rfl
  | cons e es ih => simp [run, ih]

/-- Is nothing under way, neither to the hall nor to a bot that is still there? -/
def isAtRest (a : Arena) : Bool :=
  a.contestants.all fun c => c.asked.isEmpty && (c.gone || c.told.isEmpty)

end Arena

end FourInRow
