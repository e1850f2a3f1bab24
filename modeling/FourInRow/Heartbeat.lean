/-!
# Heartbeats

A connection is asked for a sign of life at every tick.  Each tick first settles the question
asked at the tick before: an answered one clears the count of missed answers, an unanswered one
adds to it.  A connection that has missed more answers than the limit allows has expired.

Component: `Liveness`.
-/

namespace FourInRow

/-- What a tick asks for. -/
inductive Verdict
  /-- Ask for a sign of life. -/
  | ping
  /-- Give the connection up. -/
  | expire
deriving DecidableEq, Repr

/-- The account of questions and answers on one connection. -/
structure Heartbeat where
  /-- How many answers in a row may be missed. -/
  limit : UInt32
  /-- How many answers in a row have been missed. -/
  missed : UInt32
  /-- Has a question been asked? -/
  asked : Bool
  /-- Has an answer come since? -/
  answered : Bool
deriving DecidableEq, Repr

namespace Heartbeat

/-- The account of a new connection. -/
def start (limit : UInt32) : Heartbeat := ⟨limit, 0, false, false⟩

/-- The count of missed answers once the latest question is settled. -/
def settled (h : Heartbeat) : UInt32 :=
  if h.asked then (if h.answered then 0 else h.missed + 1) else h.missed

/-- Settles the latest question and asks the next one, unless too many have been missed. -/
def tick (h : Heartbeat) : Heartbeat × Verdict :=
  let missed := h.settled
  if h.limit < missed then ({ h with missed := missed }, .expire)
  else ({ h with missed := missed, asked := true, answered := false }, .ping)

/-- An answer has come. -/
def pong (h : Heartbeat) : Heartbeat := { h with answered := true }

/-- What can happen to an account. -/
inductive Event
  /-- It is time for the next question. -/
  | tick
  /-- An answer has come. -/
  | pong
deriving DecidableEq, Repr

/-- One event, and the verdict that a tick comes to. -/
def step (h : Heartbeat) : Event → Heartbeat × Option Verdict
  | .tick => (h.tick.1, some h.tick.2)
  | .pong => (h.pong, none)

/-- The accounts and verdicts after each of a sequence of events. -/
def history (h : Heartbeat) : List Event → List (Heartbeat × Option Verdict)
  | [] => []
  | e :: es => h.step e :: (h.step e).1.history es

end Heartbeat

end FourInRow
