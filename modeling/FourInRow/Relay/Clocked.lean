import FourInRow.Relay.Basic
import FourInRow.Timer

/-!
# Relays in time

A relay with the timer that rings for its heartbeat.

Component: `handle_connection`, with its ticker.
-/

namespace FourInRow

/-- A relay and its timer. -/
structure ClockedRelay where
  relay : Relay
  timer : Timer
deriving DecidableEq, Repr

namespace ClockedRelay

/-- A new relay starts its timer as it registers. -/
def start (id : ConnectionId) (maxMissed : UInt32) (period : Nat) (reachable : Bool) :
    ClockedRelay × List Relay.Action :=
  let (relay, actions) := Relay.start id maxMissed reachable
  (⟨relay, Timer.start period⟩, actions)

/-- Lets an event happen and the relay do all it can do about it. -/
def settle (r : ClockedRelay) (e : Relay.Event) : ClockedRelay × List Relay.Action :=
  let (relay, actions) := r.relay.settle e
  ({ r with relay := relay }, actions)

/-- Lets events happen one after another, and the relay do all it can do about each. -/
def settleAll (r : ClockedRelay) : List Relay.Event → ClockedRelay × List Relay.Action
  | [] => (r, [])
  | e :: es =>
    let (r', actions) := r.settle e
    let (r'', more) := r'.settleAll es
    (r'', actions ++ more)

/-- One millisecond passes. -/
def tick (r : ClockedRelay) : ClockedRelay × List Relay.Action :=
  let r := { r with timer := r.timer.next }
  if r.timer.rings then r.settle .tick else (r, [])

/-- Some milliseconds pass. -/
def advance (r : ClockedRelay) : Nat → ClockedRelay × List Relay.Action
  | 0 => (r, [])
  | ms + 1 =>
    let (r', actions) := r.tick
    let (r'', more) := r'.advance ms
    (r'', actions ++ more)

end ClockedRelay

end FourInRow
