import FourInRow.Hall.Basic
import FourInRow.Timer

/-!
# The host

The host runs a hall: it carries out commands as they come and reviews the queue whenever its
timer rings.  When it is told to shut the hall it does so and goes home.  After that commands
are lost, and a connection that is made all the same is let go at once.

Component: `GameServer`, its loop over commands and queue updates.
-/

namespace FourInRow

/-- A hall, whether its host is on duty, and the timer for reviews of the queue. -/
structure Host where
  hall : Hall
  onDuty : Bool
  timer : Timer
deriving DecidableEq, Repr

namespace Host

/-- A host that begins its duty with an empty hall. -/
def start (settings : Settings) (draws : Draws) : Host :=
  ⟨Hall.new settings draws, true, Timer.start settings.queueInterval.toNat⟩

/-- Hands a command to the host. -/
def submit (h : Host) (c : Command) : Host × List Hall.Effect :=
  if h.onDuty then
    let (hall, effects) := h.hall.handle c
    ({ h with hall := hall, onDuty := c ≠ .shutDown }, effects)
  else
    match c with
    | .connect id => (h, [.release id])
    | _ => (h, [])

/-- The receiving end of a connection goes away. -/
def hangUp (h : Host) (id : ConnectionId) : Host := { h with hall := h.hall.hangUp id }

/-- One millisecond passes. -/
def tick (h : Host) : Host × List Hall.Effect :=
  let h := { h with timer := h.timer.next }
  if h.onDuty && h.timer.rings then
    let (hall, effects) := h.hall.reviewQueue
    ({ h with hall := hall }, effects)
  else
    (h, [])

/-- Some milliseconds pass. -/
def advance (h : Host) : Nat → Host × List Hall.Effect
  | 0 => (h, [])
  | ms + 1 =>
    let (h', effects) := h.tick
    let (h'', more) := h'.advance ms
    (h'', effects ++ more)

end Host

end FourInRow
