/-!
# Timers

Time passes in milliseconds.  A timer starts with its owner and rings at every multiple of its
period after that; one whose period is zero never rings.
-/

namespace FourInRow

/-- A timer: its period, and the time since it was started. -/
structure Timer where
  period : Nat
  elapsed : Nat
deriving DecidableEq, Repr

namespace Timer

/-- A timer that starts now. -/
def start (period : Nat) : Timer := ⟨period, 0⟩

/-- One millisecond later. -/
def next (t : Timer) : Timer := { t with elapsed := t.elapsed + 1 }

/-- Does the timer ring at this moment? -/
def rings (t : Timer) : Bool := t.period ≠ 0 && t.elapsed ≠ 0 && t.elapsed % t.period == 0

end Timer

end FourInRow
