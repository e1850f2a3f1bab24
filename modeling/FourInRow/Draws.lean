/-!
# Random choices

Chance enters through a list of numbers drawn beforehand.  Each choice uses up one number,
reduced to the count of the things to choose from; when the numbers have run out, the first
thing is chosen.
-/

namespace FourInRow

/-- The numbers that have been drawn and not used yet. -/
abbrev Draws := List Nat

namespace Draws

/-- Chooses one of `n` things, counted from 0. -/
def choose (n : Nat) : Draws → Nat × Draws
  | [] => (0, [])
  | k :: rest => (k % n, rest)

theorem choose_lt {n : Nat} (hn : 0 < n) (d : Draws) : (choose n d).1 < n := by
  cases d with
  | nil => exact hn
  | cons k rest => exact Nat.mod_lt k hn

end Draws

end FourInRow
