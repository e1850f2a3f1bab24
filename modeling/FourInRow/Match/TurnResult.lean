/-!
# Outcomes of a turn

The outcome of a turn and the byte that stands for it in a record.

Component: `TurnResult`.
-/

namespace FourInRow

/-- What becomes of an attempt to take a turn. -/
inductive TurnResult
  /-- No match is running, or it failed. -/
  | error
  /-- The piece landed. -/
  | success
  /-- It is another player's turn. -/
  | wrongPlayer
  /-- There is no such column. -/
  | badColumn
  /-- The column has no room left. -/
  | columnFull
  /-- The match has a winner already. -/
  | gameFinished
deriving DecidableEq, Repr

namespace TurnResult

/-- The byte that stands for an outcome. -/
def code : TurnResult → UInt8
  | error => 0
  | success => 1
  | wrongPlayer => 2
  | badColumn => 3
  | columnFull => 4
  | gameFinished => 5

/-- The outcome that a byte stands for. -/
def ofCode? : UInt8 → Option TurnResult
  | 0 => some error
  | 1 => some success
  | 2 => some wrongPlayer
  | 3 => some badColumn
  | 4 => some columnFull
  | 5 => some gameFinished
  | _ => none

@[simp] theorem ofCode?_code (r : TurnResult) : ofCode? r.code = some r := by
  cases r <;> rfl

end TurnResult

end FourInRow
