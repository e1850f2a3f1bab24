import FourInRow.Digits

/-!
# Numbers in arguments

A number is written with decimal digits, of which there may be any number of leading zeros, and
may have a sign.  A plus sign is always allowed; a minus sign only where numbers below zero are
thought of, even if they are out of range.
-/

namespace FourInRow

namespace CommandLine

/-- The number that decimal digits stand for; there has to be one at least. -/
def digits? (s : List Char) : Option Nat :=
  if s.isEmpty || !s.all Char.isDigit then none
  else some (Digits.decimal s)

/-- A number without a minus sign. -/
def natural? (s : List Char) : Option Nat :=
  match s with
  | '+' :: ds => digits? ds
  | _ => digits? s

/-- A number that may have a minus sign. -/
def integer? (s : List Char) : Option Int :=
  match s with
  | '-' :: ds => (digits? ds).map fun n => -(n : Int)
  | _ => (natural? s).map Int.ofNat

/-- A number without a minus sign below a bound. -/
def naturalBelow? (bound : Nat) (s : String) : Option Nat :=
  (natural? s.toList).filter fun n => n < bound

/-- A number below a bound and not below zero, where zero may have a minus sign. -/
def integerBelow? (bound : Nat) (s : String) : Option Nat :=
  match integer? s.toList with
  | some (Int.ofNat n) => if n < bound then some n else none
  | _ => none

end CommandLine

end FourInRow
