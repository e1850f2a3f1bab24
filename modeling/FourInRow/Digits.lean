/-!
# Digits

What decimal and hexadecimal digits stand for.
-/

namespace FourInRow

namespace Digits

/-- The number that decimal digits stand for, the highest one first. -/
def decimal (ds : List Char) : Nat := ds.foldl (fun n d => 10 * n + (d.toNat - '0'.toNat)) 0

/-- The value of a hexadecimal digit. -/
def hex? (c : Char) : Option Nat :=
  if '0' ≤ c ∧ c ≤ '9' then some (c.toNat - '0'.toNat)
  else if 'a' ≤ c ∧ c ≤ 'f' then some (c.toNat - 'a'.toNat + 10)
  else if 'A' ≤ c ∧ c ≤ 'F' then some (c.toNat - 'A'.toNat + 10)
  else none

/-- The number that digits of a base up to 16 stand for; there has to be one at least. -/
def inBase? (base : Nat) (s : List Char) : Option Nat :=
  if s.isEmpty then none
  else do
    let ds ← s.mapM hex?
    if ds.all (· < base) then some (ds.foldl (fun n d => base * n + d) 0) else none

end Digits

end FourInRow
