import FourInRow.Digits

/-!
# IP addresses

An IP address has four bytes, or eight groups of 16 bits.  Four bytes are written as one to four
numbers parted by dots, where the last number fills all the bytes that the others leave, and every
number may be written in decimal, octal or hexadecimal digits.  Eight groups are written in
hexadecimal digits and parted by colons, where two colons in a row stand for the zeros that are
missing, and the last two groups may be written as four decimal bytes.
-/

namespace FourInRow

/-- An IP address. -/
inductive IpAddress
  /-- Four bytes, as one number. -/
  | v4 (bits : Nat)
  /-- Eight groups of 16 bits. -/
  | v6 (groups : List Nat)
deriving DecidableEq, Repr

namespace IpAddress

/-- The address by which a machine talks to itself. -/
def loopback : IpAddress := v4 0x7F000001

/-- Parts a text at every occurrence of a character. -/
def splitAt (c : Char) : List Char → List (List Char)
  | [] => [[]]
  | d :: s =>
    if d = c then [] :: splitAt c s
    else
      match splitAt c s with
      | [] => [[d]]
      | part :: parts => (d :: part) :: parts

/-! ## Four bytes -/

/-- A number: hexadecimal after a zero and an x, octal after a zero, and decimal otherwise. -/
def number? (s : List Char) : Option Nat :=
  match s with
  | '0' :: 'x' :: ds => Digits.inBase? 16 ds
  | '0' :: 'X' :: ds => Digits.inBase? 16 ds
  | '0' :: _ => Digits.inBase? 8 s
  | _ => Digits.inBase? 10 s

/-- Puts numbers together: the last one fills the given count of bytes that the others leave, and
every other one fills a byte. -/
def join? : Nat → List Nat → Option Nat
  | bytes, [n] => if n < 1 <<< (8 * bytes) then some n else none
  | bytes + 1, n :: ns =>
    if n < 256 then (join? bytes ns).map fun low => (n <<< (8 * bytes)) + low else none
  | _, _ => none

/-- One to four numbers parted by dots. -/
def v4? (s : List Char) : Option Nat := do
  let numbers ← (splitAt '.' s).mapM number?
  if numbers.length ≤ 4 then join? 4 numbers else none

/-! ## Eight groups -/

/-- A byte in decimal digits, without leading zeros. -/
def byte? (s : List Char) : Option Nat :=
  if 3 < s.length || (1 < s.length && s.head? = some '0') then none
  else (Digits.inBase? 10 s).filter fun n => n < 256

/-- Two groups, written as four bytes parted by dots. -/
def lastGroups? (s : List Char) : Option (List Nat) := do
  match ← (splitAt '.' s).mapM byte? with
  | [a, b, c, d] => some [256 * a + b, 256 * c + d]
  | _ => none

/-- A group of one to four hexadecimal digits. -/
def group? (s : List Char) : Option Nat := if 4 < s.length then none else Digits.inBase? 16 s

/-- The groups that parts of a text stand for.  Four bytes may stand for the last two groups where
nothing comes after them. -/
def groupsOf? (mayEndInBytes : Bool) : List (List Char) → Option (List Nat)
  | [] => some []
  | [part] =>
    if mayEndInBytes && part.contains '.' then lastGroups? part
    else (group? part).map fun g => [g]
  | part :: parts => do
    let g ← group? part
    let gs ← groupsOf? mayEndInBytes parts
    return g :: gs

/-- Groups parted by colons; none for an empty text. -/
def groups? (mayEndInBytes : Bool) (s : List Char) : Option (List Nat) :=
  if s.isEmpty then some [] else groupsOf? mayEndInBytes (splitAt ':' s)

/-- Parts a text at the first two colons in a row. -/
def splitGap : List Char → Option (List Char × List Char)
  | [] => none
  | ':' :: ':' :: s => some ([], s)
  | c :: s => (splitGap s).map fun p => (c :: p.1, p.2)

/-- Eight groups; two colons in a row stand for as many zeros as are missing, one at least. -/
def v6? (s : List Char) : Option (List Nat) :=
  match splitGap s with
  | none => (groups? true s).filter fun gs => gs.length = 8
  | some (before, after) => do
    let before ← groups? false before
    let after ← groups? true after
    if before.length + after.length < 8 then
      some (before ++ List.replicate (8 - before.length - after.length) 0 ++ after)
    else
      none

/-- Eight groups, after which a percent sign and a number may name a part of the network. -/
def scoped? (s : List Char) : Option (List Nat) :=
  match s.dropWhile (· ≠ '%') with
  | [] => v6? s
  | _ :: scope => do
    let groups ← v6? (s.takeWhile (· ≠ '%'))
    let n ← Digits.inBase? 10 scope
    if n < UInt32.size then some groups else none

/-! ## Use -/

/-- Do the groups stand for an address of four bytes? -/
def isMapped (groups : List Nat) : Bool := groups.take 6 = [0, 0, 0, 0, 0, 0xFFFF]

/-- Do the groups stand for all addresses of the machine? -/
def isUnspecified (groups : List Nat) : Bool := groups.all (· == 0)

/-- Can a server listen on the address?  Its machine is taken to own every address of four bytes
and none of eight groups. -/
def isUsable : IpAddress → Bool
  | v4 _ => true
  | v6 groups => isUnspecified groups || isMapped groups

end IpAddress

end FourInRow
