import FourInRow.Digits
import FourInRow.Json.Basic

/-!
# Numbers in JSON

A number is read as a literal first: a sign, digits, a fraction and an exponent.  What a literal
stands for matters only where it is a whole number that fits into 64 bits.  A literal that is too
large for a double-precision number is a fault of its own.  Its size is judged by the leading
digits that fit into 64 bits.
-/

namespace FourInRow

namespace Json

/-- A number as it is written. -/
structure Literal where
  /-- Is there a minus sign? -/
  negative : Bool
  /-- The digits before the point. -/
  whole : List Char
  /-- The digits after the point. -/
  fraction : List Char
  /-- The exponent: whether it has a minus sign, and its digits. -/
  exponent : Option (Bool × List Char)
deriving DecidableEq, Repr

namespace Literal

/-! ## Reading -/

/-- Reads one digit or more.  Where the text ends instead, the fault is the given one. -/
def digits (atEnd : Error) (s : List Char) : Except Error (List Char × List Char) :=
  match s with
  | [] => .error atEnd
  | c :: _ =>
    if c.isDigit then .ok (s.takeWhile Char.isDigit, s.dropWhile Char.isDigit)
    else .error .malformed

/-- Reads the digits before the point: a single zero, or digits that do not begin with one. -/
def wholePart (atEnd : Error) (s : List Char) : Except Error (List Char × List Char) :=
  match s with
  | '0' :: c :: r => if c.isDigit then .error .malformed else .ok (['0'], c :: r)
  | _ => digits atEnd s

/-- Reads a fraction, if there is one. -/
def fractionPart (atEnd : Error) (s : List Char) : Except Error (List Char × List Char) :=
  match s with
  | '.' :: r => digits atEnd r
  | _ => .ok ([], s)

/-- Reads an exponent, if there is one. -/
def exponentPart (atEnd : Error) (s : List Char) :
    Except Error (Option (Bool × List Char) × List Char) :=
  match s with
  | [] => .ok (none, [])
  | c :: r =>
    if c = 'e' ∨ c = 'E' then
      match r with
      | '-' :: r' => (digits atEnd r').map fun p => (some (true, p.1), p.2)
      | '+' :: r' => (digits atEnd r').map fun p => (some (false, p.1), p.2)
      | _ => (digits atEnd r).map fun p => (some (false, p.1), p.2)
    else
      .ok (none, s)

/-- Reads a number whose sign has been read. -/
def unsigned (atEnd : Error) (negative : Bool) (s : List Char) :
    Except Error (Literal × List Char) := do
  let (whole, s) ← wholePart atEnd s
  let (fraction, s) ← fractionPart atEnd s
  let (exponent, s) ← exponentPart atEnd s
  return (⟨negative, whole, fraction, exponent⟩, s)

/-- Reads a number.  Where the text ends instead of a digit that has to come, the fault is the
given one. -/
def read (atEnd : Error) (s : List Char) : Except Error (Literal × List Char) :=
  match s with
  | '-' :: r => unsigned atEnd true r
  | _ => unsigned atEnd false s

/-! ## Size -/

/-- The largest number of 64 bits. -/
def maxWord : Nat := UInt64.size - 1

/-- Appends digits to a number as long as it fits into 64 bits.  The second component is the
number of digits that did not. -/
def fit : Nat → List Char → Nat × Nat
  | n, [] => (n, 0)
  | n, d :: ds =>
    let n' := 10 * n + (d.toNat - '0'.toNat)
    if n' ≤ maxWord then fit n' ds else (n, ds.length + 1)

/-- The leading digits as a whole number, and the power of ten that it has to be multiplied by. -/
def scale (l : Literal) : Nat × Int :=
  let (n, left) := fit 0 l.whole
  let (n', left') := fit n l.fraction
  let power : Int := left - (l.fraction.length - left' : Nat)
  match l.exponent with
  | none => (n', power)
  | some (true, ds) => (n', power - Digits.decimal ds)
  | some (false, ds) => (n', power + Digits.decimal ds)

/-- A whole number rounded to 53 binary digits, a half to the even neighbour. -/
def roundToDouble (n : Nat) : Nat :=
  let unit := 1 <<< (n.log2 + 1 - 53)
  let q := n / unit
  let r := n % unit
  if unit < 2 * r ∨ (2 * r = unit ∧ q % 2 = 1) then (q + 1) * unit else q * unit

/-- The least whole number that is rounded to infinity. -/
def infinite : Nat := (1 <<< 1024) - (1 <<< 970)

/-- The largest power of ten below infinity. -/
def maxPower : Nat := 308

/-- Is the number too large for a double-precision number? -/
def isTooLarge (l : Literal) : Bool :=
  let (n, power) := l.scale
  n ≠ 0 && 0 ≤ power &&
    (maxPower < power ||
      infinite ≤ roundToDouble n * roundToDouble (Nat.pow 10 power.toNat))

/-- The whole number that the literal stands for, if it is written as one and fits into 64
bits. -/
def natural? (l : Literal) : Option Nat :=
  let n := Digits.decimal l.whole
  if !l.negative && l.fraction.isEmpty && l.exponent.isNone && n ≤ maxWord then some n else none

/-! ## What a reader leaves -/

theorem length_lt_of_digits {atEnd : Error} {s ds r : List Char}
    (h : digits atEnd s = .ok (ds, r)) : r.length < s.length := by
  cases s with
  | nil => simp [digits] at h
  | cons c s =>
    simp only [digits] at h
    split at h
    · rename_i hc
      obtain ⟨-, rfl⟩ := by simpa using h
      have := (List.dropWhile_sublist Char.isDigit (l := s)).length_le
      simp [hc]
      omega
    · simp at h

theorem length_lt_of_wholePart {atEnd : Error} {s ds r : List Char}
    (h : wholePart atEnd s = .ok (ds, r)) : r.length < s.length := by
  unfold wholePart at h
  split at h
  · split at h
    · simp at h
    · obtain ⟨-, rfl⟩ := by simpa using h
      simp
  · exact length_lt_of_digits h

theorem length_le_of_fractionPart {atEnd : Error} {s ds r : List Char}
    (h : fractionPart atEnd s = .ok (ds, r)) : r.length ≤ s.length := by
  unfold fractionPart at h
  split at h
  · exact Nat.le_succ_of_le (Nat.le_of_lt (length_lt_of_digits h))
  · obtain ⟨-, rfl⟩ := by simpa using h
    exact Nat.le_refl _

theorem length_le_of_exponentPart {atEnd : Error} {s r : List Char}
    {e : Option (Bool × List Char)} (h : exponentPart atEnd s = .ok (e, r)) :
    r.length ≤ s.length := by
  have step {t : List Char} {b : Bool}
      (ht : (digits atEnd t).map (fun p => (some (b, p.1), p.2)) = .ok (e, r)) :
      r.length < t.length := by
    cases hd : digits atEnd t with
    | error x => simp [hd, Except.map] at ht
    | ok p =>
      have := length_lt_of_digits (show digits atEnd t = .ok (p.1, p.2) from hd)
      obtain ⟨-, rfl⟩ := by simpa [hd, Except.map] using ht
      exact this
  unfold exponentPart at h
  split at h
  · obtain ⟨-, rfl⟩ := by simpa using h
    exact Nat.le_refl _
  · split at h
    · split at h <;>
      · have := step h
        simp at this ⊢
        omega
    · obtain ⟨-, rfl⟩ := by simpa using h
      exact Nat.le_refl _

theorem length_lt_of_unsigned {atEnd : Error} {b : Bool} {s r : List Char} {l : Literal}
    (h : unsigned atEnd b s = .ok (l, r)) : r.length < s.length := by
  unfold unsigned at h
  cases hw : wholePart atEnd s with
  | error e => simp [hw, bind, Except.bind] at h
  | ok w =>
    cases hf : fractionPart atEnd w.2 with
    | error e => simp [hw, hf, bind, Except.bind] at h
    | ok f =>
      cases he : exponentPart atEnd f.2 with
      | error e => simp [hw, hf, he, bind, Except.bind] at h
      | ok x =>
        have := length_lt_of_wholePart (show wholePart atEnd s = .ok (w.1, w.2) from hw)
        have := length_le_of_fractionPart (show fractionPart atEnd w.2 = .ok (f.1, f.2) from hf)
        have := length_le_of_exponentPart (show exponentPart atEnd f.2 = .ok (x.1, x.2) from he)
        obtain ⟨-, rfl⟩ := by simpa [hw, hf, he, bind, Except.bind, pure, Except.pure] using h
        omega

theorem length_lt_of_read {atEnd : Error} {s r : List Char} {l : Literal}
    (h : read atEnd s = .ok (l, r)) : r.length < s.length := by
  unfold read at h
  split at h
  · have := length_lt_of_unsigned h
    simp
    omega
  · exact length_lt_of_unsigned h

end Literal

end Json

end FourInRow
