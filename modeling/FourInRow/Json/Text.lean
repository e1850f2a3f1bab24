import FourInRow.Digits
import FourInRow.Json.Basic

/-!
# Strings in JSON

A string that is used is decoded: escapes stand for characters, and two escapes in a row may stand
for one character beyond the first 65536.  A string that is skipped is only held to the grammar,
so half of such a pair may stand alone in it.
-/

namespace FourInRow

namespace Json

/-- The number of bytes of the characters in UTF-8. -/
def utf8Length (s : List Char) : Nat := s.foldl (fun n c => n + c.utf8Size) 0

/-- The value of four hexadecimal digits. -/
def hexValue? (a b c d : Char) : Option Nat := do
  let a ← Digits.hex? a
  let b ← Digits.hex? b
  let c ← Digits.hex? c
  let d ← Digits.hex? d
  return ((a * 16 + b) * 16 + c) * 16 + d

/-- Reads four hexadecimal digits.  A text with less than four bytes left ends too early, whatever
they are. -/
def hex (s : List Char) : Except Error (Nat × List Char) :=
  match s with
  | a :: b :: c :: d :: r =>
    match hexValue? a b c d with
    | some n => .ok (n, r)
    | none => .error .malformed
  | _ => .error (if utf8Length s < 4 then .truncated else .malformed)

/-- The character that a backslash and one more character stand for. -/
def simpleEscape? : Char → Option Char
  | '"' => some '"'
  | '\\' => some '\\'
  | '/' => some '/'
  | 'b' => some '\x08'
  | 'f' => some '\x0c'
  | 'n' => some '\n'
  | 'r' => some '\r'
  | 't' => some '\t'
  | _ => none

/-- Is the number the first half of a pair? -/
def isLeading (n : Nat) : Bool := 0xD800 ≤ n && n ≤ 0xDBFF

/-- Is the number the second half of a pair? -/
def isTrailing (n : Nat) : Bool := 0xDC00 ≤ n && n ≤ 0xDFFF

/-- The character that the two halves of a pair stand for. -/
def pair (leading trailing : Nat) : Char :=
  Char.ofNat ((leading - 0xD800) * 0x400 + (trailing - 0xDC00) + 0x10000)

/-- Reads what follows the first half of a pair: the escape that is its second half. -/
def secondHalf (leading : Nat) (s : List Char) : Except Error (Char × List Char) :=
  match s with
  | [] => .error .truncated
  | '\\' :: [] => .error .truncated
  | '\\' :: 'u' :: r =>
    match hex r with
    | .error e => .error e
    | .ok (n, r') => if isTrailing n then .ok (pair leading n, r') else .error .malformed
  | _ => .error .malformed

/-- Reads an escape whose backslash has been read. -/
def escape (s : List Char) : Except Error (Char × List Char) :=
  match s with
  | [] => .error .truncated
  | 'u' :: r =>
    match hex r with
    | .error e => .error e
    | .ok (n, r') =>
      if isTrailing n then .error .malformed
      else if isLeading n then secondHalf n r'
      else .ok (Char.ofNat n, r')
  | c :: r =>
    match simpleEscape? c with
    | some d => .ok (d, r)
    | none => .error .malformed

/-- Skips an escape whose backslash has been read. -/
def skipEscape (s : List Char) : Except Error (List Char) :=
  match s with
  | [] => .error .truncated
  | 'u' :: r => (hex r).map fun p => p.2
  | c :: r => if (simpleEscape? c).isSome then .ok r else .error .malformed

/-- Is the character one that must not stand in a string as it is? -/
def isControl (c : Char) : Bool := c.toNat < 0x20

theorem length_lt_of_hex {s r : List Char} {n : Nat} (h : hex s = .ok (n, r)) :
    r.length < s.length := by
  unfold hex at h
  split at h
  · split at h
    · obtain ⟨-, rfl⟩ := by simpa using h
      simp
      omega
    · simp at h
  · simp at h

theorem length_lt_of_secondHalf {leading : Nat} {s r : List Char} {c : Char}
    (h : secondHalf leading s = .ok (c, r)) : r.length < s.length := by
  unfold secondHalf at h
  split at h <;> try simp at h
  split at h
  · simp at h
  · rename_i hx
    have := length_lt_of_hex hx
    split at h
    · obtain ⟨-, rfl⟩ := by simpa using h
      simp
      omega
    · simp at h

theorem length_lt_of_escape {s r : List Char} {c : Char} (h : escape s = .ok (c, r)) :
    r.length < s.length := by
  unfold escape at h
  split at h
  · simp at h
  · split at h
    · simp at h
    · rename_i hx
      have := length_lt_of_hex hx
      split at h
      · simp at h
      · split at h
        · have := length_lt_of_secondHalf h
          simp
          omega
        · obtain ⟨-, rfl⟩ := by simpa using h
          simp
          omega
  · split at h
    · obtain ⟨-, rfl⟩ := by simpa using h
      simp
    · simp at h

theorem length_lt_of_skipEscape {s r : List Char} (h : skipEscape s = .ok r) :
    r.length < s.length := by
  unfold skipEscape at h
  split at h
  · simp at h
  · rename_i u
    cases hx : hex u with
    | error e => simp [hx, Except.map] at h
    | ok p =>
      have := length_lt_of_hex (show hex u = .ok (p.1, p.2) from hx)
      simp [hx, Except.map] at h
      subst h
      simp
      omega
  · split at h
    · obtain rfl := by simpa using h
      simp
    · simp at h

/-- Reads a string whose opening quote has been read. -/
def string (s : List Char) : Except Error (List Char × List Char) :=
  match s with
  | [] => .error .truncated
  | '"' :: r => .ok ([], r)
  | '\\' :: r =>
    match _ : escape r with
    | .error e => .error e
    | .ok (c, r') => (string r').map fun p => (c :: p.1, p.2)
  | c :: r =>
    if isControl c then .error .malformed
    else (string r).map fun p => (c :: p.1, p.2)
termination_by s.length
decreasing_by
  · have := length_lt_of_escape ‹_›
    simp
    omega
  · simp

/-- Skips a string whose opening quote has been read. -/
def skipString (s : List Char) : Except Error (List Char) :=
  match s with
  | [] => .error .truncated
  | '"' :: r => .ok r
  | '\\' :: r =>
    match _ : skipEscape r with
    | .error e => .error e
    | .ok r' => skipString r'
  | c :: r => if isControl c then .error .malformed else skipString r
termination_by s.length
decreasing_by
  · have := length_lt_of_skipEscape ‹_›
    simp
    omega
  · simp

theorem length_lt_of_skipString {s r : List Char} (h : skipString s = .ok r) :
    r.length < s.length := by
  fun_induction skipString s with
  | case1 => simp at h
  | case2 r' =>
    obtain rfl := by simpa using h
    simp
  | case3 => simp at h
  | case4 u v hv ih =>
    have := length_lt_of_skipEscape hv
    have := ih h
    simp
    omega
  | case5 => simp at h
  | case6 c u _ _ _ ih =>
    have := ih h
    simp
    omega

end Json

end FourInRow
