import FourInRow.Json.Number
import FourInRow.Json.Text

/-!
# Skipping values in JSON

A value that nobody asks for is held to the grammar and thrown away.  Lists and objects that are
open at some point are kept on a stack, so that they may be nested to any depth.  A number that
ends with the text where a digit has to come breaks the grammar here.
-/

namespace FourInRow

namespace Json

/-- The values that hold others. -/
inductive Frame
  | list
  | object
deriving DecidableEq, Repr

/-- The character that ends a list or an object. -/
def Frame.closer : Frame → Char
  | list => ']'
  | object => '}'

/-- What has to come next. -/
inductive Awaited
  /-- A value. -/
  | value
  /-- The key of a member, and its value. -/
  | member
  /-- Another member or element, or the end of the innermost list or object. -/
  | rest
deriving DecidableEq, Repr

/-- Skips a value that holds no others. -/
def skipScalar (s : List Char) : Except Error (List Char) :=
  match s with
  | [] => .error .truncated
  | c :: r =>
    if c = '"' then skipString r
    else if c = 'n' then word ['u', 'l', 'l'] r
    else if c = 't' then word ['r', 'u', 'e'] r
    else if c = 'f' then word ['a', 'l', 's', 'e'] r
    else if c = '-' ∨ c.isDigit then (Literal.read .malformed s).map fun p => p.2
    else .error .malformed

/-- Skips the key of a member and the colon after it. -/
def skipKey (s : List Char) : Except Error (List Char) :=
  match s with
  | [] => .error .truncated
  | c :: r =>
    if c = '"' then
      match skipString r with
      | .error e => .error e
      | .ok r' =>
        match skipBlanks r' with
        | [] => .error .truncated
        | d :: r'' => if d = ':' then .ok r'' else .error .malformed
    else
      .error .malformed

theorem length_lt_of_skipScalar {s r : List Char} (h : skipScalar s = .ok r) :
    r.length < s.length := by
  unfold skipScalar at h
  split at h
  · simp at h
  · have le_word {w t : List Char} (hw : word w t = .ok r) : r.length < t.length + 1 :=
      Nat.lt_succ_of_le (length_le_of_word hw)
    repeat' split at h
    · have := length_lt_of_skipString h
      simp
      omega
    · exact le_word h
    · exact le_word h
    · exact le_word h
    · rename_i c t _ _ _ _ _
      cases hl : Literal.read .malformed (c :: t) with
      | error e => simp [hl, Except.map] at h
      | ok p =>
        have := Literal.length_lt_of_read
          (show Literal.read .malformed (c :: t) = .ok (p.1, p.2) from hl)
        obtain rfl := by simpa [hl, Except.map] using h
        exact this
    · simp at h

theorem length_lt_of_skipKey {s r : List Char} (h : skipKey s = .ok r) :
    r.length < s.length := by
  unfold skipKey at h
  split at h
  · simp at h
  · split at h
    · split at h
      · simp at h
      · rename_i u hu
        have h1 := length_lt_of_skipString hu
        have h2 := length_skipBlanks_le u
        split at h
        · simp at h
        · rename_i hb
          split at h
          · obtain rfl := by simpa using h
            rw [hb] at h2
            simp at h2 ⊢
            omega
          · simp at h
    · simp at h

/-- Skips what is awaited, and all that follows up to the end of the outermost value. -/
def skip (awaited : Awaited) (stack : List Frame) (s : List Char) : Except Error (List Char) :=
  match awaited with
  | .value =>
    match _ : skipBlanks s with
    | [] => .error .truncated
    | '[' :: r =>
      match _ : skipBlanks r with
      | [] => .error .truncated
      | ']' :: r' => skip .rest stack r'
      | c :: r' => skip .value (.list :: stack) (c :: r')
    | '{' :: r =>
      match _ : skipBlanks r with
      | [] => .error .truncated
      | '}' :: r' => skip .rest stack r'
      | c :: r' => skip .member (.object :: stack) (c :: r')
    | c :: r =>
      match _ : skipScalar (c :: r) with
      | .error e => .error e
      | .ok r' => skip .rest stack r'
  | .member =>
    match _ : skipKey (skipBlanks s) with
    | .error e => .error e
    | .ok r => skip .value stack r
  | .rest =>
    match stack with
    | [] => .ok s
    | frame :: outer =>
      match _ : skipBlanks s with
      | [] => .error .truncated
      | c :: r =>
        if c = ',' then
          match frame with
          | .list => skip .value stack r
          | .object => skip .member stack r
        else if c = frame.closer then skip .rest outer r
        else .error .malformed
termination_by s.length
decreasing_by
  · exact Nat.lt_trans (length_lt_of_skipBlanks ‹_›) (length_lt_of_skipBlanks ‹_›)
  · exact Nat.lt_of_le_of_lt (length_le_of_skipBlanks ‹_›) (length_lt_of_skipBlanks ‹_›)
  · exact Nat.lt_trans (length_lt_of_skipBlanks ‹_›) (length_lt_of_skipBlanks ‹_›)
  · exact Nat.lt_of_le_of_lt (length_le_of_skipBlanks ‹_›) (length_lt_of_skipBlanks ‹_›)
  · exact Nat.lt_of_lt_of_le (length_lt_of_skipScalar ‹_›) (length_le_of_skipBlanks ‹_›)
  · exact Nat.lt_of_lt_of_le (length_lt_of_skipKey ‹_›) (length_skipBlanks_le s)
  · exact length_lt_of_skipBlanks ‹_›
  · exact length_lt_of_skipBlanks ‹_›
  · exact length_lt_of_skipBlanks ‹_›

/-- Skips a value, nested to any depth. -/
def skipValue (s : List Char) : Except Error (List Char) := skip .value [] s

end Json

end FourInRow
