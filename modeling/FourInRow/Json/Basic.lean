/-!
# Reading JSON

A JSON text is read from left to right, and its first fault decides what is wrong with it: the
text ends too early, it breaks the grammar, or it says something else than what is asked for.
Every reader takes the characters that are left and gives back those that are left after it.
-/

namespace FourInRow

namespace Json

/-- What is wrong with a text. -/
inductive Error
  /-- The text ends too early. -/
  | truncated
  /-- The text breaks the grammar, or names a number beyond all bounds. -/
  | malformed
  /-- The text is in order so far, but not what is asked for. -/
  | mismatched
deriving DecidableEq, Repr

/-- Is the character one of the four blanks? -/
def isBlank (c : Char) : Bool := c = ' ' || c = '\n' || c = '\t' || c = '\r'

/-- Skips blanks. -/
def skipBlanks (s : List Char) : List Char := s.dropWhile isBlank

theorem length_skipBlanks_le (s : List Char) : (skipBlanks s).length ≤ s.length :=
  (List.dropWhile_sublist _).length_le

theorem length_le_of_skipBlanks {s t : List Char} (h : skipBlanks s = t) :
    t.length ≤ s.length :=
  h ▸ length_skipBlanks_le s

theorem length_lt_of_skipBlanks {s r : List Char} {c : Char} (h : skipBlanks s = c :: r) :
    r.length < s.length :=
  length_le_of_skipBlanks h

/-- Reads the rest of a word. -/
def word : List Char → List Char → Except Error (List Char)
  | [], s => .ok s
  | _ :: _, [] => .error .truncated
  | c :: w, d :: s => if c = d then word w s else .error .malformed

theorem length_le_of_word {w s r : List Char} (h : word w s = .ok r) : r.length ≤ s.length := by
  induction w generalizing s with
  | nil => simp_all [word]
  | cons c w ih =>
    cases s with
    | nil => simp [word] at h
    | cons d s =>
      simp only [word] at h
      split at h
      · exact Nat.le_succ_of_le (ih h)
      · simp at h

end Json

end FourInRow
