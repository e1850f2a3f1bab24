import FourInRow.Json.Skip

/-!
# The grammar of JSON

What the readers of JSON accept is told by a grammar here, without a reader.  Each relation holds
of a text, what is left of it, and sometimes what stands in between: `Blanks s t` says that the
text `s` begins with blanks and goes on with `t`, and so do the others.

Main result:

- Theorem `Derives.length_lt`: every value, element or member takes up some of the text.
-/

namespace FourInRow

namespace Json

/-! ## Blanks -/

/-- Blanks, or nothing at all. -/
inductive Blanks : List Char → List Char → Prop
  | none (t : List Char) : Blanks t t
  | more {c : Char} {s t : List Char} (hc : isBlank c) (h : Blanks s t) : Blanks (c :: s) t

/-! ## Numbers -/

/-- One digit or more. -/
structure Run (ds s t : List Char) : Prop where
  ne_nil : ds ≠ []
  isDigit : ds.all Char.isDigit
  eq : s = ds ++ t

/-- The digits before the point. -/
inductive Whole : List Char → List Char → List Char → Prop
  | zero (t : List Char) : Whole ['0'] ('0' :: t) t
  | run {ds s t : List Char} (h : Run ds s t) (hd : ds.head? ≠ some '0') : Whole ds s t

/-- A point and the digits after it, if there is a point. -/
inductive Fraction : List Char → List Char → List Char → Prop
  | none (t : List Char) : Fraction [] t t
  | point {ds s t : List Char} (h : Run ds s t) : Fraction ds ('.' :: s) t

/-- An exponent, if there is one. -/
inductive Exponent : Option (Bool × List Char) → List Char → List Char → Prop
  | none (t : List Char) : Exponent Option.none t t
  | unsigned {e : Char} {ds s t : List Char} (he : e = 'e' ∨ e = 'E') (h : Run ds s t) :
      Exponent (some (false, ds)) (e :: s) t
  | plus {e : Char} {ds s t : List Char} (he : e = 'e' ∨ e = 'E') (h : Run ds s t) :
      Exponent (some (false, ds)) (e :: '+' :: s) t
  | minus {e : Char} {ds s t : List Char} (he : e = 'e' ∨ e = 'E') (h : Run ds s t) :
      Exponent (some (true, ds)) (e :: '-' :: s) t

/-- A number without its sign. -/
def Unsigned (l : Literal) (s t : List Char) : Prop :=
  ∃ u v, Whole l.whole s u ∧ Fraction l.fraction u v ∧ Exponent l.exponent v t

/-- A number. -/
inductive Number : Literal → List Char → List Char → Prop
  | positive {l : Literal} {s t : List Char} (hl : l.negative = false) (h : Unsigned l s t) :
      Number l s t
  | negative {l : Literal} {s t : List Char} (hl : l.negative = true) (h : Unsigned l s t) :
      Number l ('-' :: s) t

/-- Can the text be what comes after a number, rather than more of it? -/
def Follows (t : List Char) : Prop :=
  ∀ c ∈ t.head?, c.isDigit = false ∧ c ≠ '.' ∧ c ≠ 'e' ∧ c ≠ 'E'

/-! ## Strings -/

/-- A character that may stand in a string as it is. -/
def IsPlain (c : Char) : Prop := c ≠ '"' ∧ c ≠ '\\' ∧ isControl c = false

instance : DecidablePred IsPlain := fun _ => inferInstanceAs (Decidable (_ ∧ _))

/-- The inside of a string and its closing quote. -/
inductive Inside : List Char → List Char → Prop
  | close (t : List Char) : Inside ('"' :: t) t
  | plain {c : Char} {s t : List Char} (hc : IsPlain c) (h : Inside s t) : Inside (c :: s) t
  | simple {c d : Char} {s t : List Char} (hc : simpleEscape? c = some d) (h : Inside s t) :
      Inside ('\\' :: c :: s) t
  | code {a b c d : Char} {n : Nat} {s t : List Char} (hn : hexValue? a b c d = some n)
      (h : Inside s t) : Inside ('\\' :: 'u' :: a :: b :: c :: d :: s) t

/-- The inside of a string that is text, and its closing quote.  Text is made of characters, so
half of a pair must not stand alone in it. -/
inductive Spells : List Char → List Char → List Char → Prop
  | close (t : List Char) : Spells [] ('"' :: t) t
  | plain {c : Char} {cs s t : List Char} (hc : IsPlain c) (h : Spells cs s t) :
      Spells (c :: cs) (c :: s) t
  | simple {c d : Char} {cs s t : List Char} (hc : simpleEscape? c = some d) (h : Spells cs s t) :
      Spells (d :: cs) ('\\' :: c :: s) t
  | code {a b c d : Char} {n : Nat} {cs s t : List Char} (hn : hexValue? a b c d = some n)
      (hl : isLeading n = false) (ht : isTrailing n = false) (h : Spells cs s t) :
      Spells (Char.ofNat n :: cs) ('\\' :: 'u' :: a :: b :: c :: d :: s) t
  | halves {a b c d a' b' c' d' : Char} {n n' : Nat} {cs s t : List Char}
      (hn : hexValue? a b c d = some n) (hl : isLeading n)
      (hn' : hexValue? a' b' c' d' = some n') (ht : isTrailing n') (h : Spells cs s t) :
      Spells (pair n n' :: cs)
        ('\\' :: 'u' :: a :: b :: c :: d :: '\\' :: 'u' :: a' :: b' :: c' :: d' :: s) t

/-- Text without anything that has to be escaped spells itself. -/
theorem Spells.of_plain (cs : List Char) {t : List Char} (h : cs.all fun c => IsPlain c) :
    Spells cs (cs ++ '"' :: t) t := by
  induction cs with
  | nil => exact .close t
  | cons c cs ih =>
      simp only [List.all_cons, Bool.and_eq_true, decide_eq_true_eq] at h
      exact .plain h.1 (ih h.2)

/-! ## Values -/

/-- The parts that a text is made of. -/
inductive Part
  | value
  /-- A value with blanks around it. -/
  | element
  /-- A key and its element. -/
  | member
  /-- One element or more, with commas in between. -/
  | elements
  /-- One member or more, with commas in between. -/
  | members

/-- The parts of a text, nested to any depth. -/
inductive Derives : Part → List Char → List Char → Prop
  | null (t : List Char) : Derives .value ('n' :: 'u' :: 'l' :: 'l' :: t) t
  | yes (t : List Char) : Derives .value ('t' :: 'r' :: 'u' :: 'e' :: t) t
  | no (t : List Char) : Derives .value ('f' :: 'a' :: 'l' :: 's' :: 'e' :: t) t
  | number {l : Literal} {s t : List Char} (h : Number l s t) : Derives .value s t
  | string {s t : List Char} (h : Inside s t) : Derives .value ('"' :: s) t
  | emptyList {s t : List Char} (h : Blanks s (']' :: t)) : Derives .value ('[' :: s) t
  | list {s t : List Char} (h : Derives .elements s (']' :: t)) : Derives .value ('[' :: s) t
  | emptyObject {s t : List Char} (h : Blanks s ('}' :: t)) : Derives .value ('{' :: s) t
  | object {s t : List Char} (h : Derives .members s ('}' :: t)) : Derives .value ('{' :: s) t
  | element {s t u v : List Char} (before : Blanks s u) (value : Derives .value u v)
      (after : Blanks v t) : Derives .element s t
  | member {s t u v w : List Char} (before : Blanks s ('"' :: u)) (key : Inside u v)
      (colon : Blanks v (':' :: w)) (element : Derives .element w t) : Derives .member s t
  | lastElement {s t : List Char} (h : Derives .element s t) : Derives .elements s t
  | moreElements {s t u : List Char} (h : Derives .element s (',' :: u))
      (more : Derives .elements u t) : Derives .elements s t
  | lastMember {s t : List Char} (h : Derives .member s t) : Derives .members s t
  | moreMembers {s t u : List Char} (h : Derives .member s (',' :: u))
      (more : Derives .members u t) : Derives .members s t

/-! ## What a part takes up -/

section

variable {ds cs s t : List Char}

theorem Blanks.length_le (h : Blanks s t) : t.length ≤ s.length := by
  induction h with
  | none => omega
  | more _ _ ih => simp; omega

theorem Run.length_lt (h : Run ds s t) : t.length < s.length := by
  have := List.length_pos_iff.2 h.ne_nil
  simp [h.eq]
  omega

theorem Whole.length_lt (h : Whole ds s t) : t.length < s.length := by
  cases h with
  | zero => simp
  | run h => exact h.length_lt

theorem Fraction.length_le (h : Fraction ds s t) : t.length ≤ s.length := by
  cases h with
  | none => omega
  | point h =>
      have := h.length_lt
      simp
      omega

theorem Exponent.length_le {e : Option (Bool × List Char)} (h : Exponent e s t) :
    t.length ≤ s.length := by
  cases h with
  | none => omega
  | unsigned _ h | plus _ h | minus _ h =>
      have := h.length_lt
      simp
      omega

theorem Number.length_lt {l : Literal} (h : Number l s t) : t.length < s.length := by
  have of_unsigned : ∀ {s : List Char}, Unsigned l s t → t.length < s.length := by
    rintro s ⟨u, v, hwhole, hfraction, hexponent⟩
    have := hwhole.length_lt
    have := hfraction.length_le
    have := hexponent.length_le
    omega
  cases h with
  | positive _ h => exact of_unsigned h
  | negative _ h =>
      have := of_unsigned h
      simp
      omega

theorem Inside.length_lt (h : Inside s t) : t.length < s.length := by
  induction h with
  | close => simp
  | plain | simple | code => simp; omega

theorem Spells.length_lt (h : Spells cs s t) : t.length < s.length := by
  induction h with
  | close => simp
  | plain | simple | code | halves => simp; omega

/-- Every value, element or member takes up some of the text. -/
theorem Derives.length_lt {part : Part} (h : Derives part s t) : t.length < s.length := by
  induction h with
  | null | yes | no => simp; omega
  | number h => exact h.length_lt
  | string h =>
      have := h.length_lt
      simp
      omega
  | emptyList h | emptyObject h =>
      have := h.length_le
      simp at *
      omega
  | list _ ih | object _ ih =>
      simp at *
      omega
  | element before _ after ih =>
      have := before.length_le
      have := after.length_le
      omega
  | member before key colon _ ih =>
      have := before.length_le
      have := key.length_lt
      have := colon.length_le
      simp at *
      omega
  | lastElement _ ih | lastMember _ ih => exact ih
  | moreElements _ _ ih ih' | moreMembers _ _ ih ih' =>
      simp at *
      omega

end

end Json

end FourInRow
