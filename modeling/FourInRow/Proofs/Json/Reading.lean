import FourInRow.Proofs.Json.Grammar

/-!
# Reading what the grammar derives

The readers accept every text of the grammar, and leave what the grammar leaves.  Blanks make no
difference to them.  A number is read as far as it goes, so what comes after it must not look like
more of it.

Main results:

- Theorem `Number.read_eq`: a number is read as the grammar has it.
- Theorem `Spells.string_eq`: a string that is text is read as this text.
- Theorem `Derives.skipValue_eq`: every value is skipped, nested to any depth.
-/

namespace FourInRow

namespace Json

/-! ## Blanks -/

section

variable {c : Char} {s t : List Char}

theorem skipBlanks_cons (hc : isBlank c = false) : skipBlanks (c :: s) = c :: s := by
  simp [skipBlanks, hc]

/-- Blanks make no difference. -/
theorem Blanks.skipBlanks_eq (h : Blanks s t) : skipBlanks s = skipBlanks t := by
  induction h with
  | none => rfl
  | more hc _ ih => simpa [skipBlanks, hc] using ih

theorem Blanks.skipBlanks_eq_cons (h : Blanks s (c :: t)) (hc : isBlank c = false) :
    skipBlanks s = c :: t := by
  rw [h.skipBlanks_eq, skipBlanks_cons hc]

theorem Blanks.of_skipBlanks (s : List Char) : Blanks s (skipBlanks s) := by
  induction s with
  | nil => exact .none []
  | cons c s ih =>
      by_cases hc : isBlank c
      · simpa [skipBlanks, hc] using Blanks.more hc ih
      · rw [skipBlanks_cons (by simpa using hc)]
        exact .none _

theorem Follows.of_cons (hc : c.isDigit = false) (hpoint : c ≠ '.') (he : c ≠ 'e')
    (hE : c ≠ 'E') : Follows (c :: t) := by
  simp [Follows, hc, hpoint, he, hE]

theorem follows_comma : Follows (',' :: t) := by
  apply Follows.of_cons <;> decide

theorem follows_closer (frame : Frame) : Follows (frame.closer :: t) := by
  cases frame <;> apply Follows.of_cons <;> decide

/-- Blanks are not part of a number. -/
theorem Blanks.follows (h : Blanks s t) (ht : Follows t) : Follows s := by
  cases h with
  | none => exact ht
  | more hc _ =>
      simp only [isBlank, Bool.or_eq_true, decide_eq_true_eq] at hc
      rcases hc with ((rfl | rfl) | rfl) | rfl <;> apply Follows.of_cons <;> decide

end

/-! ## Numbers -/

section

variable {c d : Char}

theorem ne_of_head (hc : c = '-' ∨ c.isDigit) (hminus : d ≠ '-') (hdigit : d.isDigit = false) :
    c ≠ d := by
  rintro rfl
  simp [hminus, hdigit] at hc

theorem isBlank_of_head (hc : c = '-' ∨ c.isDigit) : isBlank c = false := by
  have hne : ∀ d : Char, d ≠ '-' → d.isDigit = false → c ≠ d := fun _ => ne_of_head hc
  simp [isBlank, hne]

end

section

variable {ds s t : List Char} {atEnd : Error}

/-- A run of digits is read to its end. -/
theorem Run.digits_eq (h : Run ds s t) (ht : ∀ c ∈ t.head?, c.isDigit = false) :
    Literal.digits atEnd s = .ok (ds, t) := by
  have hrest : t.takeWhile Char.isDigit = [] ∧ t.dropWhile Char.isDigit = t := by
    cases t with
    | nil => simp
    | cons c t => simp [ht c rfl]
  obtain ⟨hne, hdigits, rfl⟩ := h
  rw [List.all_eq_true] at hdigits
  cases ds with
  | nil => contradiction
  | cons d ds =>
      rw [List.cons_append, Literal.digits, if_pos (hdigits d List.mem_cons_self),
        ← List.cons_append, List.takeWhile_append_of_pos hdigits,
        List.dropWhile_append_of_pos hdigits, hrest.1, hrest.2, List.append_nil]

theorem Run.head_isDigit (h : Run ds s t) : ∃ c r, s = c :: r ∧ c.isDigit ∧ ds.head? = some c := by
  obtain ⟨hne, hdigits, rfl⟩ := h
  rw [List.all_eq_true] at hdigits
  cases ds with
  | nil => contradiction
  | cons d ds => exact ⟨d, ds ++ t, rfl, hdigits d List.mem_cons_self, rfl⟩

theorem Whole.head_isDigit (h : Whole ds s t) : ∃ c r, s = c :: r ∧ c.isDigit := by
  cases h with
  | zero => exact ⟨'0', t, rfl, by decide⟩
  | run h =>
      obtain ⟨c, r, hs, hc, -⟩ := h.head_isDigit
      exact ⟨c, r, hs, hc⟩

theorem Whole.wholePart_eq (h : Whole ds s t) (ht : ∀ c ∈ t.head?, c.isDigit = false) :
    Literal.wholePart atEnd s = .ok (ds, t) := by
  cases h with
  | zero =>
      cases t with
      | nil => rfl
      | cons c t => simp [Literal.wholePart, ht c rfl]
  | run h hd =>
      obtain ⟨c, r, rfl, -, hc⟩ := h.head_isDigit
      have hne : c ≠ '0' := fun h0 => hd (by rw [hc, h0])
      rw [Literal.wholePart.eq_2 atEnd _ fun _ _ heq => hne (by simp_all)]
      exact h.digits_eq ht

theorem Fraction.fractionPart_eq (h : Fraction ds s t)
    (ht : ∀ c ∈ t.head?, c.isDigit = false ∧ c ≠ '.') :
    Literal.fractionPart atEnd s = .ok (ds, t) := by
  cases h with
  | none =>
      apply Literal.fractionPart.eq_2
      rintro r rfl
      exact (ht '.' rfl).2 rfl
  | point h => exact h.digits_eq fun c hc => (ht c hc).1

theorem Exponent.exponentPart_eq {e : Option (Bool × List Char)} (h : Exponent e s t)
    (ht : Follows t) : Literal.exponentPart atEnd s = .ok (e, t) := by
  have hdigit : ∀ c ∈ t.head?, c.isDigit = false := fun c hc => (ht c hc).1
  cases h with
  | none =>
      cases s with
      | nil => rfl
      | cons c s => simp [Literal.exponentPart, ht c rfl]
  | unsigned he h =>
      obtain ⟨c, r, rfl, hc, -⟩ := h.head_isDigit
      have hminus : c ≠ '-' := by rintro rfl; simp at hc
      have hplus : c ≠ '+' := by rintro rfl; simp at hc
      simp [Literal.exponentPart, he, hminus, hplus, h.digits_eq hdigit, Except.map]
  | plus he h => simp [Literal.exponentPart, he, h.digits_eq hdigit, Except.map]
  | minus he h => simp [Literal.exponentPart, he, h.digits_eq hdigit, Except.map]

/-- After the digits before the point comes no other digit. -/
theorem Fraction.head_not_digit (h : Fraction ds s t) (ht : ∀ c ∈ t.head?, c.isDigit = false) :
    ∀ c ∈ s.head?, c.isDigit = false := by
  cases h with
  | none => exact ht
  | point => simp

/-- After a fraction comes neither a digit nor another point. -/
theorem Exponent.head_not_digit {e : Option (Bool × List Char)} (h : Exponent e s t)
    (ht : Follows t) : ∀ c ∈ s.head?, c.isDigit = false ∧ c ≠ '.' := by
  cases h with
  | none => exact fun c hc => ⟨(ht c hc).1, (ht c hc).2.1⟩
  | unsigned he | plus he | minus he => rcases he with rfl | rfl <;> simp

theorem Unsigned.unsigned_eq {l : Literal} (h : Unsigned l s t) (ht : Follows t) :
    Literal.unsigned atEnd l.negative s = .ok (l, t) := by
  obtain ⟨u, v, hwhole, hfraction, hexponent⟩ := h
  have hv := hexponent.head_not_digit ht
  have hu := hfraction.head_not_digit fun c hc => (hv c hc).1
  simp [Literal.unsigned, hwhole.wholePart_eq hu, hfraction.fractionPart_eq hv,
    hexponent.exponentPart_eq ht, bind, Except.bind, pure, Except.pure]

theorem Unsigned.head_isDigit {l : Literal} (h : Unsigned l s t) :
    ∃ c r, s = c :: r ∧ c.isDigit := by
  obtain ⟨u, v, hwhole, -, -⟩ := h
  exact hwhole.head_isDigit

/-- A number is read as the grammar has it. -/
theorem Number.read_eq {l : Literal} (h : Number l s t) (ht : Follows t) :
    Literal.read atEnd s = .ok (l, t) := by
  cases h with
  | positive hl h =>
      obtain ⟨c, r, rfl, hc⟩ := h.head_isDigit
      have hminus : c ≠ '-' := by rintro rfl; simp at hc
      rw [Literal.read.eq_2 atEnd _ fun _ heq => hminus (by simp_all), ← hl]
      exact h.unsigned_eq ht
  | negative hl h =>
      rw [Literal.read, ← hl]
      exact h.unsigned_eq ht

/-- A number begins with a digit or with its sign. -/
theorem Number.head {l : Literal} (h : Number l s t) :
    ∃ c r, s = c :: r ∧ (c = '-' ∨ c.isDigit) := by
  cases h with
  | positive _ h =>
      obtain ⟨c, r, hs, hc⟩ := h.head_isDigit
      exact ⟨c, r, hs, .inr hc⟩
  | negative => exact ⟨_, _, rfl, .inl rfl⟩

end

/-! ## Strings -/

section

variable {cs s t : List Char}

theorem hex_eq {a b c d : Char} {n : Nat} (hn : hexValue? a b c d = some n) :
    hex (a :: b :: c :: d :: s) = .ok (n, s) := by
  simp [hex, hn]

theorem not_isTrailing_of_isLeading {n : Nat} (h : isLeading n) : isTrailing n = false := by
  simp [isLeading, isTrailing] at *
  omega

theorem ne_u_of_simpleEscape? {c d : Char} (hc : simpleEscape? c = some d) : c ≠ 'u' := by
  rintro rfl
  simp [simpleEscape?] at hc

theorem skipString_escape (h : skipEscape s = .ok t) : skipString ('\\' :: s) = skipString t := by
  rw [skipString]
  split <;> simp_all

theorem string_escape {c : Char} (h : escape s = .ok (c, t)) :
    string ('\\' :: s) = (string t).map fun p => (c :: p.1, p.2) := by
  rw [string]
  split <;> simp_all

/-- The inside of a string is skipped to its closing quote. -/
theorem Inside.skipString_eq (h : Inside s t) : skipString s = .ok t := by
  induction h with
  | close => simp [skipString]
  | plain hc _ ih => simp [skipString, hc.1, hc.2.1, hc.2.2, ih]
  | @simple c d s _ hc _ ih =>
      have hescape : skipEscape (c :: s) = .ok s := by
        rw [skipEscape.eq_3 _ _ (ne_u_of_simpleEscape? hc), hc]
        rfl
      rw [skipString_escape hescape, ih]
  | @code a b c d _ s _ hn _ ih =>
      have hescape : skipEscape ('u' :: a :: b :: c :: d :: s) = .ok s := by
        simp [skipEscape, hex_eq hn, Except.map]
      rw [skipString_escape hescape, ih]

/-- A string that is text is read as this text. -/
theorem Spells.string_eq (h : Spells cs s t) : string s = .ok (cs, t) := by
  induction h with
  | close => simp [string]
  | plain hc _ ih => simp [string, hc.1, hc.2.1, hc.2.2, ih, Except.map]
  | @simple c d _ s _ hc _ ih =>
      have hescape : escape (c :: s) = .ok (d, s) := by
        rw [escape.eq_3 _ _ (ne_u_of_simpleEscape? hc), hc]
      rw [string_escape hescape, ih, Except.map]
  | @code a b c d n _ s _ hn hl ht _ ih =>
      have hescape : escape ('u' :: a :: b :: c :: d :: s) = .ok (Char.ofNat n, s) := by
        simp [escape, hex_eq hn, hl, ht]
      rw [string_escape hescape, ih, Except.map]
  | @halves a b c d a' b' c' d' n n' _ s _ hn hl hn' ht' _ ih =>
      have ht : isTrailing n = false := not_isTrailing_of_isLeading hl
      have hescape :
          escape ('u' :: a :: b :: c :: d :: '\\' :: 'u' :: a' :: b' :: c' :: d' :: s) =
            .ok (pair n n', s) := by
        simp [escape, secondHalf, hex_eq hn, hl, ht, hex_eq hn', ht']
      rw [string_escape hescape, ih, Except.map]

end

/-! ## One step of skipping -/

section

variable {c : Char} {r s t : List Char} {frame : Frame} {stack : List Frame}

theorem skip_value_congr (h : skipBlanks s = skipBlanks t) :
    skip .value stack s = skip .value stack t := by
  rw [skip, skip, h]

theorem skip_member_congr (h : skipBlanks s = skipBlanks t) :
    skip .member stack s = skip .member stack t := by
  rw [skip, skip, h]

theorem skip_rest_congr (h : skipBlanks s = skipBlanks t) :
    skip .rest (frame :: stack) s = skip .rest (frame :: stack) t := by
  rw [skip, skip, h]

theorem skip_scalar (hs : skipBlanks s = c :: r) (hlist : c ≠ '[') (hobject : c ≠ '{')
    (h : skipScalar (c :: r) = .ok t) : skip .value stack s = skip .rest stack t := by
  rw [skip, hs]
  split <;> simp_all
  split <;> simp_all

theorem skip_emptyList (hs : skipBlanks s = '[' :: r) (h : skipBlanks r = ']' :: t) :
    skip .value stack s = skip .rest stack t := by
  rw [skip, hs]
  simp only
  rw [h]
  simp only

theorem skip_list (hs : skipBlanks s = '[' :: r) (h : skipBlanks r = c :: t) (hc : c ≠ ']') :
    skip .value stack s = skip .value (.list :: stack) r := by
  rw [skip_value_congr (Blanks.of_skipBlanks r).skipBlanks_eq, h, skip, hs]
  simp only
  rw [h]
  split <;> simp_all

theorem skip_emptyObject (hs : skipBlanks s = '{' :: r) (h : skipBlanks r = '}' :: t) :
    skip .value stack s = skip .rest stack t := by
  rw [skip, hs]
  simp only
  rw [h]
  simp only

theorem skip_object (hs : skipBlanks s = '{' :: r) (h : skipBlanks r = c :: t) (hc : c ≠ '}') :
    skip .value stack s = skip .member (.object :: stack) r := by
  rw [skip_member_congr (Blanks.of_skipBlanks r).skipBlanks_eq, h, skip, hs]
  simp only
  rw [h]
  split <;> simp_all

theorem skip_key (h : skipKey (skipBlanks s) = .ok r) :
    skip .member stack s = skip .value stack r := by
  conv => lhs; rw [skip, h]

/-- What has to come after a comma. -/
def Frame.awaited : Frame → Awaited
  | list => .value
  | object => .member

theorem skip_comma (hs : skipBlanks s = ',' :: r) :
    skip .rest (frame :: stack) s = skip frame.awaited (frame :: stack) r := by
  conv => lhs; rw [skip, hs]
  cases frame <;> simp [Frame.awaited]

theorem skip_closer (hs : skipBlanks s = frame.closer :: r) :
    skip .rest (frame :: stack) s = skip .rest stack r := by
  rw [skip, hs]
  cases frame <;> simp [Frame.closer]

end

/-! ## Values -/

section

variable {s t : List Char}

theorem Number.skipScalar_eq {l : Literal} (h : Number l s t) (ht : Follows t) :
    skipScalar s = .ok t := by
  obtain ⟨c, r, rfl, hc⟩ := h.head
  have hne : ∀ d : Char, d ≠ '-' → d.isDigit = false → c ≠ d := fun _ => ne_of_head hc
  simp [skipScalar, hne '"' (by decide) (by decide), hne 'n' (by decide) (by decide),
    hne 't' (by decide) (by decide), hne 'f' (by decide) (by decide), hc, h.read_eq ht, Except.map]

/-- No value, element or member begins like the end of a list or an object. -/
theorem Derives.begins {part : Part} (h : Derives part s t) :
    ∃ c r, skipBlanks s = c :: r ∧ c ≠ ']' ∧ c ≠ '}' := by
  induction h with
  | null | yes | no | string | emptyList | list | emptyObject | object =>
      exact ⟨_, _, skipBlanks_cons (by decide), by decide, by decide⟩
  | number h =>
      obtain ⟨c, r, rfl, hc⟩ := h.head
      exact ⟨c, r, skipBlanks_cons (isBlank_of_head hc), ne_of_head hc (by decide) (by decide),
        ne_of_head hc (by decide) (by decide)⟩
  | element before _ _ ih =>
      rw [before.skipBlanks_eq]
      exact ih
  | member before =>
      exact ⟨_, _, before.skipBlanks_eq_cons (by decide), by decide, by decide⟩
  | lastElement _ ih | lastMember _ ih => exact ih
  | moreElements _ _ ih | moreMembers _ _ ih => exact ih

/-- What has to come where a part is read. -/
def Part.awaited : Part → Awaited
  | value | element | elements => .value
  | member | members => .member

/-- Can the part be read when these lists and objects are open? -/
def Part.Fits : Part → List Frame → Prop
  | value, _ => True
  | element, stack | member, stack => ∃ frame outer, stack = frame :: outer
  | elements, stack => ∃ outer, stack = .list :: outer
  | members, stack => ∃ outer, stack = .object :: outer

/-- Every part is skipped, nested to any depth, and what is open stays open. -/
theorem Derives.skip_eq {part : Part} (h : Derives part s t) (ht : Follows t)
    {stack : List Frame} (hstack : part.Fits stack) :
    skip part.awaited stack s = skip .rest stack t := by
  -- A list or an object is read with its own frame on the stack, which its end takes off again, so
  -- the stack has to be free in the induction.
  induction h generalizing stack with
  | null | yes | no =>
      apply skip_scalar (skipBlanks_cons (by decide)) (by decide) (by decide)
      simp [skipScalar, word]
  | number h =>
      obtain ⟨c, r, rfl, hc⟩ := h.head
      exact skip_scalar (skipBlanks_cons (isBlank_of_head hc))
        (ne_of_head hc (by decide) (by decide)) (ne_of_head hc (by decide) (by decide))
        (h.skipScalar_eq ht)
  | string h =>
      apply skip_scalar (skipBlanks_cons (by decide)) (by decide) (by decide)
      simpa [skipScalar] using h.skipString_eq
  | emptyList h =>
      exact skip_emptyList (skipBlanks_cons (by decide)) (h.skipBlanks_eq_cons (by decide))
  | @list s t h ih =>
      obtain ⟨c, r, hs, hne, -⟩ := h.begins
      calc skip .value stack ('[' :: s)
        _ = skip .value (.list :: stack) s := skip_list (skipBlanks_cons (by decide)) hs hne
        _ = skip .rest (.list :: stack) (']' :: t) := ih (follows_closer .list) ⟨stack, rfl⟩
        _ = skip .rest stack t := skip_closer (skipBlanks_cons (by decide))
  | emptyObject h =>
      exact skip_emptyObject (skipBlanks_cons (by decide)) (h.skipBlanks_eq_cons (by decide))
  | @object s t h ih =>
      obtain ⟨c, r, hs, -, hne⟩ := h.begins
      calc skip .value stack ('{' :: s)
        _ = skip .member (.object :: stack) s := skip_object (skipBlanks_cons (by decide)) hs hne
        _ = skip .rest (.object :: stack) ('}' :: t) := ih (follows_closer .object) ⟨stack, rfl⟩
        _ = skip .rest stack t := skip_closer (skipBlanks_cons (by decide))
  | @element s t u v before _ after ih =>
      obtain ⟨frame, outer, rfl⟩ := hstack
      calc skip .value (frame :: outer) s
        _ = skip .value (frame :: outer) u := skip_value_congr before.skipBlanks_eq
        _ = skip .rest (frame :: outer) v := ih (after.follows ht) trivial
        _ = skip .rest (frame :: outer) t := skip_rest_congr after.skipBlanks_eq
  | @member s t u v w before key colon _ ih =>
      have hkey : skipKey (skipBlanks s) = .ok w := by
        rw [before.skipBlanks_eq_cons (by decide)]
        simp [skipKey, key.skipString_eq, colon.skipBlanks_eq_cons (c := ':') (by decide)]
      calc skip .member stack s
        _ = skip .value stack w := skip_key hkey
        _ = skip .rest stack t := ih ht hstack
  | lastElement _ ih | lastMember _ ih =>
      obtain ⟨outer, rfl⟩ := hstack
      exact ih ht ⟨_, outer, rfl⟩
  | @moreElements s t u _ _ ih ih' =>
      obtain ⟨outer, rfl⟩ := hstack
      calc skip .value (.list :: outer) s
        _ = skip .rest (.list :: outer) (',' :: u) := ih follows_comma ⟨_, outer, rfl⟩
        _ = skip .value (.list :: outer) u := skip_comma (skipBlanks_cons (by decide))
        _ = skip .rest (.list :: outer) t := ih' ht ⟨outer, rfl⟩
  | @moreMembers s t u _ _ ih ih' =>
      obtain ⟨outer, rfl⟩ := hstack
      calc skip .member (.object :: outer) s
        _ = skip .rest (.object :: outer) (',' :: u) := ih follows_comma ⟨_, outer, rfl⟩
        _ = skip .member (.object :: outer) u := skip_comma (skipBlanks_cons (by decide))
        _ = skip .rest (.object :: outer) t := ih' ht ⟨outer, rfl⟩

/-- Every value is skipped, nested to any depth. -/
theorem Derives.skipValue_eq {u v : List Char} (before : Blanks s u) (h : Derives .value u v)
    (hv : Follows v) : skipValue s = .ok v := by
  rw [skipValue, skip_value_congr before.skipBlanks_eq]
  exact (h.skip_eq hv trivial).trans (by rw [skip])

end

end Json

end FourInRow
