import FourInRow.Proofs.Json.Reading
import FourInRow.Settings.Document

/-!
# What an object says of the settings

An object may give some of the settings, or none at all, in any order, with other members in
between and blanks wherever the grammar lets them stand.  What is read from it depends on the
settings that it gives alone.

Main results:

- Theorem `ext_get`: settings are told by their values.
- Theorem `Members.read`: reading the members of an object puts what they give, one after another.
- Theorem `ofText_eq`: whatever way a draft is written, it is read as the draft with defaults for
  what it leaves open.
-/

namespace FourInRow

namespace Settings

open Json

/-! ## Settings, one by one -/

/-- What a setting may be. -/
abbrev Field.Value : Field → Type
  | bindAddress => String
  | maxLobbies | pingInterval | queueInterval => UInt64
  | playersPerLobby | boardColumns | boardRows => UInt8
  | maxMissedPings => UInt32

/-- The value of a setting. -/
def get (s : Settings) : (f : Field) → f.Value
  | .bindAddress => s.bindAddress
  | .maxLobbies => s.maxLobbies
  | .playersPerLobby => s.playersPerLobby
  | .boardColumns => s.boardColumns
  | .boardRows => s.boardRows
  | .pingInterval => s.pingInterval
  | .maxMissedPings => s.maxMissedPings
  | .queueInterval => s.queueInterval

/-- Settings with one of them changed. -/
def put (s : Settings) : (f : Field) → f.Value → Settings
  | .bindAddress, a => { s with bindAddress := a }
  | .maxLobbies, n => { s with maxLobbies := n }
  | .playersPerLobby, n => { s with playersPerLobby := n }
  | .boardColumns, n => { s with boardColumns := n }
  | .boardRows, n => { s with boardRows := n }
  | .pingInterval, n => { s with pingInterval := n }
  | .maxMissedPings, n => { s with maxMissedPings := n }
  | .queueInterval, n => { s with queueInterval := n }

/-- Settings with the given values. -/
def ofValues (v : (f : Field) → f.Value) : Settings where
  bindAddress := v .bindAddress
  maxLobbies := v .maxLobbies
  playersPerLobby := v .playersPerLobby
  boardColumns := v .boardColumns
  boardRows := v .boardRows
  pingInterval := v .pingInterval
  maxMissedPings := v .maxMissedPings
  queueInterval := v .queueInterval

section

variable {s s' : Settings} {f f' : Field}

/-- Settings are told by their values. -/
theorem ext_get (h : ∀ f, s.get f = s'.get f) : s = s' := by
  have hs : ∀ s : Settings, s = ofValues s.get := fun _ => rfl
  rw [hs s, hs s', funext h]

@[simp] theorem get_ofValues (v : (f : Field) → f.Value) (f : Field) :
    (ofValues v).get f = v f := by
  cases f <;> rfl

@[simp] theorem get_put_self (v : f.Value) : (s.put f v).get f = v := by
  cases f <;> rfl

theorem get_put_of_ne (v : f.Value) (h : f' ≠ f) : (s.put f v).get f' = s.get f' := by
  cases f <;> cases f' <;> first | rfl | contradiction

end

/-! ## Drafts -/

/-- What is said of the settings: some of them are given, or none at all. -/
def Draft : Type := (f : Field) → Option f.Value

namespace Draft

/-- Nothing is said. -/
def none : Draft := fun _ => Option.none

/-- The settings of a draft, with defaults for what it leaves open. -/
def complete (d : Draft) : Settings := ofValues fun f => (d f).getD (default.get f)

end Draft

/-- A setting with the value that is given for it. -/
abbrev Given : Type := (f : Field) × f.Value

/-- Puts what is given, one after another. -/
def putAll (s : Settings) (gs : List Given) : Settings := gs.foldl (fun s g => s.put g.1 g.2) s

section

variable {s : Settings} {gs : List Given} {f : Field} {v : f.Value}

theorem get_putAll_of_notMem (h : ∀ g ∈ gs, g.1 ≠ f) : (s.putAll gs).get f = s.get f := by
  induction gs generalizing s with
  | nil => rfl
  | cons g gs ih =>
      simp only [List.forall_mem_cons] at h
      exact (ih h.2).trans (get_put_of_ne g.2 h.1.symm)

/-- What is given once is what holds in the end. -/
theorem get_putAll_of_mem (hnodup : (gs.map Sigma.fst).Nodup) (h : ⟨f, v⟩ ∈ gs) :
    (s.putAll gs).get f = v := by
  induction gs generalizing s with
  | nil => simp at h
  | cons g gs ih =>
      simp only [List.map_cons, List.nodup_cons] at hnodup
      rcases List.mem_cons.1 h with rfl | h
      · apply (get_putAll_of_notMem _).trans (get_put_self v)
        intro g hg hf
        exact hnodup.1 (List.mem_map.2 ⟨g, hg, hf⟩)
      · exact ih hnodup.2 h

end

/-! ## How settings are written -/

/-- A whole number, written as its digits alone. -/
def Numeral (n : Nat) (s t : List Char) : Prop := ∃ ds, Whole ds s t ∧ Digits.decimal ds = n

/-- The value of a setting, as it is written. -/
def Field.Writes : (f : Field) → f.Value → List Char → List Char → Prop
  | bindAddress, a, s, t => ∃ r, s = '"' :: r ∧ Spells a.toList r t
  | maxLobbies, n, s, t => Numeral (UInt64.toNat n) s t
  | playersPerLobby, n, s, t => Numeral (UInt8.toNat n) s t
  | boardColumns, n, s, t => Numeral (UInt8.toNat n) s t
  | boardRows, n, s, t => Numeral (UInt8.toNat n) s t
  | pingInterval, n, s, t => Numeral (UInt64.toNat n) s t
  | maxMissedPings, n, s, t => Numeral (UInt32.toNat n) s t
  | queueInterval, n, s, t => Numeral (UInt64.toNat n) s t

/-- The key of a member, and the colon after it. -/
inductive Key : List Char → List Char → List Char → Prop
  | intro {name s k k' t : List Char} (before : Blanks s ('"' :: k)) (spelling : Spells name k k')
      (colon : Blanks k' (':' :: t)) : Key name s t

/-- A member of an object, and what it gives: a setting, or nothing if its key is unknown. -/
inductive Member : List Given → List Char → List Char → Prop
  | setting {f : Field} {v : f.Value} {s u u' w t : List Char} (key : Key f.key.toList s u)
      (before : Blanks u u') (value : f.Writes v u' w) (after : Blanks w t) :
      Member [⟨f, v⟩] s t
  | other {name s u t : List Char} (key : Key name s u)
      (unknown : ∀ f : Field, name ≠ f.key.toList) (element : Derives .element u t) :
      Member [] s t

/-- One member or more, with commas in between, and the brace that closes their object. -/
inductive Members : List Given → List Char → List Char → Prop
  | last {gs : List Given} {s t : List Char} (h : Member gs s ('}' :: t)) : Members gs s t
  | more {gs gs' : List Given} {s u t : List Char} (h : Member gs s (',' :: u))
      (hs : Members gs' u t) : Members (gs ++ gs') s t

/-- A text that is an object, and what it gives. -/
inductive Object : List Given → List Char → Prop
  | empty {s u v : List Char} (before : Blanks s ('{' :: u)) (inside : Blanks u ('}' :: v))
      (after : Blanks v []) : Object [] s
  | members {gs : List Given} {s u v : List Char} (before : Blanks s ('{' :: u))
      (h : Members gs u v) (after : Blanks v []) : Object gs s

/-- Is the text an object that gives what the draft says, and nothing twice? -/
def Draft.IsWrittenAs (d : Draft) (text : List Char) : Prop :=
  ∃ gs, Object gs text ∧ (gs.map Sigma.fst).Nodup ∧ ∀ f v, ⟨f, v⟩ ∈ gs ↔ d f = some v

/-! ## Values -/

section

variable {s t u : List Char} {n bound : Nat}

/-- A whole number is read as what it stands for. -/
theorem Numeral.readBelow_eq (h : Numeral n s t) (before : Blanks u s) (ht : Follows t)
    (hn : n < bound) (hbound : bound ≤ UInt64.size) : readBelow bound u = .ok (n, t) := by
  obtain ⟨ds, hwhole, hds⟩ := h
  have hread : Literal.read .truncated s = .ok (⟨false, ds, [], none⟩, t) :=
    (Number.positive rfl ⟨t, t, hwhole, .none t, .none t⟩).read_eq ht
  have hnatural : Literal.natural? ⟨false, ds, [], none⟩ = some n := by
    have : n ≤ Literal.maxWord := by
      rw [Literal.maxWord]
      omega
    simp [Literal.natural?, hds, this]
  obtain ⟨c, r, rfl, hc⟩ := hwhole.head_isDigit
  have hu : skipBlanks u = c :: r := before.skipBlanks_eq_cons (isBlank_of_head (.inr hc))
  simp [readBelow, hu, hc, hread, hnatural, hn]

/-- The value of a setting is read as it is written. -/
theorem Field.Writes.readValue_eq {f : Field} {v : f.Value} (h : f.Writes v s t)
    (before : Blanks u s) (ht : Follows t) (settings : Settings) :
    readValue settings f u = .ok (settings.put f v, t) := by
  cases f with
  | bindAddress =>
      obtain ⟨r, rfl, hspells⟩ := h
      have hu : skipBlanks u = '"' :: r := before.skipBlanks_eq_cons (by decide)
      simp [readValue, readString, hu, hspells.string_eq, Except.map, put]
  | maxLobbies | pingInterval | queueInterval =>
      have hn := h.readBelow_eq before ht (UInt64.toNat_lt_size v) (by decide)
      simp [readValue, hn, Except.map, put]
  | playersPerLobby | boardColumns | boardRows =>
      have hn := h.readBelow_eq before ht (UInt8.toNat_lt_size v) (by decide)
      simp [readValue, hn, Except.map, put]
  | maxMissedPings =>
      have hn := h.readBelow_eq before ht (UInt32.toNat_lt_size v) (by decide)
      simp [readValue, hn, Except.map, put]

end

/-! ## Members -/

theorem Field.ofKey?_key (f : Field) : Field.ofKey? f.key.toList = some f := by
  cases f <;> decide

theorem Field.ofKey?_eq_none {name : List Char} (h : ∀ f : Field, name ≠ f.key.toList) :
    Field.ofKey? name = none := by
  apply List.find?_eq_none.2
  intro f _
  simpa using (h f).symm

theorem Numeral.length_lt {n : Nat} {s t : List Char} (h : Numeral n s t) :
    t.length < s.length := by
  obtain ⟨ds, hwhole, -⟩ := h
  exact hwhole.length_lt

theorem Field.Writes.length_lt {f : Field} {v : f.Value} {s t : List Char} (h : f.Writes v s t) :
    t.length < s.length := by
  cases f with
  | bindAddress =>
      obtain ⟨r, rfl, hspells⟩ := h
      have := hspells.length_lt
      simp
      omega
  | _ => exact Numeral.length_lt h

section

variable {gs : List Given} {s t : List Char}

theorem Key.length_lt {name : List Char} (h : Key name s t) : t.length < s.length := by
  obtain ⟨before, spelling, colon⟩ := h
  have := before.length_le
  have := spelling.length_lt
  have := colon.length_le
  simp at *
  omega

theorem Key.read {name : List Char} (h : Key name s t) :
    ∃ k k', skipBlanks s = '"' :: k ∧ string k = .ok (name, k') ∧ readColon k' = .ok t := by
  obtain ⟨before, spelling, colon⟩ := h
  refine ⟨_, _, before.skipBlanks_eq_cons (by decide), spelling.string_eq, ?_⟩
  simp [readColon, colon.skipBlanks_eq_cons (c := ':') (by decide)]

/-- A member is read as what it gives. -/
theorem Member.read (h : Member gs s t) (ht : Follows t) (settings : Settings)
    {given : List Field} (hnew : ∀ g ∈ gs, g.1 ∉ given) :
    ∃ r s', skipBlanks s = '"' :: r ∧
      readMember settings given r =
        .ok (settings.putAll gs, (gs.map Sigma.fst).reverse ++ given, s') ∧
      Blanks s' t ∧ s'.length < s.length := by
  cases h with
  | @setting f v _ u u' w _ key before value after =>
      obtain ⟨k, k', hs, hstring, hcolon⟩ := key.read
      have hvalue : readValue settings f u = .ok (settings.put f v, w) :=
        value.readValue_eq before (after.follows ht) settings
      have hf : f ∉ given := hnew ⟨f, v⟩ (by simp)
      refine ⟨k, w, hs, ?_, after, ?_⟩
      · simp [readMember, hstring, Field.ofKey?_key, hf, hcolon, hvalue, putAll, bind,
          Except.bind, pure, Except.pure]
      · have := key.length_lt
        have := before.length_le
        have := value.length_lt
        omega
  | @other name _ u _ key unknown element =>
      obtain ⟨k, k', hs, hstring, hcolon⟩ := key.read
      cases element with
      | @element _ _ x w before value after =>
          have hvalue : skipValue u = .ok w := value.skipValue_eq before (after.follows ht)
          refine ⟨k, w, hs, ?_, after, ?_⟩
          · simp [readMember, hstring, Field.ofKey?_eq_none unknown, hcolon, hvalue, putAll,
              bind, Except.bind, pure, Except.pure]
          · have := key.length_lt
            have := before.length_le
            have := value.length_lt
            omega

theorem putAll_append (s : Settings) (gs gs' : List Given) :
    s.putAll (gs ++ gs') = (s.putAll gs).putAll gs' := by
  simp [putAll]

/-- The members of an object are read as what they give, one after another. -/
theorem Members.read (h : Members gs s t) (settings : Settings) {given : List Field}
    (hnodup : (gs.map Sigma.fst).Nodup) (hnew : ∀ g ∈ gs, g.1 ∉ given) :
    ∃ r settings' given' s', skipBlanks s = '"' :: r ∧
      readMember settings given r = .ok (settings', given', s') ∧ s'.length < s.length ∧
      ∀ fuel, s'.length < fuel →
        readMembers settings' given' s' fuel = .ok (settings.putAll gs, t) := by
  -- The first member is read by another reader than the rest, so it is split off here; whatever is
  -- left after it bounds the number of members that can follow.
  induction h generalizing settings given with
  | last h =>
      obtain ⟨r, s', hs, hread, hrest, hlen⟩ := h.read (follows_closer .object) settings hnew
      refine ⟨r, _, _, s', hs, hread, hlen, fun fuel hfuel => ?_⟩
      cases fuel with
      | zero => omega
      | succ fuel =>
          have hs' : skipBlanks s' = '}' :: _ := hrest.skipBlanks_eq_cons (by decide)
          simp [readMembers, hs']
  | @more gs gs' s u t h hs ih =>
      simp only [List.map_append, List.nodup_append] at hnodup
      obtain ⟨hnodup, hnodup', hdisjoint⟩ := hnodup
      have hnew' : ∀ g ∈ gs', g.1 ∉ (gs.map Sigma.fst).reverse ++ given := by
        intro g hg hmem
        rcases List.mem_append.1 hmem with hmem | hmem
        · exact hdisjoint g.1 (by simpa using hmem) g.1 (List.mem_map_of_mem hg) rfl
        · exact hnew g (by simp [hg]) hmem
      obtain ⟨r, s', hs, hread, hrest, hlen⟩ :=
        h.read follows_comma settings fun g hg => hnew g (by simp [hg])
      obtain ⟨r', settings', given', s'', hu, hread', hlen', hmore⟩ :=
        ih (settings.putAll gs) hnodup' hnew'
      refine ⟨r, _, _, s', hs, hread, hlen, fun fuel hfuel => ?_⟩
      cases fuel with
      | zero => omega
      | succ fuel =>
          have hs' : skipBlanks s' = ',' :: u := hrest.skipBlanks_eq_cons (by decide)
          have := hrest.length_le
          simp only [List.length_cons] at this
          simp [readMembers, hs', hu, hread', hmore fuel (by omega), putAll_append]

end

/-! ## Documents -/

section

variable {gs : List Given} {text : List Char} {d : Draft}

/-- An object is read as what it gives, with defaults for all else. -/
theorem Object.ofText_eq (h : Object gs text) (hnodup : (gs.map Sigma.fst).Nodup) :
    ofText text = .ok (default.putAll gs) := by
  cases h with
  | @empty _ u v before inside after =>
      have htext : skipBlanks text = '{' :: u := before.skipBlanks_eq_cons (by decide)
      have hu : skipBlanks u = '}' :: v := inside.skipBlanks_eq_cons (by decide)
      have hv : skipBlanks v = [] := after.skipBlanks_eq
      simp [ofText, readObject, htext, hu, hv, putAll]
  | @members _ _ u v before h after =>
      have hnew : ∀ g ∈ gs, g.1 ∉ ([] : List Field) := by simp
      obtain ⟨r, settings, given, s', hu, hread, -, hmore⟩ := h.read default hnodup hnew
      have htext : skipBlanks text = '{' :: u := before.skipBlanks_eq_cons (by decide)
      have hv : skipBlanks v = [] := after.skipBlanks_eq
      simp [ofText, readObject, htext, hu, hread, hmore _ (Nat.lt_succ_self _), hv]

/-- Whatever way a draft is written, it is read as the draft with defaults for what it leaves
open. -/
theorem Draft.IsWrittenAs.ofText_eq (h : d.IsWrittenAs text) : ofText text = .ok d.complete := by
  obtain ⟨gs, hobject, hnodup, hgs⟩ := h
  rw [hobject.ofText_eq hnodup]
  congr 1
  apply ext_get
  intro f
  rw [complete, get_ofValues]
  cases hf : d f with
  | some v => exact get_putAll_of_mem hnodup ((hgs f v).2 hf)
  | none =>
      apply get_putAll_of_notMem
      rintro ⟨f', v⟩ hg rfl
      simp [(hgs f' v).1 hg] at hf

end

end Settings

end FourInRow
