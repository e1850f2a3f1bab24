import FourInRow.Proofs.Wire.Codec
import Mathlib

/-!
# Normal forms of records

Many records carry the same message, for a kind of message looks at some bytes of the payload only,
and a turn request does not look at its column byte either.  A record is in normal form if the bytes
that are not looked at are those that writing puts there.  Writing what has been read off a record
gives its normal form, so that reading forgets nothing else.

Main results:

- Theorem `BigEndian.encode_decode`: the bytes of a number can be told from the number.
- Theorem `Message.exists_decode_iff`: which records carry a message.
- Theorem `Message.encode_eq_normal`: writing what has been read gives the normal form.
- Theorem `Message.decode_exact`: what is read off every record, and which records are read alike.
-/

namespace FourInRow

namespace BigEndian

/-- A number is smaller than what its bytes can count up to. -/
theorem decode_lt (bytes : List UInt8) : decode bytes < 256 ^ bytes.length := by
  induction bytes with
  | nil => exact Nat.one_pos
  | cons b bytes ih =>
      have hb : b.toNat + 1 ≤ 256 := b.toNat_lt
      calc decode (b :: bytes)
          < 256 ^ bytes.length * b.toNat + 256 ^ bytes.length := by rw [decode_cons]; omega
        _ = 256 ^ bytes.length * (b.toNat + 1) := by ring
        _ ≤ 256 ^ bytes.length * 256 := Nat.mul_le_mul_left _ hb
        _ = 256 ^ (b :: bytes).length := (Nat.pow_succ ..).symm

/-- The lowest bytes of a number do not depend on what stands above them. -/
theorem encode_mul_add (count k n : Nat) :
    encode count (256 ^ count * k + n) = encode count n := by
  induction count generalizing k with
  | zero => rfl
  | succ count ih =>
      have hpos : 0 < 256 ^ count := Nat.pow_pos (by decide)
      have hsplit : 256 ^ (count + 1) * k + n = 256 ^ count * (256 * k) + n := by ring
      have hbyte : UInt8.ofNat (256 * k + n / 256 ^ count) = UInt8.ofNat (n / 256 ^ count) := by
        rw [← UInt8.toNat_inj, UInt8.toNat_ofNat', UInt8.toNat_ofNat']
        omega
      rw [encode_succ, encode_succ, hsplit, ih, Nat.mul_add_div hpos, hbyte]

/-- The bytes of a number can be told from the number and their count. -/
theorem encode_decode (bytes : List UInt8) : encode bytes.length (decode bytes) = bytes := by
  induction bytes with
  | nil => rfl
  | cons b bytes ih =>
      have hpos : 0 < 256 ^ bytes.length := Nat.pow_pos (by decide)
      have hfirst : decode (b :: bytes) / 256 ^ bytes.length = b.toNat := by
        rw [decode_cons, Nat.mul_add_div hpos, Nat.div_eq_of_lt (decode_lt bytes), Nat.add_zero]
      rw [List.length_cons, encode_succ, hfirst, UInt8.ofNat_toNat, decode_cons, encode_mul_add, ih]

end BigEndian

namespace TurnResult

/-- A byte stands for an outcome exactly if it is the outcome's code. -/
theorem ofCode?_eq_some_iff {code : UInt8} {r : TurnResult} :
    ofCode? code = some r ↔ r.code = code := by
  constructor
  · unfold ofCode?
    split <;> intro h <;> cases h <;> rfl
  · rintro rfl
    exact ofCode?_code r

/-- The bytes above 5 stand for no outcome. -/
theorem ofCode?_eq_none_iff {code : UInt8} : ofCode? code = none ↔ 5 < code := by
  unfold ofCode?
  split <;> grind

end TurnResult

namespace Wire

namespace Kind

/-- A byte stands first in the records of a kind exactly if it is the kind's tag. -/
theorem ofTag?_eq_some_iff {tag : UInt8} {k : Kind} : ofTag? tag = some k ↔ k.tag = tag := by
  constructor
  · unfold ofTag?
    split <;> intro h <;> cases h <;> rfl
  · rintro rfl
    exact ofTag?_tag k

/-- No record begins with a byte above 10. -/
theorem ofTag?_eq_none_iff {tag : UInt8} : ofTag? tag = none ↔ 10 < tag := by
  unfold ofTag?
  split <;> grind

/-- The number of payload bytes that are looked at in a record of a kind. -/
def width : Kind → Nat
  | error | ping | pong => 0
  | connected | gameEnd | ready => 1
  | takeTurn | turnResult | update => 2
  | gameStart => 4
  | inQueue => 8

end Kind

namespace Record

/-- The number of payload bytes that count in a record; all of them if it is of no kind. -/
def width (r : Record) : Nat := (Kind.ofTag? r.tag).elim payloadLength Kind.width

/-- Does the flag make this record a turn request? -/
def IsRequest (r : Record) : Prop := r.tag = 8 ∧ r.byte 2 = 1

instance (r : Record) : Decidable r.IsRequest := by
  unfold IsRequest
  infer_instance

/-- What stands in a payload byte in normal form: zero where nobody looks, and in a turn request
the mark for no column and the flag behind the player. -/
def normalByte (r : Record) (i : Nat) : UInt8 :=
  if r.IsRequest then
    if i = 0 then r.byte 0 else if i = 1 then 0xFF else if i = 2 then 1 else 0
  else if i < r.width then r.byte i else 0

/-- The normal form of a record. -/
def normal (r : Record) : Record where
  tag := r.tag
  payload := (List.range payloadLength).map r.normalByte
  length_payload := by simp

/-- Records are alike if they have the same tag and the same payload bytes. -/
theorem ext_byte {r r' : Record} (htag : r.tag = r'.tag)
    (hbyte : ∀ i < payloadLength, r.byte i = r'.byte i) : r = r' := by
  rcases r with ⟨tag, payload, hlength⟩
  rcases r' with ⟨tag', payload', hlength'⟩
  obtain rfl : tag = tag' := htag
  have hpayload : payload = payload' := by
    refine List.ext_getElem (hlength.trans hlength'.symm) fun i hi hi' => ?_
    simpa [byte, hi, hi'] using hbyte i (hlength ▸ hi)
  cases hpayload
  rfl

/-- The payload bytes of a normal form. -/
theorem byte_normal (r : Record) {i : Nat} (hi : i < payloadLength) :
    r.normal.byte i = r.normalByte i := by
  simp [byte, normal, hi]

/-- The first bytes of a payload, one by one. -/
theorem take_payload_eq (r : Record) {n : Nat} (hn : n ≤ payloadLength) :
    r.payload.take n = (List.range n).map r.byte := by
  have hlength := r.length_payload
  refine List.ext_getElem (by simp [hlength, hn]) fun i hi hi' => ?_
  have hlt : i < r.payload.length := by
    rw [List.length_take] at hi
    omega
  simp [byte, hlt]

end Record

end Wire

namespace Message

open Wire

/-- What a kind makes of a record is a message of that kind. -/
theorem kind_of_ofKind {k : Kind} {r : Record} {m : Message} (h : ofKind k r = .ok m) :
    m.kind = k := by
  cases k with
  | takeTurn =>
      simp only [ofKind] at h
      split at h <;> cases h <;> rfl
  | turnResult =>
      simp only [ofKind] at h
      split at h
      · cases h
        rfl
      · cases h
  | _ =>
      cases h
      rfl

/-- A record that is read has the tag of the message's kind, and is read as that kind. -/
theorem decode_eq_ok_iff {r : Record} {m : Message} :
    decode r = .ok m ↔ m.kind.tag = r.tag ∧ ofKind m.kind r = .ok m := by
  unfold decode
  cases hkind : Kind.ofTag? r.tag with
  | none =>
      simp only [reduceCtorEq, false_iff, not_and]
      intro htag
      rw [Kind.ofTag?_eq_some_iff.2 htag] at hkind
      cases hkind
  | some k =>
      have htag := Kind.ofTag?_eq_some_iff.1 hkind
      constructor
      · intro h
        rw [kind_of_ofKind h]
        exact ⟨htag, h⟩
      · rintro ⟨htag', h⟩
        rw [← htag', Kind.ofTag?_tag] at hkind
        cases hkind
        exact h

/-- A record carries no message exactly if no kind has its tag, or if it is to tell the outcome of a
turn by a code that stands for none. -/
theorem decode_eq_error_iff {r : Record} {e : Wire.Error} :
    decode r = .error e ↔ (10 < r.tag ∧ e = .unknownMessageType r.tag) ∨
      (r.tag = 9 ∧ 5 < r.byte 0 ∧ e = .unknownTurnResult (r.byte 0)) := by
  unfold decode
  cases hkind : Kind.ofTag? r.tag with
  | none =>
      have hlarge := Kind.ofTag?_eq_none_iff.1 hkind
      have hne : r.tag ≠ 9 := by grind
      simp [hlarge, hne, eq_comm]
  | some k =>
      rw [← Kind.ofTag?_eq_none_iff, hkind, ← Kind.ofTag?_eq_some_iff.1 hkind]
      cases k with
      | takeTurn =>
          simp only [ofKind]
          split <;> simp [Kind.tag]
      | turnResult =>
          rw [← TurnResult.ofCode?_eq_none_iff]
          cases hcode : TurnResult.ofCode? (r.byte 0) with
          | none => simp [ofKind, hcode, Kind.tag, eq_comm]
          | some result => simp [ofKind, hcode]
      | _ => simp [ofKind, Kind.tag]

/-- The other records carry one. -/
theorem exists_decode_iff {r : Record} :
    (∃ m, decode r = .ok m) ↔ r.tag ≤ 10 ∧ (r.tag = 9 → r.byte 0 ≤ 5) := by
  have herror (e : Wire.Error) := @decode_eq_error_iff r e
  cases hdecode : decode r with
  | ok m =>
      simp only [hdecode, reduceCtorEq, false_iff, not_or, not_and] at herror
      refine ⟨fun _ => ⟨?_, fun htag => ?_⟩, fun _ => ⟨m, rfl⟩⟩
      · exact UInt8.not_lt.1 fun hlarge => (herror _).1 hlarge rfl
      · exact UInt8.not_lt.1 fun hlarge => (herror _).2 htag hlarge rfl
  | error e =>
      refine ⟨fun ⟨_, hm⟩ => (nomatch hm), fun ⟨htag, hcode⟩ => ?_⟩
      rcases (herror e).1 hdecode with ⟨hlarge, -⟩ | ⟨hresult, hlarge, -⟩
      · exact absurd hlarge (UInt8.not_lt.2 htag)
      · exact absurd hlarge (UInt8.not_lt.2 (hcode hresult))

/-- A record with the flag of a turn request is read as one. -/
theorem decode_of_isRequest {r : Record} (h : r.IsRequest) :
    decode r = .ok (turnRequest (r.byte 0)) :=
  decode_eq_ok_iff.2 ⟨h.1.symm, if_pos h.2⟩

/-- A turn request is read exactly off the records with its flag. -/
theorem exists_turnRequest_iff {r : Record} {m : Message} (h : decode r = .ok m) :
    (∃ player, m = .turnRequest player) ↔ r.IsRequest := by
  constructor
  · rintro ⟨player, rfl⟩
    rcases decode_eq_ok_iff.1 h with ⟨htag, hkind⟩
    simp only [kind, ofKind] at hkind
    split at hkind
    · next hflag => exact ⟨htag.symm, hflag⟩
    · cases hkind
  · intro hrequest
    rw [decode_of_isRequest hrequest] at h
    cases h
    exact ⟨_, rfl⟩

/-- The bytes that a message uses are those that were looked at, unless they made a turn request. -/
theorem payload_of_decode {r : Record} {m : Message} (h : decode r = .ok m)
    (hrequest : ¬ r.IsRequest) : m.payload = (List.range m.kind.width).map r.byte := by
  rcases decode_eq_ok_iff.1 h with ⟨htag, hkind⟩
  revert hkind htag
  cases hm : m.kind with
  | takeTurn =>
      intro htag hkind
      simp only [ofKind] at hkind
      split at hkind
      · next hflag => exact absurd ⟨htag.symm, hflag⟩ hrequest
      · cases hkind
        rfl
  | turnResult =>
      intro htag hkind
      simp only [ofKind] at hkind
      split at hkind
      · next result hcode =>
          cases hkind
          rw [payload, TurnResult.ofCode?_eq_some_iff.1 hcode]
          rfl
      · cases hkind
  | inQueue =>
      intro htag hkind
      cases hkind
      have hlength : (r.payload.take positionLength).length = positionLength := by
        rw [List.length_take, r.length_payload]
        rfl
      have hlt : BigEndian.decode (r.payload.take positionLength) < 2 ^ 64 :=
        (BigEndian.decode_lt _).trans_le (by rw [hlength]; decide)
      have hbytes := BigEndian.encode_decode (r.payload.take positionLength)
      rw [hlength] at hbytes
      rw [payload, UInt64.toNat_ofNat', Nat.mod_eq_of_lt hlt, hbytes]
      exact r.take_payload_eq (by decide)
  | _ =>
      intro htag hkind
      cases hkind
      rfl

/-- Writing what has been read off a record gives its normal form. -/
theorem encode_eq_normal {r : Record} {m : Message} (h : decode r = .ok m) :
    m.encode = r.normal := by
  have htag := (decode_eq_ok_iff.1 h).1
  refine Record.ext_byte htag fun i hi => ?_
  rw [byte_encode, r.byte_normal hi, Record.normalByte]
  by_cases hrequest : r.IsRequest
  · rw [decode_of_isRequest hrequest] at h
    cases h
    rw [if_pos hrequest]
    rcases i with _ | _ | _ | i <;> rfl
  · have hwidth : r.width = m.kind.width := by
      rw [Record.width, ← htag, Kind.ofTag?_tag]
      rfl
    rw [if_neg hrequest, payload_of_decode h hrequest, hwidth]
    by_cases hlt : i < m.kind.width
    · simp [hlt]
    · simp [hlt]

/-- Which records carry a message, and why the others carry none; what is forgotten on reading is
what the normal form leaves out, where turn requests are those with the flag; and so records with
messages are read alike exactly if they have one normal form. -/
theorem decode_exact :
    (∀ r : Record,
      ((∃ m, decode r = .ok m) ↔ r.tag ≤ 10 ∧ (r.tag = 9 → r.byte 0 ≤ 5)) ∧
      (∀ e, decode r = .error e ↔ (10 < r.tag ∧ e = .unknownMessageType r.tag) ∨
        (r.tag = 9 ∧ 5 < r.byte 0 ∧ e = .unknownTurnResult (r.byte 0))) ∧
      ∀ m, decode r = .ok m → m.encode = r.normal ∧
        ((∃ player, m = .turnRequest player) ↔ r.tag = 8 ∧ r.byte 2 = 1)) ∧
    ∀ (r r' : Record) (m m' : Message), decode r = .ok m → decode r' = .ok m' →
      (m = m' ↔ r.normal = r'.normal) := by
  refine ⟨fun r => ⟨exists_decode_iff, fun e => decode_eq_error_iff, fun m h => ?_⟩, ?_⟩
  · exact ⟨encode_eq_normal h, exists_turnRequest_iff h⟩
  · intro r r' m m' h h'
    rw [← encode_eq_normal h, ← encode_eq_normal h']
    exact encode_injective.eq_iff.symm

/-- A turn request forgets its column byte, and a turn all behind its column. -/
example :
    (⟨8, [3, 4, 1] ++ List.replicate 13 9, rfl⟩ : Record).normal =
        ⟨8, [3, 0xFF, 1] ++ List.replicate 13 0, rfl⟩ ∧
      (⟨8, [3, 4, 2] ++ List.replicate 13 9, rfl⟩ : Record).normal =
        ⟨8, [3, 4] ++ List.replicate 14 0, rfl⟩ := by
  decide

end Message

end FourInRow
