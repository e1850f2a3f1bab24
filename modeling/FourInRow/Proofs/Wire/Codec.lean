import FourInRow.Wire.Record
import Mathlib

/-!
# Messages and their records

A message is told from its record alone: nothing is lost on writing it, and no two messages are
written alike.  Turns and turn requests share a tag, and are told apart by the flag in the third
payload byte.

Main results:

- Theorem `BigEndian.decode_encode`: reading the bytes of a number gives it back, as far as it fits.
- Theorem `Record.byte_ofBytes`: the payload bytes of a record are those that were put into it.
- Theorem `Message.decode_encode`: decoding undoes encoding.
- Theorem `Message.encode_lossless`: so no two messages have the same record.
-/

namespace FourInRow

namespace BigEndian

/-- What has been read before counts as many times as the bytes behind it can tell apart. -/
theorem foldl_eq (bytes : List UInt8) (n : Nat) :
    bytes.foldl (fun n b => 256 * n + b.toNat) n = 256 ^ bytes.length * n + decode bytes := by
  induction bytes generalizing n with
  | nil => simp [decode]
  | cons b bytes ih =>
      rw [decode, List.foldl_cons, List.foldl_cons, ih, ih, List.length_cons]
      ring

/-- The first byte counts as many times as the bytes behind it can tell apart. -/
theorem decode_cons (b : UInt8) (bytes : List UInt8) :
    decode (b :: bytes) = 256 ^ bytes.length * b.toNat + decode bytes := by
  rw [decode, List.foldl_cons, foldl_eq, Nat.mul_zero, Nat.zero_add]

/-- The first byte of a number is what stands above the bytes behind it. -/
theorem encode_succ (count n : Nat) :
    encode (count + 1) n = UInt8.ofNat (n / 256 ^ count) :: encode count n := by
  rw [encode, Nat.shiftRight_eq_div_pow, Nat.pow_mul]

/-- Reading the bytes of a number gives it back, up to what does not fit into them. -/
theorem decode_encode (count n : Nat) : decode (encode count n) = n % 256 ^ count := by
  induction count with
  | zero => simp [encode, decode, Nat.mod_one]
  | succ count ih =>
      calc decode (encode (count + 1) n)
          = 256 ^ count * (n / 256 ^ count % 256) + decode (encode count n) := by
            rw [encode_succ, decode_cons, length_encode, UInt8.toNat_ofNat']
        _ = n % 256 ^ (count + 1) := by rw [ih, Nat.mod_pow_succ, Nat.add_comm]

end BigEndian

namespace Wire.Record

/-- The payload bytes of a record are those that were put into it, and zeros behind them. -/
theorem byte_ofBytes (kind : Kind) {used : List UInt8} (hused : used.length ≤ payloadLength)
    (i : Nat) : (ofBytes kind used).byte i = used.getD i 0 := by
  simp only [byte, ofBytes, List.getD_eq_getElem?_getD, List.getElem?_take,
    List.getElem?_append, List.getElem?_replicate]
  grind

/-- The payload of a record begins with the bytes that were put into it. -/
theorem take_payload_ofBytes (kind : Kind) {used : List UInt8}
    (hused : used.length ≤ payloadLength) :
    (ofBytes kind used).payload.take used.length = used := by
  rw [ofBytes, List.take_take, Nat.min_eq_left hused, List.take_left]

/-- A record is known by its bytes. -/
theorem bytes_injective : Function.Injective bytes := by
  rintro ⟨tag, payload, _⟩ ⟨tag', payload', _⟩ h
  obtain ⟨rfl, rfl⟩ := List.cons.inj h
  rfl

end Wire.Record

namespace Message

open Wire

/-- No message needs more bytes than a record has. -/
theorem length_payload_le (m : Message) : m.payload.length ≤ payloadLength := by
  cases m with
  | inQueue => simp [payload, positionLength, payloadLength]
  | _ => simp [payload, payloadLength]

/-- The bytes of a record are those that its message uses. -/
theorem byte_encode (m : Message) (i : Nat) : m.encode.byte i = m.payload.getD i 0 :=
  Record.byte_ofBytes m.kind m.length_payload_le i

/-- Whatever has the kind of a message is read as that kind. -/
theorem decode_of_kind {m : Message} {kind : Kind} (h : m.kind = kind) :
    decode m.encode = ofKind kind m.encode := by
  have htag : m.encode.tag = kind.tag := h ▸ rfl
  rw [decode, htag, Kind.ofTag?_tag]

/-- A queue position of 64 bits fits into its bytes. -/
theorem decode_position (position : UInt64) :
    UInt64.ofNat (BigEndian.decode
      ((inQueue position).encode.payload.take positionLength)) = position := by
  have hused : (inQueue position).payload.length = positionLength :=
    BigEndian.length_encode positionLength position.toNat
  have htake := Record.take_payload_ofBytes .inQueue (inQueue position).length_payload_le
  rw [hused] at htake
  have hsize : 256 ^ positionLength = 2 ^ 64 := rfl
  rw [encode, kind, htake, payload, BigEndian.decode_encode, hsize,
    Nat.mod_eq_of_lt position.toNat_lt, UInt64.ofNat_toNat]

/-- Decoding undoes encoding. -/
theorem decode_encode (m : Message) : decode m.encode = .ok m := by
  rw [decode_of_kind rfl]
  cases m with
  | inQueue position => simp [kind, ofKind, decode_position]
  | takeTurn player column => simp [kind, ofKind, byte_encode, payload, requestFlag]
  | _ => simp [kind, ofKind, byte_encode, payload, requestFlag]

/-- No two messages have the same record. -/
theorem encode_injective : Function.Injective encode := by
  intro m m' h
  have hsame : decode m.encode = decode m'.encode := by rw [h]
  rw [decode_encode, decode_encode] at hsame
  exact Except.ok.inj hsame

/-- Every message can be told from the bytes of its record: decoding gives it back, and no two
messages are written alike.  A turn is never taken for a request, whatever its column, though both
have the same tag. -/
theorem encode_lossless :
    (∀ m : Message, decode m.encode = .ok m) ∧
      Function.Injective (fun m : Message => m.encode.bytes) ∧
      ∀ (player player' : Player) (column : UInt8),
        (takeTurn player column).encode.tag = 8 ∧ (turnRequest player').encode.tag = 8 ∧
          (takeTurn player column).encode.bytes ≠ (turnRequest player').encode.bytes := by
  have hbytes : Function.Injective fun m : Message => m.encode.bytes :=
    Record.bytes_injective.comp encode_injective
  refine ⟨decode_encode, hbytes, fun player player' column => ⟨rfl, rfl, fun h => ?_⟩⟩
  have hsame := hbytes h
  cases hsame

end Message

end FourInRow
