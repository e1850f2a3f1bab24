import FourInRow.Wire.BigEndian
import FourInRow.Wire.Message

/-!
# Records

Every message travels as a record of 17 bytes: a tag and 16 bytes of payload.  The bytes that a
kind does not use are written as 0 and not looked at when a record is read.  A turn request is a
turn record whose third payload byte is 1, whatever its column byte says.

Component: `Message`, its `encode` and `decode`, and `ProtocolError`.
-/

namespace FourInRow

namespace Wire

/-- The number of payload bytes in a record. -/
def payloadLength : Nat := 16

/-- A record: a tag and its payload. -/
structure Record where
  tag : UInt8
  payload : List UInt8
  length_payload : payload.length = payloadLength
deriving DecidableEq, Repr

/-- Why a record carries no message. -/
inductive Error
  /-- No kind of record begins with this tag. -/
  | unknownMessageType (tag : UInt8)
  /-- No outcome of a turn has this code. -/
  | unknownTurnResult (code : UInt8)
deriving DecidableEq, Repr

/-- The wording of a record error. -/
def Error.message : Error → String
  | unknownMessageType tag => s!"unknown message type {tag}"
  | unknownTurnResult code => s!"unknown turn result {code}"

namespace Record

/-- The number of bytes in a record. -/
def length : Nat := payloadLength + 1

/-- The bytes of a record. -/
def bytes (r : Record) : List UInt8 := r.tag :: r.payload

@[simp] theorem length_bytes (r : Record) : r.bytes.length = length := by
  simp [bytes, r.length_payload, length]

/-- A payload byte. -/
def byte (r : Record) (i : Nat) : UInt8 := r.payload.getD i 0

/-- The record of a kind whose payload begins with the given bytes and goes on with zeros. -/
def ofBytes (kind : Kind) (used : List UInt8) : Record where
  tag := kind.tag
  payload := (used ++ List.replicate payloadLength 0).take payloadLength
  length_payload := by simp

/-- Takes a record off the front of a byte string that holds one. -/
def split? : List UInt8 → Option (Record × List UInt8)
  | [] => none
  | tag :: rest =>
    if h : payloadLength ≤ rest.length then
      some (⟨tag, rest.take payloadLength, by simp [h]⟩, rest.drop payloadLength)
    else
      none

theorem length_lt_of_split? {input rest : List UInt8} {r : Record}
    (h : split? input = some (r, rest)) : rest.length < input.length := by
  cases input with
  | nil => simp [split?] at h
  | cons tag tail =>
    simp only [split?] at h
    split at h
    · obtain ⟨-, rfl⟩ := h
      simp only [List.length_drop, List.length_cons]
      omega
    · simp at h

theorem split?_append (r : Record) (rest : List UInt8) :
    split? (r.bytes ++ rest) = some (r, rest) := by
  obtain ⟨tag, payload, h⟩ := r
  simp [split?, bytes, ← h]

/-- Cuts a byte string into records and a rest too short for one. -/
def cut (input : List UInt8) : List Record × List UInt8 :=
  match _ : split? input with
  | none => ([], input)
  | some (r, rest) =>
    let (records, tail) := cut rest
    (r :: records, tail)
termination_by input.length
decreasing_by exact length_lt_of_split? ‹_›

theorem cut_append (r : Record) (rest : List UInt8) :
    cut (r.bytes ++ rest) = (r :: (cut rest).1, (cut rest).2) := by
  rw [cut]
  split
  · rename_i h
    simp [split?_append] at h
  · rename_i h
    simp only [split?_append, Option.some.injEq, Prod.mk.injEq] at h
    obtain ⟨rfl, rfl⟩ := h
    rfl

end Record

/-- The flag in the third payload byte that makes a turn record a request. -/
def requestFlag : UInt8 := 1

/-- The column byte of a turn request. -/
def requestColumn : UInt8 := 0xFF

/-- The number of bytes of a queue position. -/
def positionLength : Nat := 8

end Wire

namespace Message

open Wire

/-- The payload bytes that a message uses. -/
def payload : Message → List UInt8
  | error | ping | pong => []
  | connected player => [player]
  | inQueue position => BigEndian.encode positionLength position.toNat
  | gameStart players columns rows first => [players, columns, rows, first]
  | gameEnd winner => [winner]
  | ready player => [player]
  | takeTurn player column => [player, column]
  | turnRequest player => [player, requestColumn, requestFlag]
  | turnResult result column => [result.code, column]
  | update player column => [player, column]

/-- The record that carries a message. -/
def encode (m : Message) : Record := Record.ofBytes m.kind m.payload

/-- The message that a record of a known kind carries. -/
def ofKind (kind : Kind) (r : Record) : Except Wire.Error Message :=
  match kind with
  | .error => .ok error
  | .connected => .ok (connected (r.byte 0))
  | .ping => .ok ping
  | .pong => .ok pong
  | .inQueue =>
    .ok (inQueue (UInt64.ofNat (BigEndian.decode (r.payload.take positionLength))))
  | .gameStart => .ok (gameStart (r.byte 0) (r.byte 1) (r.byte 2) (r.byte 3))
  | .gameEnd => .ok (gameEnd (r.byte 0))
  | .ready => .ok (ready (r.byte 0))
  | .takeTurn =>
    if r.byte 2 = requestFlag then .ok (turnRequest (r.byte 0))
    else .ok (takeTurn (r.byte 0) (r.byte 1))
  | .turnResult =>
    match TurnResult.ofCode? (r.byte 0) with
    | some result => .ok (turnResult result (r.byte 1))
    | none => .error (.unknownTurnResult (r.byte 0))
  | .update => .ok (update (r.byte 0) (r.byte 1))

/-- The message that a record carries. -/
def decode (r : Record) : Except Wire.Error Message :=
  match Kind.ofTag? r.tag with
  | some kind => ofKind kind r
  | none => .error (.unknownMessageType r.tag)

/-- The bytes of messages that are written one after another. -/
def stream (ms : List Message) : List UInt8 := ms.flatMap fun m => m.encode.bytes

end Message

end FourInRow
