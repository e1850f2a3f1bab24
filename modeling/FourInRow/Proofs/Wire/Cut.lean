import FourInRow.Proofs.Wire.Codec

/-!
# Cutting streams into records

All records have one length, so there is one way only to cut a byte string into records and a rest
that is too short for one.  What has been cut off stays as it is when more bytes come.

Main results:

- Theorem `split?_eq_some_iff`: a record is split off a byte string that begins with its bytes.
- Theorem `cut_eq_iff`: the one way to cut a byte string.
- Theorem `cut_stream`: the records of messages are cut apart as they were put together.
-/

namespace FourInRow

namespace Wire.Record

/-- A record is split off a byte string exactly if the string begins with its bytes. -/
theorem split?_eq_some_iff {input rest : List UInt8} {r : Record} :
    split? input = some (r, rest) ↔ input = r.bytes ++ rest := by
  constructor
  · intro h
    cases input with
    | nil => cases h
    | cons tag tail =>
        simp only [split?] at h
        split at h
        · obtain ⟨rfl, rfl⟩ := h
          simp [bytes]
        · cases h
  · rintro rfl
    exact split?_append r rest

/-- No record can be split off a byte string exactly if the string is too short for one. -/
theorem split?_eq_none_iff {input : List UInt8} :
    split? input = none ↔ input.length < length := by
  cases input with
  | nil => simp [split?, length, payloadLength]
  | cons tag tail => simp [split?, length]

/-- A byte string is too short for a record, or begins with one. -/
theorem short_or_record (input : List UInt8) :
    input.length < length ∨
      ∃ (record : Record) (rest : List UInt8), input = record.bytes ++ rest := by
  cases hsplit : split? input with
  | none => exact Or.inl (split?_eq_none_iff.1 hsplit)
  | some p => exact Or.inr ⟨p.1, p.2, split?_eq_some_iff.1 hsplit⟩

/-- There is no record to cut off a byte string that is too short for one. -/
theorem cut_of_short {tail : List UInt8} (h : tail.length < length) : cut tail = ([], tail) := by
  rw [cut]
  split
  · rfl
  · next heq =>
      rw [split?_eq_none_iff.2 h] at heq
      cases heq

/-- All records have one length. -/
theorem length_flatMap (rs : List Record) : (rs.flatMap bytes).length = length * rs.length := by
  induction rs with
  | nil => rfl
  | cons r rs ih =>
      rw [List.flatMap_cons, List.length_append, length_bytes, ih, List.length_cons]
      ring

/-- Records are cut apart as they were put together. -/
theorem cut_flatMap (rs : List Record) (rest : List UInt8) :
    cut (rs.flatMap bytes ++ rest) = (rs ++ (cut rest).1, (cut rest).2) := by
  induction rs with
  | nil => rfl
  | cons r rs ih => rw [List.flatMap_cons, List.append_assoc, cut_append, ih, List.cons_append]

/-- Every byte string can be cut into records and a rest that is too short for one. -/
theorem exists_records (input : List UInt8) :
    ∃ (rs : List Record) (tail : List UInt8),
      input = rs.flatMap bytes ++ tail ∧ tail.length < length := by
  induction hsize : input.length using Nat.strong_induction_on generalizing input with
  | _ size ih =>
      rcases short_or_record input with hshort | ⟨r, rest, rfl⟩
      · exact ⟨[], input, rfl, hshort⟩
      · have hlt := hsize ▸ length_lt_of_split? (split?_append r rest)
        rcases ih rest.length hlt rest rfl with ⟨rs, tail, rfl, hshort⟩
        refine ⟨r :: rs, tail, ?_, hshort⟩
        rw [List.flatMap_cons, List.append_assoc]

/-- The one way to cut a byte string into records and a rest that is too short for one. -/
theorem cut_eq_iff {input tail : List UInt8} {rs : List Record} :
    cut input = (rs, tail) ↔ input = rs.flatMap bytes ++ tail ∧ tail.length < length := by
  constructor
  · intro h
    rcases exists_records input with ⟨rs', tail', rfl, hshort⟩
    rw [cut_flatMap, cut_of_short hshort, List.append_nil] at h
    obtain ⟨rfl, rfl⟩ := h
    exact ⟨rfl, hshort⟩
  · rintro ⟨rfl, hshort⟩
    rw [cut_flatMap, cut_of_short hshort, List.append_nil]

/-- Of a string that begins with records these come first. -/
theorem isPrefix_cut {rs : List Record} {rest stream : List UInt8}
    (h : rs.flatMap bytes ++ rest <+: stream) : rs <+: (cut stream).1 := by
  rcases h with ⟨more, rfl⟩
  rw [List.append_assoc, cut_flatMap]
  exact List.prefix_append rs _

end Wire.Record

namespace Message

open Wire

theorem stream_append (ms ms' : List Message) : stream (ms ++ ms') = stream ms ++ stream ms' :=
  List.flatMap_append

theorem stream_eq_flatMap (ms : List Message) :
    stream ms = (ms.map encode).flatMap Record.bytes :=
  (List.flatMap_map ..).symm

/-- The records of messages are cut apart as they were put together. -/
theorem cut_stream (ms : List Message) : Record.cut (stream ms) = (ms.map encode, []) := by
  rw [stream_eq_flatMap, Record.cut_eq_iff, List.append_nil]
  exact ⟨rfl, by decide⟩

end Message

end FourInRow
