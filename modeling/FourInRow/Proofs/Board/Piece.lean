import FourInRow.Board.Line
import Mathlib

/-!
# Pieces on a board

A board is seen here through its pieces: which player owns the slot with given coordinates.
Coordinates are integers, so that a walk may step off the board, where nobody owns anything.

Main results:

- Theorem `owns_iff_piece`: a player's slots are exactly the places of its pieces in the piles.
- Theorem `owns_push`: a landed piece adds one slot to its owner's and changes no other.
- Theorem `drop_eq_ok_some_iff`: when a piece lands, and what the board is then.
- Theorem `mem_openColumns_iff`: the open columns are those in which a piece lands.
-/

namespace FourInRow

namespace Board

/-! ## Pieces in the piles -/

/-- The piece at a height of a pile, both counted from 0. -/
def piece? (b : Board) (i j : Nat) : Option Player := b.piles[i]?.bind fun s => s[j]?

/-- Where there is a piece there is a slot. -/
theorem lt_of_piece? {b : Board} {i j : Nat} {p : Player} (h : b.piece? i j = some p) :
    i < b.size.width ∧ j < b.size.height := by
  rcases Option.bind_eq_some_iff.1 h with ⟨s, hs, hj⟩
  have hi : i < b.piles.length := (List.getElem?_eq_some_iff.1 hs).1
  have hlen : j < s.length := (List.getElem?_eq_some_iff.1 hj).1
  have hle := b.length_le s (List.mem_of_getElem? hs)
  rw [b.length_piles] at hi
  exact ⟨hi, hlen.trans_le hle⟩

@[simp] theorem piece?_empty (size : Size) (i j : Nat) : (empty size).piece? i j = none := by
  simp [piece?, empty, List.getElem?_replicate]

/-- The pieces of a pile after one more has landed on it. -/
theorem piece?_push (b : Board) (i : Nat) (hi : i < b.piles.length) (p : Player)
    (room : b.piles[i].length < b.size.height) (k j : Nat) :
    (b.push i hi p room).piece? k j =
      if k = i ∧ j = b.piles[i].length then some p else b.piece? k j := by
  by_cases hk : k = i
  · subst k
    by_cases hj : j = b.piles[i].length
    · simp [piece?, push, hi, hj]
    · have hget : (b.piles[i] ++ [p])[j]? = b.piles[i][j]? := by
        by_cases hlt : j < b.piles[i].length
        · exact List.getElem?_append_left hlt
        · simp [List.getElem?_append, hlt]
          omega
      simp [piece?, push, hi, hj, hget]
  · simp [piece?, push, hk, List.getElem?_set_ne (Ne.symm hk)]

/-! ## Slots of a player -/

/-- Does the player own the slot with the given coordinates?  Coordinates off the board name no
slot. -/
def Owns (b : Board) (p : Player) (column row : Int) : Prop :=
  b.contains column row = true ∧
    b.owner (UInt8.ofNat column.toNat) (UInt8.ofNat row.toNat) = .ok p

instance (b : Board) (p : Player) (column row : Int) : Decidable (b.Owns p column row) :=
  inferInstanceAs (Decidable (_ ∧ _))

theorem contains_iff (b : Board) (column row : Int) :
    b.contains column row = true ↔
      0 ≤ column ∧ column < b.size.width ∧ 0 ≤ row ∧ row < b.size.height := by
  simp [contains, and_assoc]

theorem Size.height_lt (s : Size) : s.height < 256 := s.rows.toNat_lt

/-- The number of a column fits a byte. -/
theorem toNat_ofNat_column {b : Board} {n : Nat} (h : n < b.size.width) :
    (UInt8.ofNat n).toNat = n :=
  UInt8.toNat_ofNat_of_lt' (h.trans b.size.width_lt)

/-- The number of a row fits a byte. -/
theorem toNat_ofNat_row {b : Board} {n : Nat} (h : n < b.size.height) :
    (UInt8.ofNat n).toNat = n :=
  UInt8.toNat_ofNat_of_lt' (h.trans b.size.height_lt)

/-- A slot on the board has the owner that its pile tells, or nobody. -/
theorem owner_eq_ok {b : Board} {i j : Nat} (hi : i < b.size.width) (hj : j < b.size.height) :
    b.owner (UInt8.ofNat i) (UInt8.ofNat j) = .ok ((b.piece? i j).getD nobody) := by
  have hic := toNat_ofNat_column hi
  have hjc := toNat_ofNat_row hj
  have hon : UInt8.ofNat i < b.size.columns ∧ UInt8.ofNat j < b.size.rows := by
    rw [UInt8.lt_iff_toNat_lt, UInt8.lt_iff_toNat_lt, hic, hjc]
    exact ⟨hi, hj⟩
  rw [owner, if_pos hon, hic, hjc]
  cases hs : b.piles[i]? with
  | none => simp [piece?, hs]
  | some s => simp [piece?, hs]

/-- A walk never asks for the owner of a slot that is not there. -/
theorem owner_of_contains {b : Board} {column row : Int} (h : b.contains column row = true) :
    b.owner (UInt8.ofNat column.toNat) (UInt8.ofNat row.toNat) =
      .ok ((b.piece? column.toNat row.toNat).getD nobody) := by
  rw [contains_iff] at h
  exact owner_eq_ok (by omega) (by omega)

/-- A player's slots are exactly the places of its pieces. -/
theorem owns_iff_piece {b : Board} {p : Player} (hp : p ≠ nobody) (column row : Int) :
    b.Owns p column row ↔
      0 ≤ column ∧ 0 ≤ row ∧ b.piece? column.toNat row.toNat = some p := by
  constructor
  · rintro ⟨hon, howner⟩
    rw [owner_of_contains hon] at howner
    rw [contains_iff] at hon
    cases hpiece : b.piece? column.toNat row.toNat with
    | none =>
        rw [hpiece] at howner
        exact absurd (Except.ok.inj howner).symm hp
    | some q =>
        rw [hpiece] at howner
        exact ⟨hon.1, hon.2.2.1, congrArg some (Except.ok.inj howner)⟩
  · rintro ⟨hcolumn, hrow, hpiece⟩
    have hlt := lt_of_piece? hpiece
    have hon : b.contains column row = true := by
      rw [contains_iff]
      omega
    exact ⟨hon, by rw [owner_of_contains hon, hpiece]; rfl⟩

/-- No slot of an empty board belongs to a player. -/
theorem not_owns_empty {size : Size} {p : Player} (hp : p ≠ nobody) (column row : Int) :
    ¬ (empty size).Owns p column row := by
  rw [owns_iff_piece hp, piece?_empty]
  rintro ⟨-, -, h⟩
  cases h

/-- A landed piece gives its owner the slot on top of the pile, and changes no other slot. -/
theorem owns_push {b : Board} {i : Nat} {hi : i < b.piles.length} {p q : Player}
    {room : b.piles[i].length < b.size.height} (hq : q ≠ nobody) (column row : Int) :
    (b.push i hi p room).Owns q column row ↔
      (q = p ∧ column = i ∧ row = b.piles[i].length) ∨ b.Owns q column row := by
  rw [owns_iff_piece hq, owns_iff_piece hq, piece?_push]
  by_cases hat : column.toNat = i ∧ row.toNat = b.piles[i].length
  · -- the slot was empty before, so nobody owned it
    have hnone : b.piece? i b.piles[i].length = none := by simp [piece?, hi]
    rw [if_pos hat, hat.1, hat.2, hnone]
    simp only [Option.some.injEq, reduceCtorEq, and_false, or_false]
    constructor
    · rintro ⟨h0, h0', rfl⟩
      exact ⟨rfl, by omega, by omega⟩
    · rintro ⟨rfl, rfl, rfl⟩
      exact ⟨by omega, by omega, rfl⟩
  · rw [if_neg hat]
    constructor
    · exact Or.inr
    · rintro (⟨-, rfl, rfl⟩ | h)
      · simp at hat
      · exact h

/-! ## Dropping -/

/-- A piece lands exactly where there is a column with room for it. -/
theorem drop_eq_ok_some_iff {b b' : Board} {column : UInt8} {p : Player} :
    b.drop column p = .ok (some b') ↔
      ∃ (hi : column.toNat < b.piles.length)
        (room : b.piles[column.toNat].length < b.size.height),
        b' = b.push column.toNat hi p room := by
  unfold drop
  split
  · next hi =>
      split
      · next room => simp [hi, room, eq_comm]
      · next full => simp [hi, full]
  · next hi => simp [hi]

@[simp] theorem size_push (b : Board) (i : Nat) (hi : i < b.piles.length) (p : Player)
    (room : b.piles[i].length < b.size.height) : (b.push i hi p room).size = b.size :=
  rfl

/-! ## Heights -/

/-- The columns of the board are those that have a pile. -/
theorem lt_length_piles_iff (b : Board) (column : UInt8) :
    column.toNat < b.piles.length ↔ column < b.size.columns := by
  rw [b.length_piles, UInt8.lt_iff_toNat_lt]
  rfl

/-- Every pile is the pile of a column. -/
theorem exists_column {b : Board} {i : Nat} (hi : i < b.piles.length) :
    ∃ c < b.size.columns, c.toNat = i := by
  have hc : (UInt8.ofNat i).toNat = i := toNat_ofNat_column (b.length_piles ▸ hi)
  refine ⟨UInt8.ofNat i, ?_, hc⟩
  rw [← b.lt_length_piles_iff, hc]
  exact hi

/-- A column of the board has the height of its pile. -/
theorem height_eq_ok {b : Board} {column : UInt8} (hi : column.toNat < b.piles.length) :
    b.height column = .ok b.piles[column.toNat].length := by
  simp [height, pile, hi, Except.map]

/-- A landed piece makes its column higher by one. -/
theorem height_push (b : Board) (column : UInt8) (hi : column.toNat < b.piles.length)
    (p : Player) (room : b.piles[column.toNat].length < b.size.height) :
    (b.push column.toNat hi p room).height column = .ok (b.piles[column.toNat].length + 1) := by
  simp [height, pile, push, hi, Except.map]

/-! ## Open columns -/

/-- The open columns are those with room. -/
theorem mem_openColumns_iff {b : Board} {column : UInt8} :
    column ∈ b.openColumns ↔ ∃ hi : column.toNat < b.piles.length,
      b.piles[column.toNat].length < b.size.height := by
  have hopen : ∀ c : UInt8, b.isColumnFull c = .ok false ↔
      ∃ hi : c.toNat < b.piles.length, b.piles[c.toNat].length < b.size.height := by
    intro c
    by_cases hi : c.toNat < b.piles.length
    · have hle := b.length_le _ (List.getElem_mem hi)
      simp only [isColumnFull, height, pile, List.getElem?_eq_getElem hi, Except.map,
        Except.ok.injEq, beq_eq_false_iff_ne, hi, exists_true_left]
      omega
    · simp [isColumnFull, height, pile, Except.map, hi]
  rw [← hopen, openColumns, List.mem_filterMap]
  constructor
  · rintro ⟨i, -, hi⟩
    simp only at hi
    split at hi
    · next hroom =>
        cases hi
        exact hroom
    · cases hi
  · intro hroom
    rcases (hopen column).1 hroom with ⟨hi, -⟩
    rw [b.length_piles] at hi
    refine ⟨column.toNat, List.mem_range.2 hi, ?_⟩
    simp only [UInt8.ofNat_toNat, hroom]

/-- A board that is not full has an open column. -/
theorem openColumns_ne_nil {b : Board} (h : b.isFull = false) : b.openColumns ≠ [] := by
  rw [isFull, List.all_eq_false] at h
  rcases h with ⟨s, hs, hne⟩
  rcases List.getElem_of_mem hs with ⟨i, hi, rfl⟩
  obtain ⟨c, -, rfl⟩ := exists_column hi
  have hle := b.length_le _ (List.getElem_mem hi)
  have hroom : b.piles[c.toNat].length < b.size.height := by
    have hne' : b.piles[c.toNat].length ≠ b.size.height := by simpa using hne
    omega
  have hmem : c ∈ b.openColumns := mem_openColumns_iff.2 ⟨hi, hroom⟩
  exact List.ne_nil_of_mem hmem

end Board

end FourInRow
