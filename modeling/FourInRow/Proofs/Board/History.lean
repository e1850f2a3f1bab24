import FourInRow.Proofs.Board.Piece
import FourInRow.Proofs.Bot.Mirror

/-!
# A board and its history

A board is made by dropping pieces onto an empty one.  A column of it is settled by the pieces that
have been aimed at this column alone: it holds the first of them, as many as there is room for.  So
drops into different columns may be made in any order.

Main results:

- Theorem `Dropped.of_drop`: a drop comes to one of three things.
- Theorem `pile_dropAll`: each pile holds the first of the pieces that were aimed at its column.
- Theorem `Dropped.answer_eq`: a piece lands exactly if its column exists and has room for it.
- Theorem `dropAll_congr`: the pieces aimed at each column settle the board.
- Theorems `column_of_empty`, `height_of_empty` and `answer_of_empty`: what can be seen of a board
  that was empty, and how a drop onto it is answered.
-/

namespace FourInRow

namespace Board

/-- The players of the pieces that are dropped into a column, in order. -/
def aimedAt (column : UInt8) (drops : List (UInt8 × Player)) : List Player :=
  (drops.filter fun d => d.1 = column).map Prod.snd

@[simp] theorem aimedAt_append (column : UInt8) (drops drops' : List (UInt8 × Player)) :
    aimedAt column (drops ++ drops') = aimedAt column drops ++ aimedAt column drops' := by
  simp [aimedAt]

/-! ## One drop -/

/-- What becomes of a board and of a piece that is dropped onto it. -/
inductive Dropped (b : Board) (column : UInt8) (p : Player) : Board → Except Error Bool → Prop
  /-- The piece lands on top of its column. -/
  | landed (hi : column.toNat < b.piles.length)
      (room : b.piles[column.toNat].length < b.size.height) :
      Dropped b column p (b.push column.toNat hi p room) (.ok true)
  /-- The column is full. -/
  | full (hi : column.toNat < b.piles.length)
      (hfull : b.piles[column.toNat].length = b.size.height) : Dropped b column p b (.ok false)
  /-- There is no such column. -/
  | missing (hout : ¬ column.toNat < b.piles.length) :
      Dropped b column p b (.error (.columnOutOfRange column))

/-- A drop comes to one of three things. -/
theorem Dropped.of_drop (b : Board) (column : UInt8) (p : Player) :
    ∃ b' r, b.dropAll [(column, p)] = (b', [r]) ∧ Dropped b column p b' r := by
  by_cases hi : column.toNat < b.piles.length
  · by_cases room : b.piles[column.toNat].length < b.size.height
    · exact ⟨_, _, by simp [dropAll, drop, hi, room], .landed hi room⟩
    · have hle := b.length_le _ (List.getElem_mem hi)
      exact ⟨_, _, by simp [dropAll, drop, hi, room], .full hi (by omega)⟩
  · exact ⟨_, _, by simp [dropAll, drop, hi], .missing hi⟩

section

variable {b b' : Board} {column : UInt8} {p : Player} {r : Except Error Bool}

theorem Dropped.size_eq (h : Dropped b column p b' r) : b'.size = b.size := by
  cases h <;> rfl

/-- A piece that does not land leaves the board as it is. -/
theorem Dropped.eq_of_ne (h : Dropped b column p b' r) (hr : r ≠ .ok true) : b' = b := by
  cases h with
  | landed => exact absurd rfl hr
  | full => rfl
  | missing => rfl

/-- A piece goes on top of the pile of its column if there is room, and nowhere else. -/
theorem Dropped.pile_eq (h : Dropped b column p b' r) {c : UInt8} {s : List Player}
    (hs : b.piles[c.toNat]? = some s) :
    b'.piles[c.toNat]? = some ((s ++ aimedAt c [(column, p)]).take b.size.height) := by
  have hle := b.length_le s (List.mem_of_getElem? hs)
  by_cases hc : column = c
  · subst hc
    rcases List.getElem?_eq_some_iff.1 hs with ⟨hi, rfl⟩
    cases h with
    | landed _ room =>
        have hfits : (b.piles[column.toNat] ++ [p]).length ≤ b.size.height := by
          simpa using Nat.succ_le_of_lt room
        simp [aimedAt, push, hi, List.take_of_length_le hfits]
    | full _ hfull => simp [aimedAt, hi, ← hfull]
    | missing hout => exact absurd hi hout
  · have haim : aimedAt c [(column, p)] = [] := by simp [aimedAt, hc]
    rw [haim, List.append_nil, List.take_of_length_le hle]
    cases h with
    | landed =>
        have hne : column.toNat ≠ c.toNat := fun heq => hc (UInt8.toNat_inj.1 heq)
        rw [push, List.getElem?_set_ne hne, hs]
    | full => exact hs
    | missing => exact hs

end

/-! ## Drops one after another -/

/-- Earlier drops are answered as if no further ones came. -/
theorem landed_dropAll_append (b : Board) (drops drops' : List (UInt8 × Player)) :
    (b.dropAll (drops ++ drops')).2 =
      (b.dropAll drops).2 ++ ((b.dropAll drops).1.dropAll drops').2 := by
  induction drops generalizing b with
  | nil => rfl
  | cons d drops ih =>
      rcases d with ⟨column, p⟩
      simp only [List.cons_append, dropAll, ih]

theorem size_dropAll (b : Board) (drops : List (UInt8 × Player)) :
    (b.dropAll drops).1.size = b.size := by
  induction drops using List.reverseRecOn with
  | nil => rfl
  | append_singleton drops d ih =>
      rcases Dropped.of_drop (b.dropAll drops).1 d.1 d.2 with ⟨b', r, heq, hdropped⟩
      rw [dropAll_append, heq]
      exact hdropped.size_eq.trans ih

theorem length_landed (b : Board) (drops : List (UInt8 × Player)) :
    (b.dropAll drops).2.length = drops.length := by
  induction drops generalizing b with
  | nil => rfl
  | cons d drops ih =>
      rcases d with ⟨column, p⟩
      simp only [dropAll, List.length_cons, ih]

/-- To fill up what has been cut off already makes no difference. -/
theorem take_append_take {α : Type} (n : Nat) (s t : List α) :
    (s.take n ++ t).take n = (s ++ t).take n := by
  rw [List.take_append, List.take_append, List.take_take, List.length_take, Nat.min_self]
  congr 2
  omega

/-- Each pile holds what it held and the pieces aimed at its column, up to the height of the
board. -/
theorem pile_dropAll {b : Board} {c : UInt8} {s : List Player} (hs : b.piles[c.toNat]? = some s)
    (drops : List (UInt8 × Player)) :
    (b.dropAll drops).1.piles[c.toNat]? = some ((s ++ aimedAt c drops).take b.size.height) := by
  induction drops using List.reverseRecOn with
  | nil =>
      rw [aimedAt, List.filter_nil, List.map_nil, List.append_nil,
        List.take_of_length_le (b.length_le s (List.mem_of_getElem? hs))]
      exact hs
  | append_singleton drops d ih =>
      rcases Dropped.of_drop (b.dropAll drops).1 d.1 d.2 with ⟨b', r, heq, hdropped⟩
      rw [dropAll_append, heq, hdropped.pile_eq ih, size_dropAll, aimedAt_append,
        take_append_take, List.append_assoc]

/-- A board is its size and its piles. -/
theorem ext_piles {b b' : Board} (hsize : b.size = b'.size)
    (hpiles : ∀ c < b.size.columns, b.piles[c.toNat]? = b'.piles[c.toNat]?) : b = b' := by
  have hlength : b.piles.length = b'.piles.length := by
    rw [b.length_piles, b'.length_piles, hsize]
  have heq : b.piles = b'.piles := by
    refine List.ext_getElem? fun i => ?_
    by_cases hi : i < b.piles.length
    · obtain ⟨c, hc, rfl⟩ := exists_column hi
      exact hpiles c hc
    · rw [List.getElem?_eq_none (by omega), List.getElem?_eq_none (by omega)]
  cases b
  cases b'
  simp_all

/-- The pieces aimed at each column settle the board. -/
theorem dropAll_congr {b : Board} {drops drops' : List (UInt8 × Player)}
    (h : ∀ c < b.size.columns, aimedAt c drops = aimedAt c drops') :
    (b.dropAll drops).1 = (b.dropAll drops').1 := by
  refine ext_piles (by rw [size_dropAll, size_dropAll]) fun c hc => ?_
  rw [size_dropAll] at hc
  have hs := List.getElem?_eq_getElem ((b.lt_length_piles_iff c).2 hc)
  rw [pile_dropAll hs, pile_dropAll hs, h c hc]

/-! ## What can be seen of a board -/

/-- A pile takes up a slot in every row. -/
theorem length_slots {b : Board} {s : List Player} (hs : s ∈ b.piles) :
    (b.slots s).length = b.size.height := by
  have hle := b.length_le s hs
  rw [slots, List.length_append, List.length_replicate]
  omega

/-- A slot of a column holds the piece that lies there, or nobody's. -/
theorem getElem?_slots {b : Board} {s : List Player} {j : Nat} (hj : j < b.size.height) :
    (b.slots s)[j]? = some (s[j]?.getD nobody) := by
  by_cases hpiece : j < s.length
  · rw [slots, List.getElem?_append_left hpiece, List.getElem?_eq_getElem hpiece]
    rfl
  · rw [not_lt] at hpiece
    rw [slots, List.getElem?_append_right hpiece, List.getElem?_replicate, if_pos (by omega),
      List.getElem?_eq_none hpiece]
    rfl

/-- Every column has its slots. -/
theorem getElem?_columns {b : Board} {i : Nat} (hi : i < b.piles.length) :
    b.columns[i]? = some (b.slots b.piles[i]) := by
  rw [columns, List.getElem?_map, List.getElem?_eq_getElem hi, Option.map_some]

/-- A slot, its column and its row tell the same owner. -/
theorem exists_owner {b : Board} {c r : UInt8} (hc : c < b.size.columns) (hr : r < b.size.rows) :
    ∃ p cells owners, b.owner c r = .ok p ∧ b.column c = .ok cells ∧ b.row r = .ok owners ∧
      cells.length = b.size.height ∧ owners.length = b.size.width ∧
      cells[r.toNat]? = some p ∧ owners[c.toNat]? = some p := by
  have hi := (b.lt_length_piles_iff c).2 hc
  have hs := List.getElem?_eq_getElem hi
  have hr' : r.toNat < b.size.height := UInt8.lt_iff_toNat_lt.1 hr
  refine ⟨b.piles[c.toNat][r.toNat]?.getD nobody, b.slots b.piles[c.toNat], b.rowOwners r.toNat,
    ?_, ?_, ?_, length_slots (List.getElem_mem hi), ?_, getElem?_slots hr', ?_⟩
  · rw [owner, if_pos ⟨hc, hr⟩, hs, Option.getD_some]
  · simp [column, pile, hi, Except.map]
  · rw [row, if_pos hr]
  · rw [rowOwners, List.length_map, b.length_piles]
  · rw [rowOwners, List.getElem?_map, hs, Option.map_some]

/-- A board is full exactly if every column is as high as the board. -/
theorem isFull_iff (b : Board) :
    b.isFull = true ↔ ∀ c < b.size.columns, b.height c = .ok b.size.height := by
  rw [isFull, List.all_eq_true]
  constructor
  · intro h c hc
    have hi := (b.lt_length_piles_iff c).2 hc
    rw [height_eq_ok hi, beq_iff_eq.1 (h _ (List.getElem_mem hi))]
  · intro h s hs
    rcases List.getElem_of_mem hs with ⟨i, hi, rfl⟩
    obtain ⟨c, hc, rfl⟩ := exists_column hi
    have hheight := h c hc
    rw [height_eq_ok hi] at hheight
    simpa using hheight

/-! ## What a history tells -/

section

variable {size : Size} {c : UInt8}

/-- The pile of a column of a board that was empty. -/
theorem pile_of_empty (hc : c < size.columns) (drops : List (UInt8 × Player)) :
    ((empty size).dropAll drops).1.pile c = .ok ((aimedAt c drops).take size.height) := by
  have hi : c.toNat < size.width := UInt8.lt_iff_toNat_lt.1 hc
  have hs : (empty size).piles[c.toNat]? = some [] := by simp [empty, hi]
  rw [pile, pile_dropAll hs]
  rfl

theorem column_of_empty (hc : c < size.columns) (drops : List (UInt8 × Player)) :
    ((empty size).dropAll drops).1.column c =
      .ok ((aimedAt c drops).take size.height ++
        List.replicate (size.height - (aimedAt c drops).length) nobody) := by
  rw [column, pile_of_empty hc, Except.map, slots, size_dropAll, List.length_take]
  congr 3
  change size.height - _ = _
  omega

theorem height_of_empty (hc : c < size.columns) (drops : List (UInt8 × Player)) :
    ((empty size).dropAll drops).1.height c =
      .ok (min size.height (aimedAt c drops).length) := by
  rw [height, pile_of_empty hc, Except.map, List.length_take]

/-- How a drop is answered, told by the drops before it. -/
theorem answer_of_empty (size : Size) (earlier : List (UInt8 × Player)) (column : UInt8)
    (p : Player) (later : List (UInt8 × Player)) :
    ∃ b' r, ((empty size).dropAll earlier).1.dropAll [(column, p)] = (b', [r]) ∧
      Dropped ((empty size).dropAll earlier).1 column p b' r ∧
      ((empty size).dropAll (earlier ++ (column, p) :: later)).2[earlier.length]? = some r := by
  rcases Dropped.of_drop ((empty size).dropAll earlier).1 column p with ⟨b', r, heq, hdropped⟩
  refine ⟨b', r, heq, hdropped, ?_⟩
  rw [List.append_cons, landed_dropAll_append, landed_dropAll_append, heq, List.append_assoc,
    List.getElem?_append_right (length_landed _ _).le, length_landed, Nat.sub_self]
  rfl

/-- A piece lands exactly if its column exists and has room for it. -/
theorem Dropped.answer_eq {b b' : Board} {column : UInt8} {p : Player} {r : Except Error Bool}
    (h : Dropped b column p b' r) {n : Nat}
    (hn : column < b.size.columns → b.height column = .ok n) :
    r = if column < b.size.columns then .ok (decide (n < b.size.height))
      else .error (.columnOutOfRange column) := by
  cases h with
  | landed hi room =>
      have hcolumn := (b.lt_length_piles_iff column).1 hi
      have hheight := hn hcolumn
      rw [height_eq_ok hi] at hheight
      cases hheight
      rw [if_pos hcolumn, decide_eq_true room]
  | full hi hfull =>
      have hcolumn := (b.lt_length_piles_iff column).1 hi
      have hheight := hn hcolumn
      rw [height_eq_ok hi] at hheight
      cases hheight
      rw [if_pos hcolumn, decide_eq_false hfull.not_lt]
  | missing hout => rw [if_neg (mt (b.lt_length_piles_iff column).2 hout)]

end

end Board

end FourInRow
