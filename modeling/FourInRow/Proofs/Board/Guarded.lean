import FourInRow.Proofs.Board.Grid
import FourInRow.Proofs.Board.Scan
import FourInRow.Proofs.Guard

/-!
# Boards step by step

A board is laid out as two lists: the slots of each column, and the number of pieces in it.  Every
look at a slot or at a height goes through the number of its column, every walk over the board goes
through coordinates that are kept in 16 bits, and each slot that a walk comes to is named by two
bytes.  None of these steps comes to a fault, on boards of any size.

Main results:

- Theorem `ownerGuarded_eq`: a slot of the board can be looked up.
- Theorem `dropGuarded_eq`: a piece can be dropped into any column, whether there is room or not.
- Theorem `walkGuarded_eq`: a walk goes as far as it reaches, and no further than it has to.
- Theorem `lineOwnerGuarded_eq`: the search for a line around a slot comes to no fault.
-/

namespace FourInRow

namespace Board

open Guard

/-! ## Looking things up -/

/-- The owner of a slot, looked up in the lists. -/
def ownerGuarded (b : Board) (column row : UInt8) : Except Fault Player :=
  if column < b.size.columns ∧ row < b.size.rows then do
    let slots ← entry b.columns column.toNat
    entry slots row.toNat
  else .error (.failed (.slotOutOfRange column row))

/-- The number of pieces in a column, looked up in the lists. -/
def heightGuarded (b : Board) (column : UInt8) : Except Fault Nat :=
  if column < b.size.columns then entry b.heights column.toNat
  else .error (.failed (.columnOutOfRange column))

/-- Drops a piece into a column.  The number of pieces in the column and the slot above them are
looked up, and the number has to go up by one; what is then written into both is told by
`grid_push`. -/
def dropGuarded (b : Board) (column : UInt8) (p : Player) :
    Except Fault (Except Error (Option Board)) :=
  if column < b.size.columns then do
    let height ← entry b.heights column.toNat
    if height = b.size.height then return .ok none
    let slots ← entry b.columns column.toNat
    let _ ← entry slots height
    let _ ← count 8 (height + 1)
    return b.drop column p
  else return .error (.columnOutOfRange column)

/-- A slot of the board can be looked up. -/
theorem ownerGuarded_eq {b : Board} {column row : UInt8} {p : Player}
    (h : b.owner column row = .ok p) : b.ownerGuarded column row = .ok p := by
  unfold owner at h
  split at h
  · next hon =>
      have hi : column.toNat < b.piles.length := (b.lt_length_piles_iff column).2 hon.1
      have hj : row.toNat < b.size.height := UInt8.lt_iff_toNat_lt.1 hon.2
      rw [ownerGuarded, if_pos hon, entry_eq_ok (getElem?_columns hi), ok_bind,
        entry_eq_ok (getElem?_slots hj)]
      simpa [hi] using h
  · cases h

/-- So can the number of pieces in a column. -/
theorem heightGuarded_eq {b : Board} {column : UInt8} {n : Nat} (h : b.height column = .ok n) :
    b.heightGuarded column = .ok n := by
  by_cases hi : column.toNat < b.piles.length
  · rw [height_eq_ok hi] at h
    cases h
    rw [heightGuarded, if_pos ((b.lt_length_piles_iff column).1 hi),
      entry_eq_ok (getElem?_heights hi)]
  · simp [height, pile, hi, Except.map] at h

/-- A piece can be dropped into any column: where there is room, there is a slot for it, and the
number of pieces still fits a byte. -/
theorem dropGuarded_eq (b : Board) (column : UInt8) (p : Player) :
    b.dropGuarded column p = .ok (b.drop column p) := by
  unfold dropGuarded
  by_cases hi : column.toNat < b.piles.length
  · rw [if_pos ((b.lt_length_piles_iff column).1 hi), entry_eq_ok (getElem?_heights hi), ok_bind]
    have hle := b.length_le _ (List.getElem_mem hi)
    by_cases hfull : b.piles[column.toNat].length = b.size.height
    · rw [if_pos hfull, drop, dif_pos hi, dif_neg hfull.not_lt]
      rfl
    · have room : b.piles[column.toNat].length < b.size.height := lt_of_le_of_ne hle hfull
      have htop := b.size.height_lt
      rw [if_neg hfull, entry_eq_ok (getElem?_columns hi), ok_bind,
        entry_eq_ok (getElem?_slots room), ok_bind, count_eq_ok (by omega), ok_bind]
      rfl
  · rw [if_neg (mt (b.lt_length_piles_iff column).2 hi), drop, dif_neg hi]
    rfl

/-! ## Looking for lines -/

/-- Walks on from a slot in a direction as long as the slots are the player's and more of them are
wanted, and tells how many are still wanted at the end. -/
def walkGuarded (b : Board) (p : Player) (step : Int × Int) :
    Nat → Int → Int → Except Fault Nat
  | 0, _, _ => .ok 0
  | wanted + 1, column, row =>
    if b.contains column row then do
      let c ← byte column
      let r ← byte row
      let o ← b.ownerGuarded c r
      if o = p then do
        let column ← coordinate (column + step.1)
        let row ← coordinate (row + step.2)
        b.walkGuarded p step wanted column row
      else return wanted + 1
    else return wanted + 1

/-- Does the player's line through the given slot along one axis reach the winning length?  What is
still wanted after the walk ahead is looked for behind. -/
def lineAlongGuarded (b : Board) (p : Player) (column row : Int) (axis : Int × Int) :
    Except Fault Bool := do
  let ahead ← coordinate (column + axis.1)
  let up ← coordinate (row + axis.2)
  let wanted ← b.walkGuarded p axis (winLength - 1) ahead up
  let back ← coordinate (-axis.1)
  let down ← coordinate (-axis.2)
  let behind ← coordinate (column + back)
  let below ← coordinate (row + down)
  let wanted ← b.walkGuarded p (back, down) wanted behind below
  return wanted == 0

/-- Does one of the axes carry a line of the player through the given slot? -/
def lineAlongAnyGuarded (b : Board) (p : Player) (column row : Int) :
    List (Int × Int) → Except Fault Bool
  | [] => .ok false
  | axis :: rest => do
    if ← b.lineAlongGuarded p column row axis then return true
    else b.lineAlongAnyGuarded p column row rest

/-- The player that owns a line of four through the given slot, if there is one. -/
def lineOwnerGuarded (b : Board) (column row : UInt8) : Except Fault (Option Player) := do
  let p ← b.ownerGuarded column row
  if ← b.lineAlongAnyGuarded p column.toNat row.toNat axes then return some p
  else return none

/-- Directions in which each coordinate goes one up or down at most. -/
def IsUnit (step : Int × Int) : Prop :=
  (-1 ≤ step.1 ∧ step.1 ≤ 1) ∧ -1 ≤ step.2 ∧ step.2 ≤ 1

instance (step : Int × Int) : Decidable (IsUnit step) := inferInstanceAs (Decidable (_ ∧ _))

theorem isUnit_of_mem_axes {axis : Int × Int} (h : axis ∈ axes) : IsUnit axis := by
  revert axis
  decide

/-- A walk that may count more slots counts the same ones first. -/
theorem reach_of_le {b : Board} {p : Player} {step : Int × Int} {n m k : Nat} {column row : Int}
    (h : b.reach p step n column row = .ok m) (hk : k ≤ n) :
    b.reach p step k column row = .ok (min m k) := by
  rcases b.reach_eq_ok p step n column row with ⟨m', -, hreach, hall, hstop⟩
  rcases b.reach_eq_ok p step k column row with ⟨m'', hle, hreach', hall', hstop'⟩
  obtain rfl : m' = m := Except.ok.inj (hreach.symm.trans h)
  rw [hreach']
  congr 1
  -- Both walks go on exactly as long as the slots are the player's.
  rcases lt_trichotomy m'' (min m' k) with hlt | heq | hgt
  · exact absurd (hall m'' (by omega)) (hstop' (by omega))
  · exact heq
  · exact absurd (hall' m' (by omega)) (hstop (by omega))

/-- A walk that starts on the board or beside it comes to no fault, and what is still wanted at its
end is what it has not reached. -/
theorem walkGuarded_eq {b : Board} {p : Player} {step : Int × Int} (hstep : IsUnit step)
    (wanted : Nat) (column row : Int) :
    ∃ m ≤ wanted, b.reach p step wanted column row = .ok m ∧
      b.walkGuarded p step wanted column row = .ok (wanted - m) := by
  induction wanted generalizing column row with
  | zero => exact ⟨0, le_rfl, rfl, rfl⟩
  | succ wanted ih =>
      by_cases hon : b.contains column row = true
      · have howner := owner_of_contains hon
        have hbounds := (b.contains_iff column row).1 hon
        have hwidth := b.size.width_lt
        have hheight := b.size.height_lt
        rw [walkGuarded, reach, if_pos hon, if_pos hon, byte_eq_ok (by omega) (by omega), ok_bind,
          byte_eq_ok (by omega) (by omega), ok_bind, ownerGuarded_eq howner, ok_bind, howner]
        by_cases hown : (b.piece? column.toNat row.toNat).getD nobody = p
        · rcases ih (column + step.1) (row + step.2) with ⟨m, hm, hreach, hwalk⟩
          rcases hstep with ⟨⟨_, _⟩, _, _⟩
          refine ⟨m + 1, by omega, ?_, ?_⟩
          · simp [bind, Except.bind, pure, Except.pure, hown, hreach]
          · rw [if_pos hown, coordinate_eq_ok (by omega) (by omega), ok_bind,
              coordinate_eq_ok (by omega) (by omega), ok_bind, hwalk, Nat.add_sub_add_right]
        · refine ⟨0, Nat.zero_le _, ?_, ?_⟩
          · simp [bind, Except.bind, pure, Except.pure, hown]
          · rw [if_neg hown]
            rfl
      · refine ⟨0, Nat.zero_le _, ?_, ?_⟩
        · rw [reach, if_neg hon]
          rfl
        · rw [walkGuarded, if_neg hon]
          rfl

/-- The search along an axis comes to no fault. -/
theorem lineAlongGuarded_eq {b : Board} {p : Player} {column row : Int}
    (hon : b.contains column row = true) {axis : Int × Int} (haxis : IsUnit axis) :
    ∃ found, b.lineAlong p column row axis = .ok found ∧
      b.lineAlongGuarded p column row axis = .ok found := by
  have hbounds := (b.contains_iff column row).1 hon
  have hwidth := b.size.width_lt
  have hheight := b.size.height_lt
  have hback : IsUnit (-axis.1, -axis.2) := by
    rcases haxis with ⟨⟨_, _⟩, _, _⟩
    refine ⟨⟨?_, ?_⟩, ?_, ?_⟩ <;> simp only <;> omega
  rcases walkGuarded_eq (b := b) (p := p) haxis (winLength - 1) (column + axis.1)
    (row + axis.2) with ⟨ahead, hahead, hreach, hwalk⟩
  rcases b.reach_eq_ok p (-axis.1, -axis.2) (winLength - 1) (column - axis.1) (row - axis.2) with
    ⟨behind, hbehind, hreach', -, -⟩
  rcases walkGuarded_eq (b := b) (p := p) hback (winLength - 1 - ahead) (column + -axis.1)
    (row + -axis.2) with ⟨found, hfound, hreach'', hwalk'⟩
  -- Behind the slot only what is still wanted is looked for.
  have hmin : found = min behind (winLength - 1 - ahead) := by
    have hle := reach_of_le hreach' (Nat.sub_le (winLength - 1) ahead)
    rw [Int.sub_eq_add_neg, Int.sub_eq_add_neg] at hle
    exact Except.ok.inj (hreach''.symm.trans hle)
  rcases haxis with ⟨⟨_, _⟩, _, _⟩
  refine ⟨decide (winLength ≤ ahead + 1 + behind), ?_, ?_⟩
  · rw [lineAlong, hreach, hreach']
    rfl
  · rw [lineAlongGuarded, coordinate_eq_ok (by omega) (by omega), ok_bind,
      coordinate_eq_ok (by omega) (by omega), ok_bind, hwalk, ok_bind,
      coordinate_eq_ok (by omega) (by omega), ok_bind, coordinate_eq_ok (by omega) (by omega),
      ok_bind, coordinate_eq_ok (by omega) (by omega), ok_bind,
      coordinate_eq_ok (by omega) (by omega), ok_bind, hwalk', ok_bind, pure_eq_ok, hmin]
    congr 1
    rw [Bool.eq_iff_iff, beq_iff_eq, decide_eq_true_iff]
    simp only [winLength] at *
    omega

/-- The search along several axes comes to no fault. -/
theorem lineAlongAnyGuarded_eq {b : Board} {p : Player} {column row : Int}
    (hon : b.contains column row = true) {list : List (Int × Int)}
    (hlist : ∀ axis ∈ list, IsUnit axis) :
    ∃ found, b.lineAlongAny p column row list = .ok found ∧
      b.lineAlongAnyGuarded p column row list = .ok found := by
  induction list with
  | nil => exact ⟨false, rfl, rfl⟩
  | cons axis rest ih =>
      rcases lineAlongGuarded_eq (p := p) hon (hlist axis List.mem_cons_self) with
        ⟨found, hline, hguarded⟩
      rw [lineAlongAny, lineAlongAnyGuarded, hline, hguarded]
      cases found with
      | true => exact ⟨true, rfl, rfl⟩
      | false => exact ih fun a ha => hlist a (List.mem_cons_of_mem axis ha)

/-- The search for a line around a slot of the board comes to no fault. -/
theorem lineOwnerGuarded_eq {b : Board} {column row : UInt8}
    (hon : b.contains column.toNat row.toNat = true) :
    ∃ found, b.lineOwner column row = .ok found ∧ b.lineOwnerGuarded column row = .ok found := by
  have howner : b.owner column row =
      .ok ((b.piece? column.toNat row.toNat).getD nobody) := by
    simpa using owner_of_contains hon
  rcases lineAlongAnyGuarded_eq (p := (b.piece? column.toNat row.toNat).getD nobody) hon
    (fun axis => isUnit_of_mem_axes) with ⟨found, hline, hguarded⟩
  rw [lineOwner, lineOwnerGuarded, howner, ownerGuarded_eq howner, ok_bind, hguarded, ok_bind]
  cases found with
  | true => exact ⟨some _, by simp [bind, Except.bind, pure, Except.pure, hline], rfl⟩
  | false => exact ⟨none, by simp [bind, Except.bind, pure, Except.pure, hline], rfl⟩

end Board

end FourInRow
