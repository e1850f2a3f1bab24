import FourInRow.Board.Grid
import FourInRow.Proofs.Board.History
import FourInRow.Proofs.Match.Record

/-!
# Grids and piles

The grid of a board tells its piles slot by slot: the pieces of each pile, the empty slots above
them, and the number of pieces.  What a drop writes into a grid, one slot and one number, is what
puts a piece on top of a pile, so a grid and a board onto which the same pieces are dropped stay in
step, and whatever is read off a grid is what is read off the board.

Main results:

- Theorem `columns_push`: a piece that lands changes one slot.
- Theorem `grid_push`: putting a piece on a pile writes it into the grid and counts it.
- Theorem `drop_grid`: a drop onto a grid is the drop onto the board.
- Theorem `dropAll_grid`: so is a sequence of drops.
- Theorem `Grid.told_by_drops`: everything that can be seen of a grid, told by its history.
-/

namespace FourInRow

namespace Board

/-! ## The grid of a board -/

/-- The number of pieces in a column fits a byte. -/
theorem toNat_ofNat_length {b : Board} {s : List Player} (hs : s ∈ b.piles) :
    (UInt8.ofNat s.length).toNat = s.length :=
  UInt8.toNat_ofNat_of_lt' ((b.length_le s hs).trans_lt b.size.height_lt)

/-- The grid that tells the piles of a board slot by slot. -/
def grid (b : Board) : Grid where
  size := b.size
  columns := b.columns
  heights := b.heights.map UInt8.ofNat
  length_columns := by rw [columns, List.length_map, b.length_piles]
  length_cells := by
    intro cells hcells
    rcases List.mem_map.1 hcells with ⟨s, hs, rfl⟩
    exact length_slots hs
  length_heights := by rw [heights, List.length_map, List.length_map, b.length_piles]
  heights_le := by
    intro height hheight
    rw [heights, List.map_map] at hheight
    rcases List.mem_map.1 hheight with ⟨s, hs, rfl⟩
    rw [UInt8.le_iff_toNat_le, Function.comp, toNat_ofNat_length hs]
    exact b.length_le s hs

@[simp] theorem size_grid (b : Board) : b.grid.size = b.size := rfl

theorem getElem_columns_grid {b : Board} {i : Nat} (hi : i < b.piles.length)
    (h : i < b.grid.columns.length) : b.grid.columns[i] = b.slots b.piles[i] := by
  simp [grid, columns]

theorem getElem_heights_grid {b : Board} {i : Nat} (hi : i < b.piles.length)
    (h : i < b.grid.heights.length) : b.grid.heights[i] = UInt8.ofNat b.piles[i].length := by
  simp [grid, heights]

/-- The columns of the grid are those that have a pile. -/
theorem lt_columns_grid_iff (b : Board) (c : UInt8) :
    c < b.grid.size.columns ↔ c.toNat < b.piles.length :=
  (b.lt_length_piles_iff c).symm

/-- The empty board has the empty grid. -/
theorem grid_empty (size : Size) : (empty size).grid = Grid.empty size := by
  simp [grid, Grid.empty, empty, columns, slots, heights]

/-! ## One drop -/

theorem getElem?_heights {b : Board} {i : Nat} (hi : i < b.piles.length) :
    b.heights[i]? = some b.piles[i].length := by
  rw [heights, List.getElem?_map, List.getElem?_eq_getElem hi, Option.map_some]

/-- The piece on top of a pile takes up the lowest slot that was empty. -/
theorem slots_concat {b : Board} {s : List Player} (p : Player) (room : s.length < b.size.height) :
    b.slots (s ++ [p]) = (b.slots s).set s.length p := by
  have hempty : b.size.height - s.length = b.size.height - (s ++ [p]).length + 1 := by
    rw [List.length_append, List.length_singleton]
    omega
  rw [slots, slots, List.set_append_right _ _ le_rfl, Nat.sub_self, hempty, List.replicate_succ,
    List.set_cons_zero, List.append_assoc]
  rfl

/-- A piece that lands changes the slot above the others of its column and no other one. -/
theorem columns_push (b : Board) (i : Nat) (hi : i < b.piles.length) (p : Player)
    (room : b.piles[i].length < b.size.height) :
    (b.push i hi p room).columns =
      b.columns.set i ((b.slots b.piles[i]).set b.piles[i].length p) := by
  rw [← slots_concat p room, columns, columns, push, List.map_set]
  rfl

/-- Putting a piece on a pile writes it into the grid and counts it. -/
theorem grid_push (b : Board) (column : UInt8) (hi : column.toNat < b.piles.length) (p : Player)
    (room : b.piles[column.toNat].length < b.size.height)
    (hcolumn : column.toNat < b.grid.columns.length)
    (hheight : column.toNat < b.grid.heights.length)
    (room' : b.grid.heights[column.toNat] < b.grid.size.rows) :
    (b.push column.toNat hi p room).grid = b.grid.put column p hcolumn hheight room' := by
  have hcount := toNat_ofNat_length (List.getElem_mem hi)
  rw [grid, Grid.put, Grid.mk.injEq, getElem_heights_grid hi, getElem_columns_grid hi, hcount]
  refine ⟨rfl, columns_push b column.toNat hi p room, ?_⟩
  rw [heights_push, List.map_set, UInt8.ofNat_add]
  rfl

/-- A drop onto a grid is the drop onto the board: the same piece lands in the same place, and the
answer is the same. -/
theorem drop_grid (b : Board) (column : UInt8) (p : Player) :
    b.grid.drop column p =
      match b.drop column p with
      | .error e => (b.grid, .error e)
      | .ok none => (b.grid, .ok false)
      | .ok (some b') => (b'.grid, .ok true) := by
  by_cases hi : column.toNat < b.piles.length
  · have hon := (b.lt_columns_grid_iff column).2 hi
    have hheight := Grid.lt_length_heights hon
    have hle := b.length_le _ (List.getElem_mem hi)
    have hfull : b.grid.heights[column.toNat] = b.grid.size.rows ↔
        ¬ b.piles[column.toNat].length < b.size.height := by
      rw [getElem_heights_grid hi, ← UInt8.toNat_inj, toNat_ofNat_length (List.getElem_mem hi),
        not_lt]
      exact ⟨fun h => h.ge, fun h => le_antisymm hle h⟩
    rw [Grid.drop, dif_pos hon, drop, dif_pos hi]
    by_cases room : b.piles[column.toNat].length < b.size.height
    · rw [dif_neg (mt hfull.1 (not_not.2 room)), dif_pos room]
      simp only [grid_push b column hi p room (Grid.lt_length_columns hon) hheight
        (UInt8.lt_of_le_of_ne (b.grid.heights_le _ (List.getElem_mem hheight))
          (mt hfull.1 (not_not.2 room)))]
    · rw [dif_pos (hfull.2 room), dif_neg room]
  · rw [Grid.drop, dif_neg (mt (b.lt_columns_grid_iff column).1 hi), drop, dif_neg hi]

/-- Drops onto a grid one after another are the drops onto the board. -/
theorem dropAll_grid (b : Board) (drops : List (UInt8 × Player)) :
    b.grid.dropAll drops = ((b.dropAll drops).1.grid, (b.dropAll drops).2) := by
  induction drops generalizing b with
  | nil => rfl
  | cons d drops ih =>
      rcases d with ⟨column, p⟩
      rw [Grid.dropAll, drop_grid, dropAll]
      rcases b.drop column p with e | _ | b'
      · simp only [ih]
      · simp only [ih]
      · simp only [ih]

/-! ## What is read off a grid -/

theorem height_grid (b : Board) (c : UInt8) :
    b.grid.height c = (b.height c).map UInt8.ofNat := by
  by_cases hi : c.toNat < b.piles.length
  · rw [Grid.height, dif_pos ((b.lt_columns_grid_iff c).2 hi), height_eq_ok hi]
    simp only [getElem_heights_grid hi, Except.map]
  · rw [Grid.height, dif_neg (mt (b.lt_columns_grid_iff c).1 hi)]
    simp [height, pile, hi, Except.map]

theorem column_grid (b : Board) (c : UInt8) : b.grid.column c = b.column c := by
  by_cases hi : c.toNat < b.piles.length
  · rw [Grid.column, dif_pos ((b.lt_columns_grid_iff c).2 hi)]
    simp [getElem_columns_grid hi, column, pile, hi, Except.map]
  · rw [Grid.column, dif_neg (mt (b.lt_columns_grid_iff c).1 hi)]
    simp [column, pile, hi, Except.map]

/-- A slot of a pile holds the piece that lies there, or nobody's. -/
theorem getElem_slots {b : Board} {s : List Player} {j : Nat} (hj : j < b.size.height)
    (hj' : j < (b.slots s).length) : (b.slots s)[j] = s[j]?.getD nobody := by
  rw [← Option.some_inj, ← List.getElem?_eq_getElem hj', getElem?_slots hj]

theorem owner_grid (b : Board) (c r : UInt8) : b.grid.owner c r = b.owner c r := by
  by_cases hon : c < b.size.columns ∧ r < b.size.rows
  · have hon' : c < b.grid.size.columns ∧ r < b.grid.size.rows := hon
    have hi := (b.lt_columns_grid_iff c).1 hon.1
    have hr : r.toNat < b.size.height := UInt8.lt_iff_toNat_lt.1 hon.2
    rw [Grid.owner, dif_pos hon', owner, if_pos hon, List.getElem?_eq_getElem hi, Option.getD_some]
    simp only [getElem_columns_grid hi, getElem_slots hr]
  · have hon' : ¬ (c < b.grid.size.columns ∧ r < b.grid.size.rows) := hon
    rw [Grid.owner, dif_neg hon', owner, if_neg hon]

theorem row_grid (b : Board) (r : UInt8) : b.grid.row r = b.row r := by
  by_cases hon : r < b.size.rows
  · have hon' : r < b.grid.size.rows := hon
    have hr : r.toNat < b.size.height := UInt8.lt_iff_toNat_lt.1 hon
    rw [Grid.row, dif_pos hon', row, if_pos hon, rowOwners, Except.ok.injEq]
    refine List.ext_getElem (by simp [grid, columns]) fun i hi hi' => ?_
    simp [grid, columns, getElem_slots hr]
  · have hon' : ¬ r < b.grid.size.rows := hon
    rw [Grid.row, dif_neg hon', row, if_neg hon]

theorem isFull_grid (b : Board) : b.grid.isFull = b.isFull := by
  have hfull : ∀ s ∈ b.piles,
      (UInt8.ofNat s.length == b.size.rows) = true ↔ (s.length == b.size.height) = true := by
    intro s hs
    rw [beq_iff_eq, beq_iff_eq, ← UInt8.toNat_inj, toNat_ofNat_length hs]
    rfl
  have hheights : b.grid.heights = b.piles.map fun s => UInt8.ofNat s.length :=
    List.map_map
  rw [Grid.isFull, isFull, hheights, Bool.eq_iff_iff, List.all_eq_true, List.all_eq_true,
    List.forall_mem_map]
  exact forall₂_congr hfull

namespace Grid

/-! ## What a history tells -/

/-- What can be seen of a grid onto which pieces have been dropped, and how each drop was
answered. -/
structure ToldBy (size : Size) (drops : List (UInt8 × Player)) (g : Grid)
    (answers : List (Except Error Bool)) : Prop where
  size_eq : g.size = size
  /-- A column shows the first of the pieces aimed at it, as many as there is room for, and above
  them slots of nobody. -/
  column_eq : ∀ c < size.columns, g.column c =
    .ok ((aimedAt c drops).take size.height ++
      List.replicate (size.height - (aimedAt c drops).length) nobody)
  /-- The number of pieces in a column is right, whatever its slots look like. -/
  height_eq : ∀ c < size.columns, ∃ n, g.height c = .ok n ∧
    n.toNat = min size.height (aimedAt c drops).length
  length_answers : answers.length = drops.length
  /-- A piece has landed exactly if its column exists and had room for it. -/
  answer_eq : ∀ earlier column p later, drops = earlier ++ (column, p) :: later →
    answers[earlier.length]? = some (if column < size.columns then
      .ok (decide ((aimedAt column earlier).length < size.height))
    else .error (.columnOutOfRange column))
  /-- A piece that has not landed has left the grid as it was. -/
  unchanged : ∀ earlier column p later, drops = earlier ++ (column, p) :: later →
    answers[earlier.length]? ≠ some (.ok true) →
      ((empty size).dropAll (earlier ++ [(column, p)])).1 = ((empty size).dropAll earlier).1
  isFull_iff : g.isFull = true ↔ ∀ c < size.columns, size.height ≤ (aimedAt c drops).length
  isColumnFull_iff : ∀ c < size.columns,
    g.isColumnFull c = .ok (decide (size.height ≤ (aimedAt c drops).length))
  /-- Slots, columns and rows tell the same owners. -/
  owner_eq : ∀ c < size.columns, ∀ r < size.rows, ∃ p cells owners,
    g.owner c r = .ok p ∧ g.column c = .ok cells ∧ g.row r = .ok owners ∧
      cells.length = size.height ∧ owners.length = size.width ∧
      cells[r.toNat]? = some p ∧ owners[c.toNat]? = some p

/-- The number of pieces in a column of a grid that was empty. -/
theorem height_of_history {size : Size} {c : UInt8} (hc : c < size.columns)
    (drops : List (UInt8 × Player)) :
    ∃ n, ((empty size).dropAll drops).1.height c = .ok n ∧
      n.toNat = min size.height (aimedAt c drops).length := by
  have hfits : min size.height (aimedAt c drops).length < 256 :=
    (Nat.min_le_left _ _).trans_lt size.height_lt
  refine ⟨UInt8.ofNat (min size.height (aimedAt c drops).length), ?_,
    UInt8.toNat_ofNat_of_lt' hfits⟩
  rw [← grid_empty, dropAll_grid, height_grid, height_of_empty hc]
  rfl

/-- Which columns of a grid that was empty have been filled. -/
theorem isColumnFull_of_history {size : Size} {c : UInt8} (hc : c < size.columns)
    (drops : List (UInt8 × Player)) :
    ((empty size).dropAll drops).1.isColumnFull c =
      .ok (decide (size.height ≤ (aimedAt c drops).length)) := by
  have hsize : ((empty size).dropAll drops).1.size = size := by
    rw [← grid_empty, dropAll_grid]
    exact size_dropAll _ _
  rcases height_of_history hc drops with ⟨n, hheight, hn⟩
  rw [isColumnFull, hheight, hsize, Except.map, Except.ok.injEq, Bool.eq_iff_iff, beq_iff_eq,
    decide_eq_true_iff, ← UInt8.toNat_inj, hn]
  change _ = size.height ↔ _
  omega

/-- How one of the drops onto a grid that was empty has been answered. -/
theorem answer_of_history (size : Size) (earlier : List (UInt8 × Player)) (column : UInt8)
    (p : Player) (later : List (UInt8 × Player)) :
    ((empty size).dropAll (earlier ++ (column, p) :: later)).2[earlier.length]? =
      some (if column < size.columns then
        .ok (decide ((aimedAt column earlier).length < size.height))
      else .error (.columnOutOfRange column)) := by
  rcases answer_of_empty size earlier column p later with ⟨b', r, -, hdropped, hanswer⟩
  have hr := hdropped.answer_eq (n := min size.height (aimedAt column earlier).length)
  rw [size_dropAll] at hr
  rw [← grid_empty, dropAll_grid, hanswer, hr fun hc => height_of_empty hc earlier]
  refine congrArg some (if_congr Iff.rfl (congrArg Except.ok ?_) rfl)
  rw [decide_eq_decide]
  change min size.height _ < size.height ↔ _
  omega

/-- A drop onto a grid that was empty leaves it as it is unless the piece lands. -/
theorem unchanged_of_history (size : Size) (earlier : List (UInt8 × Player)) (column : UInt8)
    (p : Player) (later : List (UInt8 × Player))
    (h : ((empty size).dropAll (earlier ++ (column, p) :: later)).2[earlier.length]? ≠
      some (.ok true)) :
    ((empty size).dropAll (earlier ++ [(column, p)])).1 = ((empty size).dropAll earlier).1 := by
  rcases answer_of_empty size earlier column p later with ⟨b', r, heq, hdropped, hanswer⟩
  rw [← grid_empty, dropAll_grid, hanswer] at h
  have hsame := hdropped.eq_of_ne fun hr => h (congrArg some hr)
  rw [← grid_empty, dropAll_grid, dropAll_grid, dropAll_append, heq, hsame]

/-- A grid that is made by any drops of any pieces onto an empty grid is told by the pieces aimed
at each column: its cells and heights, which drops have landed, and whether it is full.  Drops with
the same pieces aimed at each column, in whatever order across the columns, make the same grid. -/
theorem told_by_drops (size : Size) (drops : List (UInt8 × Player)) :
    ∃ g answers, Grid.new size.columns size.rows = .ok (empty size) ∧
      (empty size).dropAll drops = (g, answers) ∧ ToldBy size drops g answers ∧
      ∀ drops', (∀ c < size.columns, aimedAt c drops' = aimedAt c drops) →
        ((empty size).dropAll drops').1 = g := by
  have hsize : ((Board.empty size).dropAll drops).1.size = size := size_dropAll _ _
  have hnew : Grid.new size.columns size.rows = .ok (empty size) := by
    rw [Grid.new, size.check_columns_rows]
    rfl
  have hrun := dropAll_grid (Board.empty size)
  rw [grid_empty] at hrun
  refine ⟨_, _, hnew, hrun drops, ?_, fun drops' h => ?_⟩
  · exact
      { size_eq := hsize
        column_eq := fun c hc => by rw [column_grid, column_of_empty hc]
        height_eq := fun c hc => by
          have hheight := height_of_history hc drops
          rwa [hrun] at hheight
        length_answers := length_landed _ _
        answer_eq := fun earlier column p later hdrops => by
          rw [← answer_of_history size earlier column p later, ← hdrops, hrun]
        unchanged := fun earlier column p later hdrops hr => by
          subst hdrops
          refine unchanged_of_history size earlier column p later ?_
          rwa [hrun]
        isFull_iff := by
          rw [isFull_grid, Board.isFull_iff, hsize]
          refine forall₂_congr fun c hc => ?_
          rw [height_of_empty hc, Except.ok.injEq]
          omega
        isColumnFull_iff := fun c hc => by
          rw [← isColumnFull_of_history hc drops, hrun]
        owner_eq := fun c hc r hr => by
          have howner := exists_owner (b := ((Board.empty size).dropAll drops).1) (c := c) (r := r)
          rw [hsize] at howner
          rw [owner_grid, column_grid, row_grid]
          exact howner hc hr }
  · rw [hrun drops', dropAll_congr h]

/-- A piece of nobody's is counted, although its slot looks empty. -/
example : (new 5 4).map (fun g => ((g.drop 1 nobody).1.columns, (g.drop 1 nobody).1.heights)) =
    .ok (List.replicate 5 [0, 0, 0, 0], [0, 1, 0, 0, 0]) := by cbv

end Grid

end Board

end FourInRow
