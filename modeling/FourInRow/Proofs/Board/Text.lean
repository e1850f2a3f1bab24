import FourInRow.Board.Text
import FourInRow.Proofs.Board.History

/-!
# Reading a board off its text

The cells of a line are set apart by bars and the lines of a text by newlines, while a cell is
written with digits alone.  So a text can be cut into lines and a line into cells again, although
the cells have one to three digits and do not stand in straight columns.  What it tells is the size
of the board and the owner of every slot; it does not tell a piece of nobody from an empty slot.

Main results:

- Theorem `splitOn_render`: cutting a text at its newlines gives the lines.
- Theorem `lineCells_rowLine`: cutting the line of a row at its bars gives the owners in decimals.
- Theorem `render_legible`: the layout of a text, and that it tells the size and all owners.
-/

namespace FourInRow

namespace Board

/-! ## Decimals -/

/-- A player's number in decimals. -/
def decimal (p : Player) : List Char := Nat.toDigits 10 p.toNat

theorem toList_toString (p : Player) : (toString p).toList = decimal p := by
  change (toString p.toNat).toList = _
  rw [Nat.toString_eq_ofList_toDigits, String.toList_ofList, decimal]

/-- Different players have different decimals. -/
theorem decimal_injective : Function.Injective decimal := by
  intro p q h
  have hread := congrArg (fun ds => Nat.ofDigitChars 10 ds 0) h
  simp only [decimal, Nat.ofDigitChars_ten_toDigits] at hread
  exact UInt8.toNat_inj.1 hread

/-- There is nothing but digits in a decimal. -/
theorem notMem_decimal {c : Char} (hc : c.isDigit = false) (p : Player) : c ∉ decimal p := by
  intro hmem
  have hdigit := Nat.isDigit_of_mem_toDigits (by omega) (by omega) hmem
  rw [hc] at hdigit
  cases hdigit

/-! ## Lines -/

/-- What stands between the bars of a line, without the blanks around it. -/
def lineCells (line : List Char) : List (List Char) :=
  (line.splitOn '|').map (List.filter (· ≠ ' '))

/-- Cells that are set apart by bars can be told apart again. -/
theorem lineCells_intercalate {cells : List (List Char)} (hne : cells ≠ [])
    (hbar : ∀ cell ∈ cells, '|' ∉ cell) (hblank : ∀ cell ∈ cells, ' ' ∉ cell) :
    lineCells (' ' :: [' ', '|', ' '].intercalate cells) = cells := by
  have hkeep : ∀ cell ∈ cells, cell.filter (· ≠ ' ') = cell := by
    intro cell hcell
    rw [List.filter_eq_self]
    intro c hc
    have hcblank : c ≠ ' ' := fun heq => hblank cell hcell (heq ▸ hc)
    simpa using hcblank
  induction cells with
  | nil => exact absurd rfl hne
  | cons cell rest ih =>
      have hcell := hbar cell List.mem_cons_self
      have hfirst := hkeep cell List.mem_cons_self
      cases rest with
      | nil =>
          have hsplit : (' ' :: cell).splitOn '|' = [' ' :: cell] :=
            List.splitOn_eq_singleton (by simpa using hcell)
          simpa [lineCells, hsplit] using hfirst
      | cons next rest =>
          have hbars : '|' ∉ ' ' :: cell ++ [' '] := by simpa using hcell
          have hline : ' ' :: [' ', '|', ' '].intercalate (cell :: next :: rest) =
              (' ' :: cell ++ [' ']) ++ '|' :: ' ' :: [' ', '|', ' '].intercalate (next :: rest) := by
            simp [List.intercalate_cons_cons]
          have hrest := ih (by simp) (fun c hc => hbar c (List.mem_cons_of_mem _ hc))
            (fun c hc => hblank c (List.mem_cons_of_mem _ hc))
            (fun c hc => hkeep c (List.mem_cons_of_mem _ hc))
          rw [lineCells] at hrest ⊢
          rw [hline, List.splitOn_append_cons_self_of_not_mem hbars, List.map_cons, hrest]
          simpa using hfirst

theorem toList_rowLine (b : Board) (row : Nat) :
    (b.rowLine row).toList = ' ' :: [' ', '|', ' '].intercalate ((b.rowOwners row).map decimal) := by
  simp [rowLine, String.toList_intercalate, List.map_map, Function.comp_def, toList_toString]

theorem rowOwners_ne_nil (b : Board) (row : Nat) : b.rowOwners row ≠ [] := by
  intro h
  have hlength := congrArg List.length h
  have := b.size.four_le_height
  have := b.size.height_lt_width
  simp [rowOwners, b.length_piles] at hlength
  omega

/-- The cells of the line of a row are its owners, left to right. -/
theorem lineCells_rowLine (b : Board) (row : Nat) :
    lineCells (b.rowLine row).toList = (b.rowOwners row).map decimal := by
  rw [toList_rowLine]
  apply lineCells_intercalate
  · simpa using b.rowOwners_ne_nil row
  · simp [notMem_decimal]
  · simp [notMem_decimal]

/-! ## Texts -/

/-- A text of lines that each end with a newline can be cut into these lines again. -/
theorem splitOn_join {ls : List String} (h : ∀ l ∈ ls, '\n' ∉ l.toList) :
    (String.join (ls.map (· ++ "\n"))).toList.splitOn '\n' = ls.map String.toList ++ [[]] := by
  induction ls with
  | nil => simp [String.join_nil]
  | cons l ls ih =>
      have hl := h l List.mem_cons_self
      have hls := ih fun l' hl' => h l' (List.mem_cons_of_mem _ hl')
      simp only [List.map_cons, String.join_cons, String.toList_append, List.append_assoc]
      have hcut := List.splitOn_append_cons_self_of_not_mem hl
        (String.join (ls.map (· ++ "\n"))).toList
      rwa [hls] at hcut

/-- Between what stands in a list nothing stands but the separator. -/
theorem mem_or_eq_of_mem_intersperse {α : Type} {x sep : α} {l : List α}
    (h : x ∈ l.intersperse sep) : x ∈ l ∨ x = sep := by
  rcases List.getElem_of_mem h with ⟨i, hi, rfl⟩
  rw [List.getElem_intersperse]
  split
  · exact Or.inl (List.getElem_mem _)
  · exact Or.inr rfl

theorem newline_notMem_rowLine (b : Board) (row : Nat) : '\n' ∉ (b.rowLine row).toList := by
  rw [toList_rowLine, List.mem_cons, not_or, List.intercalate, List.mem_flatten]
  refine ⟨by decide, ?_⟩
  rintro ⟨part, hpart, hmem⟩
  rcases mem_or_eq_of_mem_intersperse hpart with hcell | rfl
  · rcases List.mem_map.1 hcell with ⟨p, -, rfl⟩
    exact notMem_decimal (by decide) p hmem
  · simp at hmem

theorem newline_notMem_lines (b : Board) : ∀ l ∈ b.lines, '\n' ∉ l.toList := by
  intro l hl
  rcases mem_or_eq_of_mem_intersperse hl with hrow | rfl
  · rcases List.mem_map.1 hrow with ⟨row, -, rfl⟩
    exact b.newline_notMem_rowLine row
  · simp [dashes]

/-- Cutting the text of a board at its newlines gives its lines. -/
theorem splitOn_render (b : Board) :
    b.render.toList.splitOn '\n' = b.lines.map String.toList ++ [[]] :=
  splitOn_join b.newline_notMem_lines

/-- The lines of all rows, the top one first, with dashes in between. -/
theorem length_lines (b : Board) : b.lines.length = 2 * b.size.height - 1 := by
  simp [lines, List.length_intersperse]

theorem getElem?_lines_row {b : Board} {k : Nat} (hk : k < b.size.height) :
    b.lines[2 * k]? = some (b.rowLine (b.size.height - 1 - k)) := by
  simp [lines, List.getElem?_intersperse_two_mul, hk]

theorem getElem?_lines_dashes {b : Board} {k : Nat} (hk : k + 1 < b.size.height) :
    b.lines[2 * k + 1]? = some b.dashes := by
  apply List.getElem?_intersperse_two_mul_add_one
  simpa using hk

/-! ## What a text tells -/

/-- The owner of a slot stands in the row of the slot. -/
theorem owner_eq_rowOwners (b : Board) (column row : UInt8) :
    b.owner column row = if column < b.size.columns ∧ row < b.size.rows then
      .ok ((b.rowOwners row.toNat)[column.toNat]?.getD nobody)
    else .error (.slotOutOfRange column row) := by
  rw [owner, rowOwners, List.getElem?_map]
  cases b.piles[column.toNat]? <;> simp

/-- A row of the board has its owners. -/
theorem row_eq_ok {b : Board} {row : Nat} (hrow : row < b.size.height) :
    b.row (UInt8.ofNat row) = .ok (b.rowOwners row) := by
  have hto := toNat_ofNat_row hrow
  have hlt : UInt8.ofNat row < b.size.rows := by
    rw [UInt8.lt_iff_toNat_lt, hto]
    exact hrow
  rw [Board.row, if_pos hlt, hto]

/-- The line of a row tells the owners of its slots. -/
theorem rowOwners_eq_of_lines {b b' : Board} (hlines : b.lines = b'.lines) :
    b.size.height = b'.size.height ∧
      ∀ row < b.size.height, b.rowOwners row = b'.rowOwners row := by
  have hlength := congrArg List.length hlines
  rw [length_lines, length_lines] at hlength
  have := b.size.four_le_height
  have := b'.size.four_le_height
  have hheight : b.size.height = b'.size.height := by omega
  refine ⟨hheight, fun row hrow => ?_⟩
  have hline := getElem?_lines_row (b := b) (k := b.size.height - 1 - row) (by omega)
  have hline' := getElem?_lines_row (b := b') (k := b.size.height - 1 - row) (by omega)
  rw [hlines, hline', ← hheight] at hline
  have hk : b.size.height - 1 - (b.size.height - 1 - row) = row := by omega
  rw [hk] at hline
  have hcells := congrArg (fun l => lineCells l.toList) (Option.some.inj hline)
  simp only [lineCells_rowLine] at hcells
  exact (List.map_injective_iff.2 decimal_injective hcells).symm

theorem Size.eq_of_columns_rows {s t : Size} (hcolumns : s.columns = t.columns)
    (hrows : s.rows = t.rows) : s = t := by
  cases s
  cases t
  simp_all

/-- A text tells the size of the board and the owners of all slots. -/
theorem owner_eq_of_render {b b' : Board} (h : b.render = b'.render) :
    b.size = b'.size ∧ ∀ column row, b.owner column row = b'.owner column row := by
  have hlines : b.lines = b'.lines := by
    have hsplit := congrArg (fun t => t.toList.splitOn '\n') h
    simp only [splitOn_render] at hsplit
    exact List.map_injective_iff.2 (fun s t => String.toList_inj.1) (List.append_cancel_right hsplit)
  obtain ⟨hheight, howners⟩ := rowOwners_eq_of_lines hlines
  have hwidth : b.size.width = b'.size.width := by
    have := b.size.four_le_height
    have hlength := congrArg List.length (howners 0 (by omega))
    simpa [rowOwners, b.length_piles, b'.length_piles] using hlength
  have hcolumns := UInt8.toNat_inj.1 hwidth
  have hrows := UInt8.toNat_inj.1 hheight
  refine ⟨Size.eq_of_columns_rows hcolumns hrows, fun column row => ?_⟩
  rw [owner_eq_rowOwners, owner_eq_rowOwners, hcolumns, hrows]
  by_cases hon : column < b'.size.columns ∧ row < b'.size.rows
  · have hrow : row.toNat < b.size.height := by
      rw [hheight]
      exact UInt8.lt_iff_toNat_lt.1 hon.2
    rw [if_pos hon, if_pos hon, howners _ hrow]
  · rw [if_neg hon, if_neg hon]

/-- A text is the lines of its rows, the top one first, with dashes in between.  Between the bars of
a line stand the owners of the slots of a row, left to right and in decimals, so that boards with the
same text have the same size and the same owners. -/
theorem render_legible (b : Board) :
    ∃ ls : List (List Char), b.render.toList.splitOn '\n' = ls ++ [[]] ∧
      ls.length = 2 * b.size.height - 1 ∧
      (∀ k < b.size.height, ∃ l owners, ls[2 * k]? = some l ∧
        b.row (UInt8.ofNat (b.size.height - 1 - k)) = .ok owners ∧
        lineCells l = owners.map decimal) ∧
      (∀ k, k + 1 < b.size.height →
        ls[2 * k + 1]? = some (List.replicate (4 * b.size.width - 1) '-')) ∧
      ∀ b' : Board, b'.render = b.render →
        b'.size = b.size ∧ ∀ column row, b'.owner column row = b.owner column row := by
  refine ⟨_, b.splitOn_render, ?_, fun k hk => ?_, fun k hk => ?_, fun b' h => owner_eq_of_render h⟩
  · rw [List.length_map, length_lines]
  · refine ⟨_, _, by rw [List.getElem?_map, getElem?_lines_row hk, Option.map_some],
      row_eq_ok (by omega), lineCells_rowLine _ _⟩
  · rw [List.getElem?_map, getElem?_lines_dashes hk, Option.map_some, dashes, String.toList_ofList]

end Board

end FourInRow
