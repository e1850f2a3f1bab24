import FourInRow.Proofs.Board.Piece

/-!
# Scanning a board for lines

The declarative side of winning: a line is four slots in a row, in a column or on a diagonal of
either slope, and a player has a line when it owns all four.  `HasLine` looks at every slot of
the board; the search around a newest piece (`lineOwner`) looks at the lines through that piece
only.

Main results:

- Theorem `lineAlong_eq_ok`: counting outward from a player's slot along one axis tells whether
  one of the lines along it that pass through the slot is the player's.
- Theorem `lineOwner_eq_ok`: the search around a slot tells whether any line through it is.
- Theorem `OwnsLine.of_push`: a landed piece completes only lines through its own slot.
-/

namespace FourInRow

namespace Board

/-- The ways a line can run. -/
inductive Direction
  /-- Along a column. -/
  | upward
  /-- Along a row. -/
  | sideways
  /-- Along a diagonal that rises to the right. -/
  | rising
  /-- Along a diagonal that rises to the left. -/
  | falling
deriving DecidableEq, Repr

namespace Direction

/-- The way from one slot of a line to the next. -/
def step : Direction → Int × Int
  | upward => (0, 1)
  | sideways => (1, 0)
  | rising => (1, 1)
  | falling => (-1, 1)

/-- All directions. -/
def all : List Direction := [upward, sideways, rising, falling]

theorem mem_all (d : Direction) : d ∈ all := by
  cases d <;> decide

theorem map_step_all : all.map step = axes := rfl

end Direction

/-- Four slots in a straight line, given by the first one and the direction. -/
structure Line where
  column : Int
  row : Int
  direction : Direction
deriving DecidableEq, Repr

/-- The coordinates of a slot of a line, counted from 0. -/
def Line.slot (l : Line) (k : Nat) : Int × Int :=
  (l.column + k * l.direction.step.1, l.row + k * l.direction.step.2)

/-- Does a line pass through a slot? -/
def Line.PassesThrough (l : Line) (column row : Int) : Prop :=
  ∃ k < winLength, l.slot k = (column, row)

/-- Does the player own all four slots of a line? -/
def OwnsLine (b : Board) (p : Player) (l : Line) : Prop :=
  ∀ k < winLength, b.Owns p (l.slot k).1 (l.slot k).2

instance (b : Board) (p : Player) (l : Line) : Decidable (b.OwnsLine p l) :=
  inferInstanceAs (Decidable (∀ k < winLength, _))

/-- The lines that begin on the board. -/
def allLines (b : Board) : List Line :=
  (List.range b.size.width).flatMap fun (column : Nat) =>
    (List.range b.size.height).flatMap fun (row : Nat) =>
      Direction.all.map fun d => ⟨column, row, d⟩

/-- Does the player own a line anywhere on the board? -/
def HasLine (b : Board) (p : Player) : Prop := ∃ l ∈ b.allLines, b.OwnsLine p l

instance (b : Board) (p : Player) : Decidable (b.HasLine p) :=
  inferInstanceAs (Decidable (∃ l ∈ b.allLines, _))

/-! ## Lines anywhere -/

theorem mem_allLines {b : Board} {l : Line} (h : b.contains l.column l.row = true) :
    l ∈ b.allLines := by
  rw [contains_iff] at h
  simp only [allLines, List.mem_flatMap, List.mem_range, List.mem_map]
  refine ⟨l.column.toNat, by omega, l.row.toNat, by omega, l.direction,
    Direction.mem_all _, ?_⟩
  rw [Int.toNat_of_nonneg h.1, Int.toNat_of_nonneg h.2.2.1]

/-- A player's line begins on the board, so the scan finds it. -/
theorem hasLine_iff (b : Board) (p : Player) : b.HasLine p ↔ ∃ l, b.OwnsLine p l := by
  constructor
  · rintro ⟨l, -, h⟩
    exact ⟨l, h⟩
  · rintro ⟨l, h⟩
    have hfirst := (h 0 (by decide)).1
    simp only [Line.slot, Nat.cast_zero, zero_mul, add_zero] at hfirst
    exact ⟨l, mem_allLines hfirst, h⟩

/-- On an empty board nobody has a line. -/
theorem not_hasLine_empty {size : Size} {p : Player} (hp : p ≠ nobody) :
    ¬ (empty size).HasLine p := by
  rw [hasLine_iff]
  rintro ⟨l, h⟩
  exact not_owns_empty hp _ _ (h 0 (by decide))

/-! ## Counting outward -/

/-- A walk from a slot counts the player's slots up to the first one that is not the player's,
and never leaves the board. -/
theorem reach_eq_ok (b : Board) (p : Player) (step : Int × Int) (n : Nat) (column row : Int) :
    ∃ m ≤ n, b.reach p step n column row = .ok m ∧
      (∀ k < m, b.Owns p (column + k * step.1) (row + k * step.2)) ∧
      (m < n → ¬ b.Owns p (column + m * step.1) (row + m * step.2)) := by
  induction n generalizing column row with
  | zero => exact ⟨0, le_rfl, rfl, by simp, by simp⟩
  | succ n ih =>
      by_cases hon : b.contains column row = true
      · by_cases howns : b.Owns p column row
        · -- one more slot: shift the induction hypothesis by a step
          rcases ih (column + step.1) (row + step.2) with ⟨m, hm, hreach, hall, hstop⟩
          have hshift : ∀ k : Nat,
              column + step.1 + k * step.1 = column + (k + 1 : Nat) * step.1 ∧
              row + step.2 + k * step.2 = row + (k + 1 : Nat) * step.2 := by
            intro k
            push_cast
            constructor <;> ring
          refine ⟨m + 1, by omega, ?_, ?_, ?_⟩
          · rw [reach, if_pos hon, howns.2]
            simp [bind, Except.bind, pure, Except.pure, hreach]
          · intro k hk
            cases k with
            | zero => simpa using howns
            | succ k =>
                have := hall k (by omega)
                rwa [(hshift k).1, (hshift k).2] at this
          · intro hlt
            have := hstop (by omega)
            rwa [(hshift m).1, (hshift m).2] at this
        · refine ⟨0, by omega, ?_, by simp, by simpa using howns⟩
          have hother : (b.piece? column.toNat row.toNat).getD nobody ≠ p := by
            intro heq
            exact howns ⟨hon, by rw [owner_of_contains hon, heq]⟩
          rw [reach, if_pos hon, owner_of_contains hon]
          simp [bind, Except.bind, pure, Except.pure, hother]
      · refine ⟨0, by omega, ?_, by simp, fun _ h => hon ?_⟩
        · rw [reach, if_neg hon]
          rfl
        · simpa using h.1

/-- Along an axis, offsets are counted from a slot that fulfils a condition.  The runs of
fulfilling slots ahead of it and behind it, each counted up to three, make up four slots with it
exactly if four slots in sequence that include it fulfil the condition. -/
theorem four_le_runs_iff {P : Int → Prop} {ahead behind : Nat} (h : P 0)
    (hahead : ∀ k < ahead, P (1 + k)) (hstop : ahead < 3 → ¬ P (1 + ahead))
    (hbehind : ∀ k < behind, P (-1 - k)) (hstop' : behind < 3 → ¬ P (-1 - behind)) :
    4 ≤ ahead + 1 + behind ↔ ∃ i < 4, ∀ k < 4, P ((k : Nat) - (i : Nat)) := by
  constructor
  · intro hlen
    refine ⟨min behind 3, by omega, fun k hk => ?_⟩
    rcases lt_trichotomy k (min behind 3) with hlt | heq | hgt
    · have := hbehind (min behind 3 - k - 1) (by omega)
      convert this using 1
      omega
    · rw [heq, sub_self]
      exact h
    · have := hahead (k - min behind 3 - 1) (by omega)
      convert this using 1
      omega
  · rintro ⟨i, hi, hall⟩
    -- the slots of the four that lie ahead are counted, and so are those behind
    have hle : 3 - i ≤ ahead := by
      by_contra hlt
      refine hstop (by omega) ?_
      have := hall (i + 1 + ahead) (by omega)
      convert this using 1
      omega
    have hle' : i ≤ behind := by
      by_contra hlt
      refine hstop' (by omega) ?_
      have := hall (i - 1 - behind) (by omega)
      convert this using 1
      omega
    omega

/-- The slots of a line, by their offsets from one of its slots. -/
theorem Line.slot_eq {l : Line} {column row : Int} {i : Nat} (h : l.slot i = (column, row))
    (k : Nat) :
    l.slot k = (column + ((k : Int) - i) * l.direction.step.1,
      row + ((k : Int) - i) * l.direction.step.2) := by
  simp only [slot, Prod.mk.injEq] at h ⊢
  rw [← h.1, ← h.2]
  constructor <;> ring

/-- Counting outward from a player's slot, in both ways along one axis, tells whether a line of
the player along that axis passes through the slot. -/
theorem lineAlong_eq_ok {b : Board} {p : Player} {column row : Int}
    (h : b.Owns p column row) (d : Direction) :
    ∃ found, b.lineAlong p column row d.step = .ok found ∧
      (found = true ↔
        ∃ l : Line, l.direction = d ∧ l.PassesThrough column row ∧ b.OwnsLine p l) := by
  obtain ⟨ahead, -, hreach, hall, hstop⟩ :=
    b.reach_eq_ok p d.step (winLength - 1) (column + d.step.1) (row + d.step.2)
  obtain ⟨behind, -, hreach', hall', hstop'⟩ :=
    b.reach_eq_ok p (-d.step.1, -d.step.2) (winLength - 1) (column - d.step.1)
      (row - d.step.2)
  refine ⟨_, by rw [lineAlong, hreach, hreach']; rfl, ?_⟩
  rw [decide_eq_true_iff]
  -- the condition: the slot at an offset along the axis is the player's
  let P : Int → Prop := fun t => b.Owns p (column + t * d.step.1) (row + t * d.step.2)
  have hP : ∀ {t c r : Int}, column + t * d.step.1 = c → row + t * d.step.2 = r →
      (P t ↔ b.Owns p c r) := by
    rintro t c r rfl rfl
    exact Iff.rfl
  have hruns : 4 ≤ ahead + 1 + behind ↔ ∃ i < 4, ∀ k < 4, P ((k : Nat) - (i : Nat)) := by
    apply four_le_runs_iff
    · exact (hP (by ring) (by ring)).2 h
    · exact fun k hk => (hP (by ring) (by ring)).2 (hall k hk)
    · exact fun hlt hp => hstop hlt ((hP (by ring) (by ring)).1 hp)
    · exact fun k hk => (hP (by ring) (by ring)).2 (hall' k hk)
    · exact fun hlt hp => hstop' hlt ((hP (by ring) (by ring)).1 hp)
  refine hruns.trans ⟨?_, ?_⟩
  · rintro ⟨i, hi, hline⟩
    let l : Line := ⟨column - i * d.step.1, row - i * d.step.2, d⟩
    have hpass : l.slot i = (column, row) := by simp [l, Line.slot]
    refine ⟨l, rfl, ⟨i, hi, hpass⟩, fun k hk => ?_⟩
    rw [l.slot_eq hpass]
    exact hline k hk
  · rintro ⟨l, rfl, ⟨i, hi, hpass⟩, howns⟩
    refine ⟨i, hi, fun k hk => ?_⟩
    have := howns k hk
    rwa [l.slot_eq hpass] at this

/-- The search along several axes finds a line exactly if there is one along one of them. -/
theorem lineAlongAny_eq_ok {b : Board} {p : Player} {column row : Int}
    (h : b.Owns p column row) (ds : List Direction) :
    ∃ found, b.lineAlongAny p column row (ds.map Direction.step) = .ok found ∧
      (found = true ↔
        ∃ l : Line, l.direction ∈ ds ∧ l.PassesThrough column row ∧ b.OwnsLine p l) := by
  induction ds with
  | nil => exact ⟨false, rfl, by simp⟩
  | cons d ds ih =>
      rcases lineAlong_eq_ok h d with ⟨found, hfound, hiff⟩
      rcases ih with ⟨further, hfurther, hiff'⟩
      rw [List.map_cons, lineAlongAny, hfound]
      cases found with
      | true =>
          rcases hiff.1 rfl with ⟨l, hd, hl⟩
          refine ⟨true, rfl, iff_of_true rfl ⟨l, ?_, hl⟩⟩
          rw [hd]
          exact List.mem_cons_self
      | false =>
          refine ⟨further, hfurther, ?_⟩
          rw [hiff']
          constructor
          · rintro ⟨l, hd, hl⟩
            exact ⟨l, List.mem_cons_of_mem d hd, hl⟩
          · rintro ⟨l, hd, hl⟩
            rcases List.mem_cons.1 hd with hd | hd
            · exact absurd (hiff.2 ⟨l, hd, hl⟩) Bool.false_ne_true
            · exact ⟨l, hd, hl⟩

/-- The search around a player's slot finds the player exactly if one of its lines passes through
the slot. -/
theorem lineOwner_eq_ok {b : Board} {p : Player} {column row : UInt8}
    (h : b.Owns p column.toNat row.toNat) :
    ∃ found, b.lineOwner column row = .ok found ∧
      ∀ q, found = some q ↔
        q = p ∧ ∃ l : Line, l.PassesThrough column.toNat row.toNat ∧ b.OwnsLine p l := by
  rcases lineAlongAny_eq_ok h Direction.all with ⟨found, hfound, hiff⟩
  have howner : b.owner column row = .ok p := by simpa using h.2
  rw [Direction.map_step_all] at hfound
  have hiff' : found = true ↔
      ∃ l : Line, l.PassesThrough column.toNat row.toNat ∧ b.OwnsLine p l := by
    rw [hiff]
    exact exists_congr fun l => and_iff_right (Direction.mem_all l.direction)
  rw [lineOwner, howner]
  cases found with
  | true =>
      refine ⟨some p, by simp [bind, Except.bind, pure, Except.pure, hfound], fun q => ?_⟩
      rw [Option.some.injEq, and_iff_left (hiff'.1 rfl), eq_comm]
  | false =>
      refine ⟨none, by simp [bind, Except.bind, pure, Except.pure, hfound], fun q => ?_⟩
      have hnone := fun hl => Bool.false_ne_true (hiff'.2 hl)
      simp only [reduceCtorEq, false_iff]
      exact fun hq => hnone hq.2

/-! ## What a landed piece completes -/

/-- After a piece has landed, a player's line was there before or passes through the new piece,
which is then the player's. -/
theorem OwnsLine.of_push {b : Board} {i : Nat} {hi : i < b.piles.length} {p q : Player}
    {room : b.piles[i].length < b.size.height} (hq : q ≠ nobody) {l : Line}
    (h : (b.push i hi p room).OwnsLine q l) :
    b.OwnsLine q l ∨ q = p ∧ l.PassesThrough i b.piles[i].length := by
  by_cases hold : b.OwnsLine q l
  · exact Or.inl hold
  · right
    simp only [OwnsLine, not_forall] at hold
    rcases hold with ⟨k, hk, hnot⟩
    rcases (owns_push hq _ _).1 (h k hk) with ⟨rfl, hcolumn, hrow⟩ | howns
    · exact ⟨rfl, k, hk, Prod.ext hcolumn hrow⟩
    · exact absurd howns hnot

/-- A landed piece breaks no line. -/
theorem OwnsLine.push {b : Board} {i : Nat} {p q : Player} (hq : q ≠ nobody) {l : Line}
    (h : b.OwnsLine q l) (hi : i < b.piles.length)
    (room : b.piles[i].length < b.size.height) : (b.push i hi p room).OwnsLine q l :=
  fun k hk => (owns_push hq _ _).2 (Or.inr (h k hk))

end Board

end FourInRow
