import FourInRow.Proofs.Match.Record
import FourInRow.Proofs.Match.Rules

/-!
# Every match comes to an end

A turn that succeeds takes up one of the slots that are still empty, and nothing else does.  As
long as nobody has won and there is an empty slot the player to move has a column to move in.  So
a match neither gets stuck nor goes on for ever.

Main results:

- Theorem `sum_heights_add_vacancies`: pieces and empty slots make up the board.
- Theorem `Recorded.turns_add_vacancies`: in a match every turn has taken up one slot.
- Theorem `exists_success_iff`: somebody can move exactly if the match is not over.
- Theorem `Recorded.exists_ending`: every match can be played to its end.
- Theorem `turns_bounded`: how long a match can go on, and how it ends.
-/

namespace FourInRow

namespace Board

/-! ## Empty slots -/

/-- The number of slots that are still empty. -/
def vacancies (b : Board) : Nat := (b.piles.map fun s => b.size.height - s.length).sum

/-- Pieces and empty slots make up the board. -/
theorem sum_heights_add_vacancies (b : Board) :
    b.heights.sum + b.vacancies = b.size.width * b.size.height := by
  have hpile : ∀ s ∈ b.piles, s.length + (b.size.height - s.length) = b.size.height :=
    fun s hs => Nat.add_sub_of_le (b.length_le s hs)
  rw [heights, vacancies, ← List.sum_map_add, List.map_congr_left hpile, List.map_const',
    List.sum_replicate, b.length_piles, smul_eq_mul]

/-- A board is full exactly if no slot is empty. -/
theorem vacancies_eq_zero_iff (b : Board) : b.vacancies = 0 ↔ b.isFull = true := by
  rw [vacancies, List.sum_eq_zero_iff, isFull, List.all_eq_true]
  constructor
  · intro h s hs
    have hzero := h _ (List.mem_map_of_mem hs)
    have hle := b.length_le s hs
    rw [beq_iff_eq]
    omega
  · intro h n hn
    rcases List.mem_map.1 hn with ⟨s, hs, rfl⟩
    have hfull := beq_iff_eq.1 (h s hs)
    omega

end Board

namespace Match

/-! ## Who can move -/

/-- Somebody can move exactly if the match is not over, and then it is the player whose turn it
is. -/
theorem exists_success_iff (m : Match) :
    (∃ column m', m.turn m.current column = .ok (m', .success)) ↔
      m.winner = none ∧ m.isFull = false := by
  constructor
  · rintro ⟨column, m', hturn⟩
    cases Turned.of_turn hturn with
    | success hgoing hmover hi room =>
        refine ⟨isWon_eq_false_iff.1 hgoing, ?_⟩
        rw [isFull, Board.isFull, List.all_eq_false]
        exact ⟨_, List.getElem_mem hi, by simpa using room.ne⟩
  · rintro ⟨hwinner, hroom⟩
    rcases List.exists_mem_of_ne_nil _ (Board.openColumns_ne_nil hroom) with ⟨column, hcolumn⟩
    rcases Board.mem_openColumns_iff.1 hcolumn with ⟨hi, room⟩
    rcases m.turn_eq_ok m.current column with ⟨m', r, hturn, hturned⟩
    have hheight : m.board.height column ≠ .ok m.board.size.rows.toNat := by
      rw [Board.height_eq_ok hi]
      exact fun heq => room.ne (Except.ok.inj heq)
    have hsuccess : r = .success := hturned.ruled.success_iff.2
      ⟨hwinner, rfl, (m.board.lt_length_piles_iff column).1 hi, hheight⟩
    exact ⟨column, m', hsuccess ▸ hturn⟩

/-- A match in which nobody can move is over. -/
theorem winner_or_full_of_stuck {m : Match}
    (h : ∀ p column m', m.turn p column ≠ .ok (m', .success)) :
    m.winner ≠ none ∨ m.isFull = true := by
  by_contra hgoing
  rw [not_or, not_not, Bool.not_eq_true] at hgoing
  rcases m.exists_success_iff.2 hgoing with ⟨column, m', hturn⟩
  exact h m.current column m' hturn

/-! ## Turns and slots -/

/-- If every attempt succeeds all of them count. -/
theorem accepted_replicate (moves : List (Player × UInt8)) :
    accepted moves (List.replicate moves.length .success) = moves := by
  induction moves with
  | nil => rfl
  | cons move moves ih =>
      rw [List.length_cons, List.replicate_succ, accepted_cons, ih]
      rfl

variable {m₀ m m' : Match} {record moves : List (Player × UInt8)}

/-- In a match every turn has taken up one slot. -/
theorem Recorded.turns_add_vacancies (h : Recorded m₀ m record) :
    m.turns + m.board.vacancies = m.board.size.width * m.board.size.height := by
  rw [← Board.sum_heights_add_vacancies, h.turns_eq, h.sum_heights_eq]

/-- All slots have been taken up exactly if the board is full. -/
theorem Recorded.turns_eq_iff_isFull (h : Recorded m₀ m record) :
    m.turns = m.board.size.width * m.board.size.height ↔ m.isFull = true := by
  rw [isFull, ← Board.vacancies_eq_zero_iff, ← h.turns_add_vacancies, Nat.left_eq_add]

/-- Moves that all succeed are further moves on the record. -/
theorem Recorded.played (h : Recorded m₀ m record) (hs : m.Sound)
    (hmoves : m.attempts moves = .ok (m', List.replicate moves.length .success)) :
    Recorded m₀ m' (record ++ moves) := by
  have hrecorded := (h.attempts hs hmoves).2
  rwa [accepted_replicate] at hrecorded

/-- Every match can be played to its end, by moves that all succeed. -/
theorem Recorded.exists_ending (h : Recorded m₀ m record) (hs : m.Sound) :
    ∃ moves m', m.attempts moves = .ok (m', List.replicate moves.length .success) ∧
      m'.isOver = true := by
  -- with every move there is one slot less that is empty
  induction hvacant : m.board.vacancies using Nat.strong_induction_on generalizing m record with
  | _ n ih =>
      by_cases hover : m.isOver = true
      · exact ⟨[], m, rfl, hover⟩
      · rw [Bool.not_eq_true, isOver, Bool.or_eq_false_iff, isWon_eq_false_iff] at hover
        rcases m.exists_success_iff.2 hover with ⟨column, m₁, hturn⟩
        have hturned := Turned.of_turn hturn
        have hnext := h.success hs hturned
        have hless : m₁.board.vacancies < n := by
          have hbefore := h.turns_add_vacancies
          have hafter := hnext.turns_add_vacancies
          rw [hnext.turns_eq, List.length_append, ← h.turns_eq, List.length_singleton] at hafter
          cases hturned with
          | success =>
              change m.turns + 1 + _ = m.board.size.width * m.board.size.height at hafter
              omega
        rcases ih _ hless hnext (hs.turn hturned) rfl with ⟨moves, m', hmoves, hover'⟩
        exact ⟨(m.current, column) :: moves, m', attempts_cons hturned hmoves, hover'⟩

/-- A match that has been started is answered with, after any attempts of any players at any
columns: there have been as many turns as there are slots at most, and as many exactly if the board
is full.  Somebody can move as long as nobody has won and the board is not full.  However the match
goes on, there cannot be more turns than slots; it is stuck only when it is won or the board is
full; and it can be played until it is over. -/
theorem turns_bounded (players first : UInt8) (size : Board.Size)
    (calls : List (Player × UInt8)) :
    ∃ m₀ m results,
      Match.new players first size.columns size.rows = .ok m₀ ∧
      m₀.attempts calls = .ok (m, results) ∧
      m.turns ≤ size.width * size.height ∧
      (m.turns = size.width * size.height ↔ m.isFull = true) ∧
      ((∃ column m', m.turn m.current column = .ok (m', .success)) ↔
        m.winner = none ∧ m.isFull = false) ∧
      (∀ moves m', m.attempts moves = .ok (m', List.replicate moves.length .success) →
        m'.turns = m.turns + moves.length ∧ m'.turns ≤ size.width * size.height ∧
        ((∀ p column m'', m'.turn p column ≠ .ok (m'', .success)) →
          m'.winner ≠ none ∨ m'.isFull = true)) ∧
      ∃ moves m', m.attempts moves = .ok (m', List.replicate moves.length .success) ∧
        m'.isOver = true := by
  have hstart := sound_start players first size
  rcases hstart.attempts calls with ⟨m, results, hattempts, hs⟩
  have hrecorded := ((recorded_start players first size).attempts hstart hattempts).2
  have hsize : m.board.size = size := size_of_attempts hattempts
  have hcount := hrecorded.turns_add_vacancies
  have hfull := hrecorded.turns_eq_iff_isFull
  rw [hsize] at hcount hfull
  refine ⟨_, m, results, new_eq_ok players first size, hattempts, by omega, hfull,
    m.exists_success_iff, fun moves m' hmoves => ⟨?_, ?_, winner_or_full_of_stuck⟩,
    hrecorded.exists_ending hs⟩
  · rw [(hrecorded.played hs hmoves).turns_eq, hrecorded.turns_eq, List.length_append]
  · have hcount' := (hrecorded.played hs hmoves).turns_add_vacancies
    rw [size_of_attempts hmoves, hsize] at hcount'
    omega

/-- Two players fill a board of twenty slots row by row, and nobody wins. -/
example :
    ((start 2 1 ⟨5, 4, by decide, by decide, by decide⟩).play
        (List.replicate 4 [0, 2, 1, 3, 4]).flatten).map
      (fun answer => (answer.1.turns, answer.1.isFull, answer.1.winner)) =
        .ok (20, true, none) := by
  decide +kernel

end Match

end FourInRow
