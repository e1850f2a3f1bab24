import FourInRow.Match.Basic
import FourInRow.Proofs.Board.Scan

/-!
# What a turn can do

`Match.Turned` lists everything that an attempt at a turn can come to, with the guards that lead
there.  Every later statement about turns is a case analysis over it.

Main results:

- Theorem `turn_eq_ok`: an attempt always has an outcome, whatever the match and the arguments.
- Theorem `Turned.of_turn`: the outcome is the one that `Turned` describes.
-/

namespace FourInRow

namespace Match

/-- The outcomes of an attempt of a player at a column. -/
inductive Turned (m : Match) (p : Player) (column : UInt8) : Match → TurnResult → Prop
  /-- The match is won already. -/
  | gameFinished (hwon : m.isWon = true) : Turned m p column m .gameFinished
  /-- It is another player's turn. -/
  | wrongPlayer (hgoing : m.isWon = false) (hother : p ≠ m.current) :
      Turned m p column m .wrongPlayer
  /-- There is no such column. -/
  | badColumn (hgoing : m.isWon = false) (hmover : p = m.current)
      (hmissing : m.board.piles.length ≤ column.toNat) : Turned m p column m .badColumn
  /-- The column has no room. -/
  | columnFull (hgoing : m.isWon = false) (hmover : p = m.current)
      (hi : column.toNat < m.board.piles.length)
      (hfull : m.board.piles[column.toNat].length = m.board.size.height) :
      Turned m p column m .columnFull
  /-- The piece lands.  The mover wins exactly if a line of its own passes through the piece. -/
  | success (hgoing : m.isWon = false) (hmover : p = m.current)
      (hi : column.toNat < m.board.piles.length)
      (room : m.board.piles[column.toNat].length < m.board.size.height)
      (winner : Option Player)
      (hwinner : ∀ q, winner = some q ↔ q = p ∧ ∃ l : Board.Line,
        l.PassesThrough column.toNat m.board.piles[column.toNat].length ∧
          (m.board.push column.toNat hi p room).OwnsLine p l) :
      Turned m p column
        { m with
          board := m.board.push column.toNat hi p room
          last := some (column, UInt8.ofNat m.board.piles[column.toNat].length)
          current := m.next
          turns := m.turns + 1
          winner := winner } .success

/-- The mover owns the slot where its piece has landed. -/
theorem owns_push_self (b : Board) (column : UInt8) (hi : column.toNat < b.piles.length)
    (p : Player) (room : b.piles[column.toNat].length < b.size.height) :
    (b.push column.toNat hi p room).Owns p column.toNat b.piles[column.toNat].length := by
  have hon : (b.push column.toNat hi p room).contains column.toNat
      b.piles[column.toNat].length = true := by
    rw [Board.contains_iff, Board.size_push]
    have := b.length_piles
    omega
  refine ⟨hon, ?_⟩
  rw [Board.owner_of_contains hon, Int.toNat_natCast, Int.toNat_natCast, Board.piece?_push,
    if_pos ⟨rfl, rfl⟩]
  rfl

/-- A landed piece is looked at for lines, which never fails. -/
theorem landed_eq_ok (m : Match) (column : UInt8)
    (hi : column.toNat < m.board.piles.length) (p : Player)
    (room : m.board.piles[column.toNat].length < m.board.size.height) :
    ∃ winner : Option Player,
      m.landed column (m.board.push column.toNat hi p room) = .ok
        { m with
          board := m.board.push column.toNat hi p room
          last := some (column, UInt8.ofNat m.board.piles[column.toNat].length)
          current := m.next
          turns := m.turns + 1
          winner := winner } ∧
      ∀ q, winner = some q ↔ q = p ∧ ∃ l : Board.Line,
        l.PassesThrough column.toNat m.board.piles[column.toNat].length ∧
          (m.board.push column.toNat hi p room).OwnsLine p l := by
  have hrow := Board.toNat_ofNat_row room
  have howns := owns_push_self m.board column hi p room
  rw [← hrow] at howns
  rcases Board.lineOwner_eq_ok howns with ⟨winner, hwinner, hiff⟩
  rw [hrow] at hiff
  refine ⟨winner, ?_, hiff⟩
  rw [landed, Board.height_push]
  simp [bind, Except.bind, pure, Except.pure, findWinner, hwinner]

/-- An attempt always has an outcome, and `Turned` describes it. -/
theorem turn_eq_ok (m : Match) (p : Player) (column : UInt8) :
    ∃ m' r, m.turn p column = .ok (m', r) ∧ Turned m p column m' r := by
  unfold turn
  by_cases hwon : m.isWon = true
  · exact ⟨m, _, by rw [if_pos hwon], .gameFinished hwon⟩
  · rw [if_neg hwon]
    have hgoing := Bool.eq_false_iff.2 hwon
    by_cases hother : p ≠ m.current
    · exact ⟨m, _, by rw [if_pos hother], .wrongPlayer hgoing hother⟩
    · rw [if_neg hother]
      have hmover := not_not.1 hother
      by_cases hi : column.toNat < m.board.piles.length
      · by_cases room : m.board.piles[column.toNat].length < m.board.size.height
        · rcases m.landed_eq_ok column hi p room with ⟨winner, hlanded, hwinner⟩
          refine ⟨_, _, ?_, .success hgoing hmover hi room winner hwinner⟩
          rw [Board.drop, dif_pos hi, dif_pos room]
          simp only [hlanded]
        · have hle := m.board.length_le _ (List.getElem_mem hi)
          refine ⟨m, _, ?_, .columnFull hgoing hmover hi (by omega)⟩
          rw [Board.drop, dif_pos hi, dif_neg room]
      · refine ⟨m, _, ?_, .badColumn hgoing hmover (by omega)⟩
        rw [Board.drop, dif_neg hi]

/-- The outcome of an attempt is one that `Turned` describes. -/
theorem Turned.of_turn {m m' : Match} {p : Player} {column : UInt8} {r : TurnResult}
    (h : m.turn p column = .ok (m', r)) : Turned m p column m' r := by
  rcases m.turn_eq_ok p column with ⟨m'', r', hok, hturned⟩
  rw [h] at hok
  cases hok
  exact hturned

/-- An attempt that breaks a rule leaves the match as it was. -/
theorem Turned.eq_of_ne_success {m m' : Match} {p : Player} {column : UInt8} {r : TurnResult}
    (h : Turned m p column m' r) (hr : r ≠ .success) : m' = m := by
  cases h with
  | success => exact absurd rfl hr
  | _ => rfl

end Match

end FourInRow
