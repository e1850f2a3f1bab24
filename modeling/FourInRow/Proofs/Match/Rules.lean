import FourInRow.Proofs.Match.Rotation

/-!
# Breaches of the rules

An attempt at a turn is answered by the first rule that it breaks: a match that is won, another
player's turn, a column that is missing or full.  No attempt makes a match fail, and one that
breaks a rule leaves no trace.

Main results:

- Theorem `Turned.ruled`: an attempt is answered as the rules say.
- Theorem `turn_ruled`: in every match that can come about, every attempt is answered so, and only
  a success changes the match.
-/

namespace FourInRow

namespace Match

/-- Is this the answer that the rules have for an attempt of a player at a column? -/
structure Ruled (m : Match) (p : Player) (column : UInt8) (r : TurnResult) : Prop where
  ne_error : r ≠ .error
  gameFinished_iff : r = .gameFinished ↔ m.winner ≠ none
  wrongPlayer_iff : r = .wrongPlayer ↔ m.winner = none ∧ p ≠ m.current
  badColumn_iff : r = .badColumn ↔
    m.winner = none ∧ p = m.current ∧ m.board.size.columns ≤ column
  columnFull_iff : r = .columnFull ↔
    m.winner = none ∧ p = m.current ∧ column < m.board.size.columns ∧
      m.board.height column = .ok m.board.size.rows.toNat
  success_iff : r = .success ↔
    m.winner = none ∧ p = m.current ∧ column < m.board.size.columns ∧
      m.board.height column ≠ .ok m.board.size.rows.toNat

/-- A match is going on as long as nobody has won. -/
theorem isWon_eq_false_iff {m : Match} : m.isWon = false ↔ m.winner = none := by
  simp [isWon]

/-- An attempt is answered as the rules say. -/
theorem Turned.ruled {m m' : Match} {p : Player} {column : UInt8} {r : TurnResult}
    (h : Turned m p column m' r) : Ruled m p column r := by
  cases h with
  | gameFinished hwon =>
      have hwinner : m.winner ≠ none := by simpa [isWon, Option.isSome_iff_ne_none] using hwon
      constructor <;> simp [hwinner]
  | wrongPlayer hgoing hother =>
      rw [isWon_eq_false_iff] at hgoing
      constructor <;> simp [hgoing, hother]
  | badColumn hgoing hmover hmissing =>
      rw [isWon_eq_false_iff] at hgoing
      have hle : m.board.size.columns ≤ column :=
        UInt8.not_lt.1 fun hlt => (not_lt.2 hmissing) ((m.board.lt_length_piles_iff column).2 hlt)
      constructor <;> simp [hgoing, hmover, hle]
  | columnFull hgoing hmover hi hfull =>
      rw [isWon_eq_false_iff] at hgoing
      have hlt := (m.board.lt_length_piles_iff column).1 hi
      have hheight : m.board.height column = .ok m.board.size.rows.toNat := by
        rw [Board.height_eq_ok hi, hfull]
        rfl
      constructor <;> simp [hgoing, hmover, hlt, hheight]
  | success hgoing hmover hi room =>
      rw [isWon_eq_false_iff] at hgoing
      have hlt := (m.board.lt_length_piles_iff column).1 hi
      have hheight : m.board.height column ≠ .ok m.board.size.rows.toNat := by
        rw [Board.height_eq_ok hi]
        exact fun heq => room.ne (Except.ok.inj heq)
      constructor <;> simp [hgoing, hmover, hlt, hheight]

/-- A match that has been started is answered with, after any attempts of any players at any
columns, and a further attempt never makes it fail.  The answer to that attempt is the first rule
that it breaks, if it breaks any, and then the match stays as it is. -/
theorem turn_ruled (players first : UInt8) (size : Board.Size) (calls : List (Player × UInt8)) :
    ∃ m₀ m results,
      Match.new players first size.columns size.rows = .ok m₀ ∧
      m₀.attempts calls = .ok (m, results) ∧ m.board.size = size ∧
      ∀ p column, ∃ m' r, m.turn p column = .ok (m', r) ∧ Ruled m p column r ∧
        (r ≠ .success → m' = m) := by
  rcases (sound_start players first size).attempts calls with ⟨m, results, hattempts, -⟩
  refine ⟨_, m, results, new_eq_ok players first size, hattempts, size_of_attempts hattempts,
    fun p column => ?_⟩
  rcases m.turn_eq_ok p column with ⟨m', r, hturn, hturned⟩
  exact ⟨m', r, hturn, hturned.ruled, hturned.eq_of_ne_success⟩

end Match

end FourInRow
