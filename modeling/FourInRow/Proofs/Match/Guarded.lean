import FourInRow.Proofs.Board.Guarded
import FourInRow.Proofs.Match.Ending

/-!
# Matches step by step

A match counts its turns in 32 bits, numbers its players in bytes, and finds the row of a new piece
by going down one from the height of its column.  In a match whose turns are as many as its pieces
none of this comes to a fault, and the board never reports an error.

Main results:

- Theorem `Tallied.turn`: turns and pieces remain as many as each other.
- Theorem `Tallied.turns_lt`: the turns of a match can always be counted.
- Theorem `Tallied.turnGuarded_eq`: no attempt at a turn comes to a fault.
-/

namespace FourInRow

namespace Match

open Guard

/-! ## Turns and pieces -/

/-- Has every turn of a match left a piece on its board, and no other piece? -/
def Tallied (m : Match) : Prop := m.turns = m.board.heights.sum

theorem tallied_start (players first : UInt8) (size : Board.Size) :
    (start players first size).Tallied :=
  (Board.sum_heights_empty size).symm

/-- Every attempt keeps turns and pieces as many as each other. -/
theorem Tallied.turn {m m' : Match} {p : Player} {column : UInt8} {r : TurnResult}
    (h : m.Tallied) (hturned : Turned m p column m' r) : m'.Tallied := by
  cases hturned with
  | success hgoing hmover hi room winner hwinner =>
      change m.turns + 1 = (m.board.push column.toNat hi p room).heights.sum
      rw [Board.sum_heights_push, h]
  | _ => exact h

/-- The turns of a match can always be counted, as no board has that many slots. -/
theorem Tallied.turns_lt {m : Match} (h : m.Tallied) : m.turns + 1 < 2 ^ 32 := by
  have hcount := m.board.sum_heights_add_vacancies
  have hslots : m.board.size.width * m.board.size.height ≤ 255 * 255 :=
    Nat.mul_le_mul (Nat.le_of_lt_succ m.board.size.width_lt)
      (Nat.le_of_lt_succ m.board.size.height_lt)
  rw [Tallied] at h
  omega

/-! ## Turns -/

/-- The player whose turn is next; the first player follows the last one. -/
def nextGuarded (m : Match) : Except Fault Player :=
  if m.players ≤ m.current then return firstPlayer else byte (m.current.toNat + 1)

/-- The match after the current player's piece has landed in a column of the given board. -/
def landedGuarded (m : Match) (column : UInt8) (board : Board) : Except Fault Match := do
  let height ← board.heightGuarded column
  let top ← countDown height
  let row ← byte top
  let next ← m.nextGuarded
  let turns ← count 32 (m.turns + 1)
  let winner ← board.lineOwnerGuarded column row
  return { m with
    board := board
    last := some (column, row)
    current := next
    turns := turns
    winner := winner }

/-- A player's attempt to drop a piece into a column. -/
def turnGuarded (m : Match) (p : Player) (column : UInt8) : Except Fault (Match × TurnResult) :=
  if m.isWon then return (m, .gameFinished)
  else if p ≠ m.current then return (m, .wrongPlayer)
  else do
    match ← m.board.dropGuarded column p with
    | .error (.columnOutOfRange _) => return (m, .badColumn)
    | .error e => .error (.failed e)
    | .ok none => return (m, .columnFull)
    | .ok (some board) =>
      let m' ← m.landedGuarded column board
      return (m', .success)

/-- Only a player that is not the last one is followed by the next number. -/
theorem nextGuarded_eq (m : Match) : m.nextGuarded = .ok m.next := by
  unfold nextGuarded next
  split
  · rfl
  · next hlast =>
      have hlt := UInt8.lt_iff_toNat_lt.1 (UInt8.not_le.1 hlast)
      have htop := m.players.toNat_lt
      have hnext : (m.current.toNat : Int) + 1 = ((m.current.toNat + 1 : Nat) : Int) := rfl
      rw [hnext, byte_natCast (by omega), UInt8.ofNat_add, UInt8.ofNat_toNat]
      rfl

/-- A piece that lands can be counted and looked at for lines. -/
theorem Tallied.landedGuarded_eq {m : Match} (h : m.Tallied) {column : UInt8}
    (hi : column.toNat < m.board.piles.length) (p : Player)
    (room : m.board.piles[column.toNat].length < m.board.size.height) :
    ∃ m', m.landed column (m.board.push column.toNat hi p room) = .ok m' ∧
      m.landedGuarded column (m.board.push column.toNat hi p room) = .ok m' := by
  have htop := m.board.size.height_lt
  have hheight := m.board.height_push column hi p room
  have hrow := Board.toNat_ofNat_row room
  have hon := (owns_push_self m.board column hi p room).1
  rw [← hrow] at hon
  rcases Board.lineOwnerGuarded_eq hon with ⟨winner, hwinner, hguarded⟩
  let m' : Match := { m with
    board := m.board.push column.toNat hi p room
    last := some (column, UInt8.ofNat m.board.piles[column.toNat].length)
    current := m.next
    turns := m.turns + 1
    winner := winner }
  refine ⟨m', ?_, ?_⟩
  · rw [landed, hheight]
    simp only [bind, Except.bind, pure, Except.pure, findWinner, Nat.add_sub_cancel, hwinner]
    rfl
  · rw [landedGuarded, Board.heightGuarded_eq hheight, ok_bind, countDown_eq_ok (by omega),
      ok_bind, Nat.add_sub_cancel, byte_natCast (by omega), ok_bind, nextGuarded_eq, ok_bind,
      count_eq_ok h.turns_lt, ok_bind, hguarded, ok_bind, pure_eq_ok]

/-- No attempt at a turn comes to a fault. -/
theorem Tallied.turnGuarded_eq {m : Match} (h : m.Tallied) (p : Player) (column : UInt8) :
    ∃ m' r, m.turn p column = .ok (m', r) ∧ m.turnGuarded p column = .ok (m', r) := by
  unfold Match.turn Match.turnGuarded
  by_cases hwon : m.isWon = true
  · exact ⟨m, .gameFinished, by rw [if_pos hwon], by rw [if_pos hwon, pure_eq_ok]⟩
  · rw [if_neg hwon, if_neg hwon]
    by_cases hother : p ≠ m.current
    · exact ⟨m, .wrongPlayer, by rw [if_pos hother], by rw [if_pos hother, pure_eq_ok]⟩
    · rw [if_neg hother, if_neg hother, Board.dropGuarded_eq, ok_bind]
      by_cases hi : column.toNat < m.board.piles.length
      · by_cases room : m.board.piles[column.toNat].length < m.board.size.height
        · rcases h.landedGuarded_eq hi p room with ⟨m', hlanded, hguarded⟩
          refine ⟨m', .success, ?_, ?_⟩
          · rw [Board.drop, dif_pos hi, dif_pos room]
            simp only [hlanded]
          · rw [Board.drop, dif_pos hi, dif_pos room]
            simp only [hguarded, ok_bind, pure_eq_ok]
        · rw [Board.drop, dif_pos hi, dif_neg room]
          exact ⟨m, .columnFull, rfl, rfl⟩
      · rw [Board.drop, dif_neg hi]
        exact ⟨m, .badColumn, rfl, rfl⟩

end Match

end FourInRow
