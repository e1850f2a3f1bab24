import FourInRow.Proofs.Bot.Mirror
import FourInRow.Proofs.Match.Rotation

/-!
# The record of a match

Among the attempts at turns only those that are answered with success count: a match is where it
would be if nobody had attempted anything else.  So the list of these moves is a full record of the
match, from which the number of turns, the player to move, the board and the newest piece can be
read off.

Main results:

- Theorem `Recorded.turn`: an attempt adds itself to the record exactly if it succeeds.
- Theorem `Recorded.attempts`: so does every sequence of attempts.
- Theorem `recorded_accepted`: every match is told by the record of its accepted moves.
-/

namespace FourInRow

namespace Board

/-! ## Counting pieces -/

/-- The heights of the columns, left to right. -/
def heights (b : Board) : List Nat := b.piles.map List.length

theorem sum_heights_empty (size : Size) : (empty size).heights.sum = 0 := by
  simp [heights, empty]

/-- A piece adds one to the height of its column. -/
theorem heights_push (b : Board) (i : Nat) (hi : i < b.piles.length) (p : Player)
    (room : b.piles[i].length < b.size.height) :
    (b.push i hi p room).heights = b.heights.set i (b.piles[i].length + 1) := by
  simp [heights, push, List.map_set]

theorem sum_heights_push (b : Board) (i : Nat) (hi : i < b.piles.length) (p : Player)
    (room : b.piles[i].length < b.size.height) :
    (b.push i hi p room).heights.sum = b.heights.sum + 1 := by
  have hlt : i < b.heights.length := by simpa [heights] using hi
  have hget : b.heights[i] = b.piles[i].length := by simp [heights]
  have hsplit := List.sum_take_add_sum_drop b.heights i
  rw [List.drop_eq_getElem_cons hlt, List.sum_cons, hget] at hsplit
  rw [heights_push, List.sum_set, if_pos hlt]
  omega

/-- A further piece that lands comes after the others. -/
theorem dropAll_concat {b b' b'' : Board} {moves : List (UInt8 × Player)}
    {landed : List (Except Error Bool)} {column : UInt8} {p : Player}
    (h : b.dropAll moves = (b', landed)) (hdrop : b'.drop column p = .ok (some b'')) :
    b.dropAll (moves ++ [(column, p)]) = (b'', landed ++ [.ok true]) := by
  induction moves generalizing b landed with
  | nil =>
      cases h
      simp [dropAll, hdrop]
  | cons move moves ih =>
      rcases move with ⟨c, q⟩
      simp only [dropAll, Prod.mk.injEq] at h
      rcases h with ⟨hboard, rfl⟩
      simp only [List.cons_append, dropAll, ih (Prod.ext hboard rfl)]

end Board

namespace Match

/-! ## Records -/

/-- The attempts that were answered with success. -/
def accepted (calls : List (Player × UInt8)) (results : List TurnResult) :
    List (Player × UInt8) :=
  ((calls.zip results).filter fun attempt => attempt.2 = .success).map Prod.fst

theorem accepted_cons (call : Player × UInt8) (calls : List (Player × UInt8)) (r : TurnResult)
    (results : List TurnResult) :
    accepted (call :: calls) (r :: results) = accepted [call] [r] ++ accepted calls results := by
  by_cases hr : r = .success
  · simp [accepted, hr]
  · simp [accepted, hr]

/-- Do these moves tell how the first match has become the second one? -/
structure Recorded (m₀ m : Match) (moves : List (Player × UInt8)) : Prop where
  players_eq : m.players = m₀.players
  /-- Every turn is on the record. -/
  turns_eq : m.turns = moves.length
  /-- Every piece on the board is on the record. -/
  sum_heights_eq : m.board.heights.sum = moves.length
  /-- The players have moved in rotation. -/
  mover_eq : ∀ j (hj : j < moves.length),
    moves[j].1.toNat = (m₀.current.toNat - 1 + j) % m₀.players.toNat + 1
  /-- It is the turn of the player to whom the rotation has come. -/
  current_eq :
    m.current.toNat = (m₀.current.toNat - 1 + moves.length) % m₀.players.toNat + 1
  /-- All pieces of the record land one after another, and make up the board. -/
  dropAll_eq : m₀.board.dropAll (moves.map Prod.swap) =
    (m.board, List.replicate moves.length (.ok true))
  last_eq_none : moves = [] → m.last = none
  /-- The newest piece lies on top of the newest move's column and is the newest mover's. -/
  last_eq_some : ∀ earlier p column, moves = earlier ++ [(p, column)] →
    ∃ row, m.last = some (column, row) ∧ m.board.height column = .ok (row.toNat + 1) ∧
      m.board.owner column row = .ok p
  /-- The record alone leads to the same match. -/
  replay : m₀.attempts moves = .ok (m, List.replicate moves.length .success)

/-- The record of a match that has just begun is empty. -/
theorem recorded_start (players first : UInt8) (size : Board.Size) :
    Recorded (start players first size) (start players first size) [] where
  players_eq := rfl
  turns_eq := rfl
  sum_heights_eq := Board.sum_heights_empty size
  mover_eq j hj := absurd hj (Nat.not_lt_zero j)
  current_eq := (sound_start players first size).inRotation_current rfl
  dropAll_eq := rfl
  last_eq_none _ := rfl
  last_eq_some earlier p column h := by simp at h
  replay := rfl

/-- The newest piece lies on top of its column and is the mover's. -/
theorem owner_push_self (b : Board) (column : UInt8) (hi : column.toNat < b.piles.length)
    (p : Player) (room : b.piles[column.toNat].length < b.size.height) :
    (b.push column.toNat hi p room).owner column (UInt8.ofNat b.piles[column.toNat].length) =
      .ok p := by
  have howner := (owns_push_self b column hi p room).2
  rwa [Int.toNat_natCast, Int.toNat_natCast, UInt8.ofNat_toNat] at howner

/-- An attempt that succeeds is a further move on the record. -/
theorem Recorded.success {m₀ m m' : Match} {moves : List (Player × UInt8)} {p : Player}
    {column : UInt8} (h : Recorded m₀ m moves) (hs : m.Sound)
    (hturned : Turned m p column m' .success) :
    Recorded m₀ m' (moves ++ [(p, column)]) := by
  have hreplay := attempts_concat h.replay hturned
  cases hturned with
  | success hgoing hmover hi room winner hwinner =>
      refine
        { players_eq := h.players_eq
          turns_eq := ?_
          sum_heights_eq := ?_
          mover_eq := fun j hj => ?_
          current_eq := ?_
          dropAll_eq := ?_
          last_eq_none := fun hnil => by simp at hnil
          last_eq_some := fun earlier q c hmoves => ?_
          replay := ?_ }
      · simp [h.turns_eq]
      · simp [Board.sum_heights_push, h.sum_heights_eq]
      · rw [List.getElem_append]
        split
        · next hold => exact h.mover_eq j hold
        · next hnew =>
            have hj' : j = moves.length := by
              simp only [List.length_append, List.length_singleton] at hj
              omega
            simp only [List.getElem_singleton]
            rw [hmover, h.current_eq, hj']
      · change m.next.toNat = _
        rw [hs.toNat_next, h.players_eq, h.current_eq, Nat.mod_add_mod, List.length_append,
          List.length_singleton, Nat.add_assoc]
      · have hdrop : m.board.drop column p = .ok (some (m.board.push column.toNat hi p room)) :=
          Board.drop_eq_ok_some_iff.2 ⟨hi, room, rfl⟩
        rw [List.map_append, List.length_append, List.length_singleton, List.replicate_succ']
        exact Board.dropAll_concat h.dropAll_eq hdrop
      · have hlast := (List.append_inj' hmoves rfl).2
        cases hlast
        refine ⟨_, rfl, ?_, owner_push_self m.board column hi p room⟩
        rw [Board.toNat_ofNat_row room]
        exact Board.height_push m.board column hi p room
      · rw [hreplay, List.length_append, List.length_singleton, List.replicate_succ']

/-- An attempt adds itself to the record exactly if it succeeds. -/
theorem Recorded.turn {m₀ m m' : Match} {moves : List (Player × UInt8)} {p : Player}
    {column : UInt8} {r : TurnResult} (h : Recorded m₀ m moves) (hs : m.Sound)
    (hturned : Turned m p column m' r) :
    Recorded m₀ m' (moves ++ accepted [(p, column)] [r]) := by
  by_cases hr : r = .success
  · subst hr
    exact h.success hs hturned
  · rw [hturned.eq_of_ne_success hr]
    simpa [accepted, hr] using h

/-- A sequence of attempts adds the successful ones to the record, in order. -/
theorem Recorded.attempts {m₀ m m' : Match} {moves : List (Player × UInt8)}
    {calls : List (Player × UInt8)} {results : List TurnResult} (h : Recorded m₀ m moves)
    (hs : m.Sound) (hattempts : m.attempts calls = .ok (m', results)) :
    results.length = calls.length ∧ Recorded m₀ m' (moves ++ accepted calls results) := by
  induction calls generalizing m moves results with
  | nil =>
      cases hattempts
      exact ⟨rfl, by simpa [accepted] using h⟩
  | cons call calls ih =>
      rcases call with ⟨p, column⟩
      rcases of_attempts_cons hattempts with ⟨m₁, r, rest, rfl, hturned, hrest⟩
      rcases ih (h.turn hs hturned) (hs.turn hturned) hrest with ⟨hlength, hrecorded⟩
      refine ⟨congrArg Nat.succ hlength, ?_⟩
      rwa [List.append_assoc, ← accepted_cons] at hrecorded

/-- A match that has been started is answered with, after any attempts of any players at any
columns: the attempts that were answered with success are a full record of it.  They tell the
number of turns and of pieces, who moved when and who is to move, what lies where and what landed
last; and a match in which nothing else is attempted is the same match. -/
theorem recorded_accepted (players first : UInt8) (size : Board.Size)
    (calls : List (Player × UInt8)) :
    ∃ m₀ m results,
      Match.new players first size.columns size.rows = .ok m₀ ∧
      m₀.players = max players minPlayers ∧
      m₀.current = (if firstPlayer ≤ first ∧ first ≤ m₀.players then first else firstPlayer) ∧
      m₀.board = Board.empty size ∧
      m₀.attempts calls = .ok (m, results) ∧ results.length = calls.length ∧
      Recorded m₀ m (accepted calls results) := by
  have hsound := sound_start players first size
  rcases hsound.attempts calls with ⟨m, results, hattempts, -⟩
  rcases (recorded_start players first size).attempts hsound hattempts with ⟨hlength, hrecorded⟩
  exact ⟨_, m, results, new_eq_ok players first size, rfl, rfl, rfl, hattempts, hlength,
    hrecorded⟩

/-- Attempts out of turn and at missing columns leave no trace on the record. -/
example :
    ((start 2 1 ⟨5, 4, by decide, by decide, by decide⟩).attempts
        [(1, 3), (1, 3), (2, 9), (2, 3)]).map
        (fun answer => accepted [(1, 3), (1, 3), (2, 9), (2, 3)] answer.2) =
      .ok [(1, 3), (2, 3)] := by
  decide +kernel

end Match

end FourInRow
