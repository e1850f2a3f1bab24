import FourInRow.Proofs.Match.Turn

/-!
# Who has won

A match looks for a winner only along the lines through the newest piece.  This module shows
that nothing is missed: in every match that can come about, the winner it names is the player
that a scan of the whole board finds.

Main results:

- Theorem `Sound.turn`: every attempt keeps what a match knows about its lines.
- Theorem `Sound.attempts`: so does every sequence of attempts.
- Theorem `winner_eq_some_iff_hasLine`: the winner of a match is the owner of a line on its
  board, from the turn on that completes the first line.
-/

namespace FourInRow

namespace Match

/-- What a match keeps true while it is played. -/
structure Sound (m : Match) : Prop where
  current_ne_nobody : m.current ≠ nobody
  current_le_players : m.current ≤ m.players
  /-- The winner is the player that owns a line. -/
  winner_iff : ∀ p, m.winner = some p ↔ p ≠ nobody ∧ m.board.HasLine p
  /-- Every line passes through the newest piece. -/
  passes_last : ∀ p l, p ≠ nobody → m.board.OwnsLine p l →
    ∃ column row, m.last = some (column, row) ∧ l.PassesThrough column.toNat row.toNat

/-! ## Before the first turn -/

theorem le_max_of_le {p players : UInt8} (h : p ≤ players) : p ≤ max players minPlayers := by
  change p ≤ if players ≤ minPlayers then minPlayers else players
  split
  · next hle => exact UInt8.le_trans h hle
  · exact h

theorem firstPlayer_le_max (players : UInt8) : firstPlayer ≤ max players minPlayers := by
  change firstPlayer ≤ if players ≤ minPlayers then minPlayers else players
  split
  · decide
  · next h =>
      exact UInt8.le_trans (by decide) (UInt8.le_of_lt (UInt8.not_le.1 h))

theorem sound_start (players first : UInt8) (size : Board.Size) :
    (start players first size).Sound where
  current_ne_nobody := by
    simp only [start]
    split
    · next h =>
        rintro rfl
        exact absurd h.1 (by decide)
    · decide
  current_le_players := by
    simp only [start]
    split
    · next h => exact h.2
    · exact firstPlayer_le_max players
  winner_iff p := by
    constructor
    · intro h
      cases h
    · rintro ⟨hp, hline⟩
      exact absurd hline (Board.not_hasLine_empty hp)
  passes_last p l hp hline := by
    exact absurd ((Board.hasLine_iff _ p).2 ⟨l, hline⟩) (Board.not_hasLine_empty hp)

/-- A match that has just begun is not over. -/
theorem isOver_start (players first : UInt8) (size : Board.Size) :
    (start players first size).isOver = false := by
  have hwidth : 0 < size.width := by
    have := size.four_le_height
    have := size.height_lt_width
    omega
  have hroom : size.height ≠ 0 := by
    have := size.four_le_height
    omega
  simp only [isOver, isWon, isFull, start, Board.isFull, Board.empty, Option.isSome_none,
    Bool.false_or, List.all_replicate, List.length_nil]
  simp [hwidth.ne', hroom.symm]

/-! ## Turn by turn -/

/-- Nobody owns a line as long as a match is not won. -/
theorem Sound.not_hasLine {m : Match} (h : m.Sound) (hgoing : m.isWon = false) {p : Player}
    (hp : p ≠ nobody) : ¬ m.board.HasLine p := by
  intro hline
  have hwinner := (h.winner_iff p).2 ⟨hp, hline⟩
  simp [isWon, hwinner] at hgoing

/-- The next player takes part. -/
theorem next_ne_nobody {m : Match} : m.next ≠ nobody := by
  unfold next
  split
  · decide
  · next h =>
      intro hzero
      have hlt : m.current.toNat < m.players.toNat := by
        rw [← UInt8.lt_iff_toNat_lt]
        exact UInt8.not_le.1 h
      have htop := m.players.toNat_lt
      have := congrArg UInt8.toNat hzero
      rw [UInt8.toNat_add] at this
      simp only [UInt8.reduceToNat, nobody] at this
      omega

theorem Sound.next_le_players {m : Match} (h : m.Sound) : m.next ≤ m.players := by
  unfold next
  split
  · next hle =>
      refine UInt8.le_trans ?_ h.current_le_players
      rw [UInt8.le_iff_toNat_le]
      have hpos : m.current.toNat ≠ 0 := fun hzero =>
        h.current_ne_nobody (UInt8.toNat_inj.1 hzero)
      exact Nat.one_le_iff_ne_zero.2 hpos
  · next hlt =>
      have hlt' : m.current.toNat < m.players.toNat := by
        rw [← UInt8.lt_iff_toNat_lt]
        exact UInt8.not_le.1 hlt
      have htop := m.players.toNat_lt
      rw [UInt8.le_iff_toNat_le, UInt8.toNat_add]
      simp only [UInt8.reduceToNat]
      omega

/-- Every attempt keeps what a match knows about its lines. -/
theorem Sound.turn {m m' : Match} {p : Player} {column : UInt8} {r : TurnResult}
    (h : m.Sound) (hturned : Turned m p column m' r) : m'.Sound := by
  cases hturned with
  | gameFinished => exact h
  | wrongPlayer => exact h
  | badColumn => exact h
  | columnFull => exact h
  | success hgoing hmover hi room winner hwinner =>
      -- there was no line before, so every line now is completed by the new piece
      have hnew : ∀ q l, q ≠ nobody → (m.board.push column.toNat hi p room).OwnsLine q l →
          q = p ∧ l.PassesThrough column.toNat m.board.piles[column.toNat].length := by
        intro q l hq hline
        rcases hline.of_push hq with hold | hnew
        · exact absurd ((Board.hasLine_iff _ q).2 ⟨l, hold⟩) (h.not_hasLine hgoing hq)
        · exact hnew
      refine ⟨next_ne_nobody, h.next_le_players, fun q => ?_, fun q l hq hline => ?_⟩
      · rw [hwinner]
        constructor
        · rintro ⟨rfl, l, -, hline⟩
          exact ⟨hmover ▸ h.current_ne_nobody, (Board.hasLine_iff _ q).2 ⟨l, hline⟩⟩
        · rintro ⟨hq, hline⟩
          rcases (Board.hasLine_iff _ q).1 hline with ⟨l, hline⟩
          rcases hnew q l hq hline with ⟨rfl, hpass⟩
          exact ⟨rfl, l, hpass, hline⟩
      · refine ⟨_, _, rfl, ?_⟩
        rw [Board.toNat_ofNat_row room]
        exact (hnew q l hq hline).2

/-- Every sequence of attempts has an outcome, and keeps what a match knows about its lines. -/
theorem Sound.attempts {m : Match} (h : m.Sound) (calls : List (Player × UInt8)) :
    ∃ m' results, m.attempts calls = .ok (m', results) ∧ m'.Sound := by
  induction calls generalizing m with
  | nil => exact ⟨m, [], rfl, h⟩
  | cons call calls ih =>
      rcases call with ⟨p, column⟩
      rcases m.turn_eq_ok p column with ⟨m', r, hturn, hturned⟩
      rcases ih (h.turn hturned) with ⟨m'', results, hrest, hsound⟩
      exact ⟨m'', r :: results, by rw [Match.attempts, hturn]; simp [hrest, Except.map], hsound⟩

/-- The turn after which a match is won is the mover's, and completes the first line. -/
theorem Sound.won_by_turn {m m' : Match} {p : Player} {column : UInt8} {r : TurnResult}
    (h : m.Sound) (hturned : Turned m p column m' r) (w : Player) :
    (m.winner = none ∧ m'.winner = some w ↔
      r = .success ∧ (∀ v, v ≠ nobody → ¬ m.board.HasLine v) ∧
        w ≠ nobody ∧ m'.board.HasLine w) ∧
    (m.winner = none ∧ m'.winner = some w → w = p) := by
  cases hturned with
  | success hgoing hmover hi room winner hwinner =>
      have hsound := h.turn (.success hgoing hmover hi room winner hwinner)
      have hnone : m.winner = none := by simpa [isWon] using hgoing
      refine ⟨?_, fun hwon => ((hwinner w).1 hwon.2).1⟩
      rw [and_iff_right hnone, and_iff_right rfl,
        and_iff_right fun v hv => h.not_hasLine hgoing hv]
      exact hsound.winner_iff w
  | _ => simp_all

/-- A match that has been started is answered with, after any attempts of any players at any
columns: the winner it names is the owner of a line of four found by scanning the whole board.
There is one such player at most, all its lines pass through the newest piece, and a match
becomes won exactly by the turn that completes the first line, which is the winner's turn. -/
theorem winner_eq_some_iff_hasLine (players first : UInt8) (size : Board.Size)
    (calls : List (Player × UInt8)) :
    ∃ m₀ m results,
      Match.new players first size.columns size.rows = .ok m₀ ∧
      m₀.attempts calls = .ok (m, results) ∧
      (∀ w, m.winner = some w ↔ w ≠ nobody ∧ m.board.HasLine w) ∧
      (∀ v w, v ≠ nobody → w ≠ nobody → m.board.HasLine v → m.board.HasLine w → v = w) ∧
      (∀ w l, w ≠ nobody → m.board.OwnsLine w l →
        ∃ column row, m.last = some (column, row) ∧
          l.PassesThrough column.toNat row.toNat) ∧
      ∀ p column, ∃ m' r, m.turn p column = .ok (m', r) ∧ ∀ w,
        (m.winner = none ∧ m'.winner = some w ↔
          r = .success ∧ (∀ v, v ≠ nobody → ¬ m.board.HasLine v) ∧
            w ≠ nobody ∧ m'.board.HasLine w) ∧
        (m.winner = none ∧ m'.winner = some w → w = p) := by
  rcases (sound_start players first size).attempts calls with ⟨m, results, hattempts, hsound⟩
  refine ⟨start players first size, m, results, ?_, hattempts, hsound.winner_iff, ?_,
    hsound.passes_last, fun p column => ?_⟩
  · simp [Match.new, Board.Size.check_columns_rows, Except.map, Except.mapError]
  · intro v w hv hw hlv hlw
    have hwinner := (hsound.winner_iff v).2 ⟨hv, hlv⟩
    rw [(hsound.winner_iff w).2 ⟨hw, hlw⟩] at hwinner
    exact (Option.some.inj hwinner).symm
  · rcases m.turn_eq_ok p column with ⟨m', r, hturn, hturned⟩
    exact ⟨m', r, hturn, fun w => hsound.won_by_turn hturned w⟩

/-- The first player piles up four pieces, and the scan agrees. -/
example :
    ((start 2 1 ⟨5, 4, by decide, by decide, by decide⟩).play [0, 1, 0, 2, 0, 1, 0]).map
        (fun answer => (answer.1.winner, decide (answer.1.board.HasLine 1))) =
      .ok (some 1, true) := by
  decide +kernel

end Match

end FourInRow
