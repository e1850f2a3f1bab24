import FourInRow.Proofs.Match.Winner

/-!
# Whose turn it is

The players move in turn, whatever anybody attempts meanwhile: a turn that breaks a rule changes
nothing, and a piece that lands passes the turn on to the next player, after the last one to the
first.  So the number of pieces on the board tells whose turn it is.

Main results:

- Theorem `turn_eq_ok_iff`: `Turned` is exactly what an attempt comes to.
- Theorem `attempts_preserve`: what every attempt keeps, every sequence of attempts keeps.
- Theorem `InRotation.turn`: every attempt keeps the turns in rotation.
- Theorem `Stems.inRotation`: it is the turn of the player to which the rotation has come.
-/

namespace FourInRow

namespace Match

/-! ## Attempts have one outcome -/

/-- An attempt has one outcome only. -/
theorem Turned.unique {m m₁ m₂ : Match} {p : Player} {column : UInt8} {r₁ r₂ : TurnResult}
    (h₁ : Turned m p column m₁ r₁) (h₂ : Turned m p column m₂ r₂) : m₁ = m₂ ∧ r₁ = r₂ := by
  cases h₁ with
  | gameFinished hwon =>
      cases h₂ with
      | gameFinished => exact ⟨rfl, rfl⟩
      | _ hgoing => exact absurd (hwon.symm.trans hgoing) (by decide)
  | wrongPlayer hgoing hother =>
      cases h₂ with
      | gameFinished hwon => exact absurd (hwon.symm.trans hgoing) (by decide)
      | wrongPlayer => exact ⟨rfl, rfl⟩
      | _ _ hmover => exact absurd hmover hother
  | badColumn hgoing hmover hmissing =>
      cases h₂ with
      | gameFinished hwon => exact absurd (hwon.symm.trans hgoing) (by decide)
      | wrongPlayer _ hother => exact absurd hmover hother
      | badColumn => exact ⟨rfl, rfl⟩
      | _ _ _ hi => exact absurd hi (not_lt.2 hmissing)
  | columnFull hgoing hmover hi hfull =>
      cases h₂ with
      | gameFinished hwon => exact absurd (hwon.symm.trans hgoing) (by decide)
      | wrongPlayer _ hother => exact absurd hmover hother
      | badColumn _ _ hmissing => exact absurd hi (not_lt.2 hmissing)
      | columnFull => exact ⟨rfl, rfl⟩
      | success _ _ _ room => exact absurd hfull room.ne
  | success hgoing hmover hi room winner hwinner =>
      cases h₂ with
      | gameFinished hwon => exact absurd (hwon.symm.trans hgoing) (by decide)
      | wrongPlayer _ hother => exact absurd hmover hother
      | badColumn _ _ hmissing => exact absurd hi (not_lt.2 hmissing)
      | columnFull _ _ _ hfull => exact absurd hfull room.ne
      | success _ _ _ _ winner' hwinner' =>
          have hsame : winner = winner' :=
            Option.ext fun q => (hwinner q).trans (hwinner' q).symm
          rw [hsame]
          exact ⟨rfl, rfl⟩

/-- `Turned` is exactly what an attempt comes to. -/
theorem turn_eq_ok_iff {m m' : Match} {p : Player} {column : UInt8} {r : TurnResult} :
    m.turn p column = .ok (m', r) ↔ Turned m p column m' r := by
  refine ⟨.of_turn, fun h => ?_⟩
  rcases m.turn_eq_ok p column with ⟨m₁, r₁, hturn, hturned⟩
  rcases hturned.unique h with ⟨rfl, rfl⟩
  exact hturn

/-! ## Sequences of attempts -/

/-- A sequence of attempts begins with one attempt and goes on with the others. -/
theorem of_attempts_cons {m m' : Match} {p : Player} {column : UInt8}
    {calls : List (Player × UInt8)} {results : List TurnResult}
    (h : m.attempts ((p, column) :: calls) = .ok (m', results)) :
    ∃ m₁ r rest, results = r :: rest ∧ Turned m p column m₁ r ∧
      m₁.attempts calls = .ok (m', rest) := by
  rcases m.turn_eq_ok p column with ⟨m₁, r, hok, hturned⟩
  rw [attempts, hok] at h
  cases hrest : m₁.attempts calls with
  | error e => simp [hrest, Except.map] at h
  | ok answer =>
      simp only [hrest, Except.map, Except.ok.injEq, Prod.mk.injEq] at h
      rcases answer with ⟨m₂, rest⟩
      rcases h with ⟨rfl, rfl⟩
      exact ⟨m₁, r, rest, rfl, hturned, hrest⟩

theorem attempts_cons {m m₁ m' : Match} {p : Player} {column : UInt8}
    {calls : List (Player × UInt8)} {r : TurnResult} {rest : List TurnResult}
    (hturned : Turned m p column m₁ r) (hrest : m₁.attempts calls = .ok (m', rest)) :
    m.attempts ((p, column) :: calls) = .ok (m', r :: rest) := by
  simp [attempts, turn_eq_ok_iff.2 hturned, hrest, Except.map]

/-- What every attempt keeps, every sequence of attempts keeps. -/
theorem attempts_preserve {P : Match → Prop}
    (hturn : ∀ {m m' : Match} {p : Player} {column : UInt8} {r : TurnResult},
      P m → Turned m p column m' r → P m') {calls : List (Player × UInt8)} {m m' : Match}
    {results : List TurnResult} (h : m.attempts calls = .ok (m', results)) (hm : P m) : P m' := by
  induction calls generalizing m results with
  | nil =>
      cases h
      exact hm
  | cons call calls ih =>
      rcases of_attempts_cons h with ⟨m₁, r, rest, -, hturned, hrest⟩
      exact ih hrest (hturn hm hturned)

/-- No attempt changes the size of the board. -/
theorem size_of_attempts {m m' : Match} {calls : List (Player × UInt8)}
    {results : List TurnResult} (h : m.attempts calls = .ok (m', results)) :
    m'.board.size = m.board.size := by
  refine attempts_preserve (P := fun k => k.board.size = m.board.size) (fun hsize hturned => ?_)
    h rfl
  cases hturned with
  | success => exact hsize
  | _ => exact hsize

/-- One more attempt comes after the others. -/
theorem attempts_concat {m m' m'' : Match} {calls : List (Player × UInt8)}
    {results : List TurnResult} {p : Player} {column : UInt8} {r : TurnResult}
    (h : m.attempts calls = .ok (m', results)) (hturned : Turned m' p column m'' r) :
    m.attempts (calls ++ [(p, column)]) = .ok (m'', results ++ [r]) := by
  induction calls generalizing m results with
  | nil =>
      cases h
      exact attempts_cons hturned rfl
  | cons call calls ih =>
      rcases of_attempts_cons h with ⟨m₁, r₁, rest, rfl, hfirst, hrest⟩
      exact attempts_cons hfirst (ih hrest)

/-! ## Rotation -/

/-- Is it the turn of the player to which the rotation has come that began with the given one? -/
def InRotation (first : Player) (m : Match) : Prop :=
  m.current.toNat = (first.toNat - 1 + m.turns) % m.players.toNat + 1

/-- The player that is next in the order of moves. -/
theorem Sound.toNat_next {m : Match} (h : m.Sound) :
    m.next.toNat = m.current.toNat % m.players.toNat + 1 := by
  have hle := UInt8.le_iff_toNat_le.1 h.current_le_players
  unfold next
  split
  · next hlast =>
      have heq : m.current.toNat = m.players.toNat :=
        le_antisymm hle (UInt8.le_iff_toNat_le.1 hlast)
      rw [heq, Nat.mod_self]
      rfl
  · next hlast =>
      have hlt : m.current.toNat < m.players.toNat := by
        rw [← UInt8.lt_iff_toNat_lt]
        exact UInt8.not_le.1 hlast
      have htop := m.players.toNat_lt
      rw [Nat.mod_eq_of_lt hlt, UInt8.toNat_add]
      simp only [UInt8.reduceToNat]
      omega

/-- Every attempt keeps the turns in rotation. -/
theorem InRotation.turn {m m' : Match} {first p : Player} {column : UInt8} {r : TurnResult}
    (h : m.InRotation first) (hs : m.Sound) (hturned : Turned m p column m' r) :
    m'.InRotation first := by
  cases hturned with
  | success =>
      change m.next.toNat = (first.toNat - 1 + (m.turns + 1)) % m.players.toNat + 1
      rw [hs.toNat_next, h, Nat.mod_add_mod, Nat.add_assoc]
  | _ => exact h

/-- Before the first turn the rotation is at the player that it begins with. -/
theorem Sound.inRotation_current {m : Match} (h : m.Sound) (hturns : m.turns = 0) :
    m.InRotation m.current := by
  have hle := UInt8.le_iff_toNat_le.1 h.current_le_players
  have hpos : m.current.toNat ≠ 0 := fun hzero => h.current_ne_nobody (UInt8.toNat_inj.1 hzero)
  unfold InRotation
  rw [hturns, Nat.add_zero, Nat.mod_eq_of_lt (by omega)]
  omega

/-- In a match that has just begun it is the turn of the first player. -/
theorem inRotation_start {players first : UInt8} {size : Board.Size}
    (hfirst : (start players first size).current = first) :
    (start players first size).InRotation first := by
  have hrotation := (sound_start players first size).inRotation_current rfl
  rwa [hfirst] at hrotation

/-- The player whose turn it is after so many turns, if the given one moves first. -/
def rota (players : UInt8) (first : Player) (turns : Nat) : Player :=
  UInt8.ofNat ((first.toNat - 1 + turns) % players.toNat + 1)

theorem InRotation.current_eq {m : Match} {first : Player} (h : m.InRotation first) :
    m.current = rota m.players first m.turns := by
  rw [rota, ← h, UInt8.ofNat_toNat]

/-- Only players have turns. -/
theorem rota_mem {players : UInt8} (hplayers : 0 < players.toNat) (first : Player) (turns : Nat) :
    rota players first turns ≠ nobody ∧ (rota players first turns).toNat ≤ players.toNat := by
  have hlt := Nat.mod_lt (first.toNat - 1 + turns) hplayers
  have htop := players.toNat_lt
  have hrota : (rota players first turns).toNat = (first.toNat - 1 + turns) % players.toNat + 1 :=
    UInt8.toNat_ofNat_of_lt' (by simp only [UInt8.size]; omega)
  refine ⟨fun hzero => ?_, by omega⟩
  rw [hzero] at hrota
  simp [nobody] at hrota

/-! ## Where a match comes from -/

/-- Has a match come about from a new one of the given kind, in which the given player was the
first one, by some attempts? -/
def Stems (players first columns rows : UInt8) (m : Match) : Prop :=
  ∃ m₀ calls results, Match.new players first columns rows = .ok m₀ ∧ m₀.current = first ∧
    m₀.attempts calls = .ok (m, results)

/-- A playable size makes a new match possible. -/
theorem new_eq_ok (players first : UInt8) (size : Board.Size) :
    Match.new players first size.columns size.rows = .ok (start players first size) := by
  simp [Match.new, Board.Size.check_columns_rows, Except.map, Except.mapError]

theorem stems_start {players first : UInt8} {size : Board.Size}
    (hfirst : (start players first size).current = first) :
    (start players first size).Stems players first size.columns size.rows :=
  ⟨_, [], [], new_eq_ok players first size, hfirst, rfl⟩

theorem Stems.turn {players first columns rows : UInt8} {m m' : Match} {p : Player}
    {column : UInt8} {r : TurnResult} (h : m.Stems players first columns rows)
    (hturned : Turned m p column m' r) : m'.Stems players first columns rows := by
  rcases h with ⟨m₀, calls, results, hnew, hfirst, hattempts⟩
  exact ⟨m₀, _, _, hnew, hfirst, attempts_concat hattempts hturned⟩

/-- What a new match has and every attempt keeps, a match has. -/
theorem Stems.induction {players first columns rows : UInt8} {m : Match} {P : Match → Prop}
    (h : m.Stems players first columns rows)
    (hstart : ∀ size : Board.Size, size.columns = columns → size.rows = rows →
      (start players first size).current = first → P (start players first size))
    (hturn : ∀ {m m' : Match} {p : Player} {column : UInt8} {r : TurnResult},
      P m → Turned m p column m' r → P m') : P m := by
  rcases h with ⟨m₀, calls, results, hnew, hfirst, hattempts⟩
  refine attempts_preserve hturn hattempts ?_
  unfold Match.new at hnew
  cases hsize : Board.Size.check columns rows with
  | error e => simp [hsize, Except.map, Except.mapError] at hnew
  | ok size =>
      simp only [hsize, Except.map, Except.mapError, Except.ok.injEq] at hnew
      subst hnew
      unfold Board.Size.check at hsize
      split at hsize
      · cases hsize
        exact hstart _ rfl rfl hfirst
      · cases hsize

/-- In a match it is the turn of the player to which the rotation has come. -/
theorem Stems.inRotation {players first columns rows : UInt8} {m : Match}
    (h : m.Stems players first columns rows) : m.InRotation first := by
  have hboth : m.Sound ∧ m.InRotation first := by
    refine h.induction (P := fun m => m.Sound ∧ m.InRotation first) (fun size _ _ hfirst => ?_)
      fun hm hturned => ?_
    · exact ⟨sound_start _ _ size, inRotation_start hfirst⟩
    · exact ⟨hm.1.turn hturned, hm.2.turn hm.1 hturned⟩
  exact hboth.2

/-- Is a match one of so many players on a board of these dimensions? -/
def HasDimensions (players columns rows : UInt8) (m : Match) : Prop :=
  m.players = players ∧ m.board.size.columns = columns ∧ m.board.size.rows = rows

/-- No attempt changes the number of players or the dimensions of the board. -/
theorem Stems.hasDimensions {players first columns rows : UInt8} {m : Match}
    (h : m.Stems players first columns rows) (hplayers : minPlayers ≤ players) :
    m.HasDimensions players columns rows := by
  refine h.induction (fun size hcolumns hrows _ => ⟨?_, hcolumns, hrows⟩) fun hm hturned => ?_
  · change (if players ≤ minPlayers then minPlayers else players) = players
    split
    · next hle => exact UInt8.le_antisymm hplayers hle
    · rfl
  · cases hturned with
    | success => exact hm
    | _ => exact hm

theorem Stems.current_eq {players first columns rows : UInt8} {m : Match}
    (h : m.Stems players first columns rows) (hplayers : minPlayers ≤ players) :
    m.current = rota players first m.turns := by
  rw [h.inRotation.current_eq, (h.hasDimensions hplayers).1]

end Match

end FourInRow
