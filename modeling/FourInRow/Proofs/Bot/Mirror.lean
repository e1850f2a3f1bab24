import FourInRow.Bot.Basic
import Mathlib

/-!
# The match as a client sees it

A client that is told the size of the board and every piece that lands can keep a board of its
own.  `Mirror` is what it has to remember for that, and `Mirror.hear` how a message changes it.
Bots do keep such a board.

Main results:

- Theorem `hearAll_idle`: messages that are not about pieces leave a mirror as it is.
- Theorem `Bot.Mirrors.hear`: a bot's own board is that of its mirror.
-/

namespace FourInRow

/-- What a client remembers of a match. -/
structure Mirror where
  /-- The client's own number. -/
  player : Player
  /-- The size that was announced when the match began. -/
  size : Option Board.Size
  /-- The pieces that have landed since, the oldest first. -/
  moves : List (UInt8 × Player)
deriving DecidableEq, Repr

namespace Mirror

/-- A client that has heard nothing. -/
def new : Mirror := ⟨nobody, none, []⟩

/-- Remembers a piece. -/
def add (m : Mirror) (column : UInt8) (p : Player) : Mirror :=
  { m with moves := m.moves ++ [(column, p)] }

/-- Takes note of a message: of the client's number, of the beginning of a match, and of pieces of
its own and of others. -/
def hear (m : Mirror) : Message → Mirror
  | .connected player => { m with player := player }
  | .gameStart _ columns rows _ =>
    { m with size := (Board.Size.check columns rows).toOption, moves := [] }
  | .turnResult result column => if result = .success then m.add column m.player else m
  | .update p column => m.add column p
  | _ => m

/-- Takes note of messages one after another. -/
def hearAll (m : Mirror) (ms : List Message) : Mirror := ms.foldl hear m

/-- The board on which all pieces have been repeated. -/
def board (m : Mirror) : Option Board :=
  m.size.map fun size => ((Board.empty size).dropAll m.moves).1

@[simp] theorem hearAll_append (m : Mirror) (ms ms' : List Message) :
    m.hearAll (ms ++ ms') = (m.hearAll ms).hearAll ms' :=
  List.foldl_append

@[simp] theorem hearAll_singleton (m : Mirror) (message : Message) :
    m.hearAll [message] = m.hear message := rfl

/-- Messages that are not about pieces leave a mirror as it is. -/
theorem hearAll_idle {ms : List Message} (h : ∀ message ∈ ms, ∀ m : Mirror, m.hear message = m)
    (m : Mirror) : m.hearAll ms = m := by
  induction ms with
  | nil => rfl
  | cons message ms ih =>
      change (m.hear message).hearAll ms = m
      rw [h message List.mem_cons_self]
      exact ih fun message' hmem => h message' (List.mem_cons_of_mem _ hmem)

end Mirror

/-! ## Pieces one after another -/

namespace Board

theorem dropAll_append (b : Board) (moves moves' : List (UInt8 × Player)) :
    (b.dropAll (moves ++ moves')).1 = ((b.dropAll moves).1.dropAll moves').1 := by
  induction moves generalizing b with
  | nil => rfl
  | cons move moves ih =>
      rcases move with ⟨column, p⟩
      exact ih _

/-- A piece that lands is added to the board. -/
theorem dropAll_singleton_of_drop {b b' : Board} {column : UInt8} {p : Player}
    (h : b.drop column p = .ok (some b')) : (b.dropAll [(column, p)]).1 = b' := by
  simp [dropAll, h]

/-- A piece that finds no room leaves the board as it is. -/
theorem dropAll_singleton_of_full {b : Board} {column : UInt8} {p : Player}
    (h : b.drop column p = .ok none) : (b.dropAll [(column, p)]).1 = b := by
  simp [dropAll, h]

end Board

/-- A remembered piece is repeated on the board. -/
theorem Mirror.board_add {m : Mirror} {b : Board} (h : m.board = some b) (column : UInt8)
    (p : Player) : (m.add column p).board = some (b.dropAll [(column, p)]).1 := by
  rcases Option.map_eq_some_iff.1 h with ⟨size, hsize, hboard⟩
  have hsize' : (m.add column p).size = some size := hsize
  rw [Mirror.board, hsize', Option.map_some, ← hboard]
  exact congrArg some (Board.dropAll_append _ m.moves [(column, p)])

/-! ## Bots -/

namespace Bot

/-- Does a bot know what a mirror remembers? -/
structure Mirrors (b : Bot) (m : Mirror) : Prop where
  player_eq : b.client.player = m.player
  /-- The board of the match, as long as one is running. -/
  board_eq : ∀ board, b.board = some board → m.board = some board

/-- Sending changes nothing about a bot. -/
theorem eq_of_send {b b' : Bot} {m : Message} {out : List Message}
    (h : b.send m = .ok (b', out)) : b' = b := by
  unfold send at h
  split at h
  · cases h
    rfl
  · cases h

theorem Mirrors.repeatPiece {b b' : Bot} {m : Mirror} (h : b.Mirrors m) {column : UInt8}
    {p : Player} {out : List Message} (hrepeat : b.repeatPiece column p = .ok (b', out)) :
    b'.Mirrors (m.add column p) := by
  unfold Bot.repeatPiece at hrepeat
  cases hboard : b.board with
  | none =>
      simp only [hboard] at hrepeat
      cases hrepeat
      refine ⟨h.player_eq, fun board hb => ?_⟩
      rw [hboard] at hb
      cases hb
  | some board =>
      simp only [hboard] at hrepeat
      have hadd := Mirror.board_add (h.board_eq board hboard) column p
      cases hdrop : board.drop column p with
      | error e =>
          simp only [hdrop] at hrepeat
          cases hrepeat
      | ok landed =>
          cases landed with
          | none =>
              simp only [hdrop] at hrepeat
              cases hrepeat
              refine ⟨h.player_eq, fun board' hb => ?_⟩
              rw [hboard] at hb
              cases hb
              rw [hadd, Board.dropAll_singleton_of_full hdrop]
          | some next =>
              simp only [hdrop] at hrepeat
              cases hrepeat
              refine ⟨h.player_eq, fun board' hb => ?_⟩
              cases hb
              rw [hadd, Board.dropAll_singleton_of_drop hdrop]

/-- Whatever a bot hears, its own board is that of its mirror until the match ends. -/
theorem Mirrors.hear {b b' : Bot} {m : Mirror} (h : b.Mirrors m) {message : Message}
    {out : List Message} (hhear : b.hear message = .ok (b', out)) :
    b'.Mirrors (m.hear message) := by
  unfold Bot.hear at hhear
  cases message with
  | connected player =>
      rw [eq_of_send hhear]
      exact ⟨rfl, h.board_eq⟩
  | gameStart players columns rows first =>
      simp only [react, Board.new] at hhear
      cases hsize : Board.Size.check columns rows with
      | error e =>
          simp only [hsize, Except.map] at hhear
          cases hhear
      | ok size =>
          simp only [hsize, Except.map] at hhear
          cases hhear
          refine ⟨h.player_eq, fun board hb => ?_⟩
          cases hb
          simp [Mirror.board, Mirror.hear, hsize, Except.toOption, Board.dropAll]
  | turnRequest player =>
      simp only [react] at hhear
      split at hhear
      · cases hhear
        exact h
      · rw [eq_of_send hhear]
        exact ⟨h.player_eq, h.board_eq⟩
  | turnResult result column =>
      simp only [react] at hhear
      by_cases hresult : result = .success
      · rw [if_pos hresult] at hhear
        have hrepeat := Mirrors.repeatPiece (m := m) ⟨h.player_eq, h.board_eq⟩ hhear
        rw [Mirror.hear, if_pos hresult, ← h.player_eq]
        exact hrepeat
      · rw [if_neg hresult] at hhear
        cases hhear
        rw [Mirror.hear, if_neg hresult]
        exact h
  | update p column => exact Mirrors.repeatPiece (m := m) ⟨h.player_eq, h.board_eq⟩ hhear
  | gameEnd winner =>
      -- between matches a bot keeps no board
      have hnone : b'.client.player = b.client.player → b'.board = none → b'.Mirrors m := by
        intro hplayer hboard
        refine ⟨hplayer.trans h.player_eq, fun board hb => ?_⟩
        rw [hboard] at hb
        cases hb
      simp only [react] at hhear
      split at hhear
      · cases hhear
        exact hnone rfl rfl
      · obtain rfl := eq_of_send hhear
        exact hnone rfl rfl
  | _ =>
      cases hhear
      exact h

end Bot

end FourInRow
