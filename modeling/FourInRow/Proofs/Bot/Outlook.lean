import FourInRow.Command
import FourInRow.Proofs.Board.Piece
import FourInRow.Proofs.Bot.Mirror

/-!
# What a client may hear

A client that keeps a board of its own relies on what it hears next: a request for its turn comes
only while there is room on the board, pieces are told only where they land, and no match begins
before a request is settled.  `Outlook.Hears` says which message may come next, and what the client
then knows.

Main results:

- Theorem `Bot.exists_hear`: a bot that hears what it may hear goes on, and pays what is due.
- Theorems `Course.success`, `Course.error`: what must have been heard before a turn succeeds or
  fails.
- Theorem `Course.result`: nothing else can become of a turn.
-/

namespace FourInRow

/-! ## What is due -/

/-- What the hall waits for. -/
inductive Due
  /-- The client is to say that it is ready. -/
  | ready
  /-- The client is to take its turn. -/
  | turn
deriving DecidableEq, Repr

/-- What a message calls for. -/
def Message.due? : Message → Option Due
  | .connected _ | .gameEnd _ => some .ready
  | .turnRequest _ => some .turn
  | _ => none

/-- What a command pays. -/
def Command.due? : Command → Option Due
  | .ready _ => some .ready
  | .turn .. => some .turn
  | _ => none

/-! ## Outlooks -/

/-- How a client stands to the last request for its turn. -/
inductive Outlook.Request
  /-- There was none yet, or it is settled. -/
  | idle
  /-- It is open. -/
  | asked
  /-- It is open, but the match has been broken off. -/
  | abandoned
deriving DecidableEq, Repr

/-- What a client knows, as far as it matters for what it may hear next. -/
structure Outlook where
  player : Player
  /-- The board of the match, while one is running. -/
  board : Option Board
  request : Outlook.Request
deriving DecidableEq, Repr

namespace Outlook

/-- A client that has heard nothing. -/
def new : Outlook := ⟨nobody, none, .idle⟩

/-- What a client may hear next, and what it knows then. -/
inductive Hears : Outlook → Message → Outlook → Prop
  /-- It is given its number. -/
  | connected {o : Outlook} (player : Player) (hrequest : o.request = .idle)
      (hboard : o.board = none) : Hears o (.connected player) { o with player := player }
  /-- It is told its place in the queue. -/
  | queued {o : Outlook} (position : UInt64) : Hears o (.inQueue position) o
  /-- A match begins, on a board that there can be. -/
  | begins {o : Outlook} {players columns rows : UInt8} {first : Player} {board : Board}
      (hrequest : o.request = .idle) (hnew : Board.new columns rows = .ok board) :
      Hears o (.gameStart players columns rows first) { o with board := some board }
  /-- It is asked for its turn, while there is room. -/
  | asked {o : Outlook} {board : Board} (hrequest : o.request = .idle)
      (hboard : o.board = some board) (hroom : board.openColumns ≠ []) :
      Hears o (.turnRequest o.player) { o with request := .asked }
  /-- Its piece has landed. -/
  | landed {o : Outlook} {board board' : Board} {column : UInt8} (hrequest : o.request = .asked)
      (hboard : o.board = some board) (hdrop : board.drop column o.player = .ok (some board')) :
      Hears o (.turnResult .success column) { o with board := some board', request := .idle }
  /-- Its turn came to nothing, since the match had been broken off. -/
  | refused {o : Outlook} (column : UInt8) (hrequest : o.request = .abandoned) :
      Hears o (.turnResult .error column) { o with request := .idle }
  /-- Another player's piece has landed. -/
  | updated {o : Outlook} {board board' : Board} {column : UInt8} {p : Player}
      (hrequest : o.request = .idle) (hboard : o.board = some board)
      (hdrop : board.drop column p = .ok (some board')) :
      Hears o (.update p column) { o with board := some board' }
  /-- The match ends. -/
  | ended {o : Outlook} {board : Board} (winner : Player) (hrequest : o.request = .idle)
      (hboard : o.board = some board) : Hears o (.gameEnd winner) { o with board := none }
  /-- The match is broken off while the client's turn is awaited. -/
  | brokenOff {o : Outlook} {board : Board} (hrequest : o.request = .asked)
      (hboard : o.board = some board) :
      Hears o (.gameEnd nobody) { o with board := none, request := .abandoned }

/-- What a client may hear one after another. -/
inductive Course : Outlook → List Message → Outlook → Prop
  | nil (o : Outlook) : Course o [] o
  | cons {o o' o'' : Outlook} {m : Message} {ms : List Message} (hfirst : Hears o m o')
      (hrest : Course o' ms o'') : Course o (m :: ms) o''

theorem Hears.course {o o' : Outlook} {m : Message} (h : Hears o m o') : Course o [m] o' :=
  .cons h (.nil o')

theorem Course.append {o o' o'' : Outlook} {ms ms' : List Message} (h : Course o ms o')
    (h' : Course o' ms' o'') : Course o (ms ++ ms') o'' := by
  induction h with
  | nil => exact h'
  | cons hfirst _ ih => exact .cons hfirst (ih h')

/-- What is heard one after another can be parted anywhere. -/
theorem Course.split {o o'' : Outlook} {ms ms' : List Message} (h : Course o (ms ++ ms') o'') :
    ∃ o', Course o ms o' ∧ Course o' ms' o'' := by
  induction ms generalizing o with
  | nil => exact ⟨o, .nil o, h⟩
  | cons m ms ih =>
      cases h with
      | cons hfirst hrest =>
          rcases ih hrest with ⟨o', hms, hms'⟩
          exact ⟨o', .cons hfirst hms, hms'⟩

/-- What is heard last. -/
theorem Course.of_concat {o o'' : Outlook} {ms : List Message} {m : Message}
    (h : Course o (ms ++ [m]) o'') : ∃ o', Course o ms o' ∧ Hears o' m o'' := by
  rcases h.split with ⟨o', hms, hlast⟩
  cases hlast with
  | cons hfirst hrest =>
      cases hrest
      exact ⟨o', hms, hfirst⟩

/-! ## Requests and their settlement -/

/-- As long as a request stays open nothing changes on the board: an open request that was not made
just now was open before. -/
theorem Hears.still {o o' : Outlook} {m : Message} (h : Hears o m o') (hasked : o'.request = .asked)
    (hm : m.due? ≠ some .turn) : o.request = .asked ∧ o.board = o'.board := by
  cases h with
  | asked => exact absurd rfl hm
  | queued => exact ⟨hasked, rfl⟩
  | connected player hrequest => exact absurd (hrequest.symm.trans hasked) (by decide)
  | begins hrequest => exact absurd (hrequest.symm.trans hasked) (by decide)
  | updated hrequest => exact absurd (hrequest.symm.trans hasked) (by decide)
  | ended winner hrequest => exact absurd (hrequest.symm.trans hasked) (by decide)
  | landed => cases hasked
  | refused => cases hasked
  | brokenOff => cases hasked

theorem Course.still {o o' : Outlook} {ms : List Message} (h : Course o ms o')
    (hasked : o'.request = .asked) (hms : Due.turn ∉ ms.filterMap Message.due?) :
    o.request = .asked ∧ o.board = o'.board := by
  induction h with
  | nil => exact ⟨hasked, rfl⟩
  | @cons o o' o'' m ms hfirst hrest ih =>
      rw [List.mem_filterMap] at hms
      have hrest' : Due.turn ∉ ms.filterMap Message.due? := by
        rw [List.mem_filterMap]
        rintro ⟨m', hm', hdue⟩
        exact hms ⟨m', List.mem_cons_of_mem m hm', hdue⟩
      rcases ih hasked hrest' with ⟨hrequest, hboard⟩
      have hm : m.due? ≠ some .turn := fun hdue => hms ⟨m, List.mem_cons_self, hdue⟩
      rcases hfirst.still hrequest hm with ⟨hrequest', hboard'⟩
      exact ⟨hrequest', hboard'.trans hboard⟩

/-- The kinds of message that are not heard as long as a request is open: a new request, what became
of the turn, a piece of somebody else, and the beginning of a match. -/
def settling : List Wire.Kind := [.takeTurn, .turnResult, .update, .gameStart]

/-- An open request was made some time ago, and neither settled since, nor has the match ended. -/
theorem Course.asked {o : Outlook} {ms : List Message} (h : Course new ms o)
    (hasked : o.request = .asked) : ∃ earlier between,
      ms = earlier ++ .turnRequest o.player :: between ∧
        ∀ m ∈ between, m.kind ∉ .gameEnd :: settling := by
  induction ms using List.reverseRecOn generalizing o with
  | nil =>
      cases h
      cases hasked
  | append_singleton ms m ih =>
      rcases h.of_concat with ⟨o', hms, hlast⟩
      cases hlast with
      | asked =>
          refine ⟨ms, [], rfl, fun m hm => ?_⟩
          cases hm
      | queued position =>
          rcases ih hms hasked with ⟨earlier, between, rfl, hquiet⟩
          refine ⟨earlier, between ++ [.inQueue position], by simp, fun m hm => ?_⟩
          rcases List.mem_append.1 hm with hold | hnew
          · exact hquiet m hold
          · rw [List.mem_singleton.1 hnew]
            change Wire.Kind.inQueue ∉ _
            decide
      | connected player hrequest => exact absurd (hrequest.symm.trans hasked) (by decide)
      | begins hrequest => exact absurd (hrequest.symm.trans hasked) (by decide)
      | updated hrequest => exact absurd (hrequest.symm.trans hasked) (by decide)
      | ended winner hrequest => exact absurd (hrequest.symm.trans hasked) (by decide)
      | landed => cases hasked
      | refused => cases hasked
      | brokenOff => cases hasked

/-- An abandoned request was made some time ago and not settled since, and the match has been broken
off. -/
theorem Course.abandoned {o : Outlook} {ms : List Message} (h : Course new ms o)
    (habandoned : o.request = .abandoned) : ∃ earlier between,
      ms = earlier ++ .turnRequest o.player :: between ∧ .gameEnd nobody ∈ between ∧
        ∀ m ∈ between, m.kind ∉ settling := by
  induction ms using List.reverseRecOn generalizing o with
  | nil =>
      cases h
      cases habandoned
  | append_singleton ms m ih =>
      rcases h.of_concat with ⟨o', hms, hlast⟩
      cases hlast with
      | brokenOff hrequest =>
          rcases hms.asked hrequest with ⟨earlier, between, rfl, hquiet⟩
          refine ⟨earlier, between ++ [.gameEnd nobody], by simp, by simp, fun m hm => ?_⟩
          rcases List.mem_append.1 hm with hold | hnew
          · exact fun hmem => hquiet m hold (List.mem_cons_of_mem _ hmem)
          · rw [List.mem_singleton.1 hnew]
            change Wire.Kind.gameEnd ∉ _
            decide
      | queued position =>
          rcases ih hms habandoned with ⟨earlier, between, rfl, hend, hquiet⟩
          refine ⟨earlier, between ++ [.inQueue position], by simp,
            List.mem_append_left _ hend, fun m hm => ?_⟩
          rcases List.mem_append.1 hm with hold | hnew
          · exact hquiet m hold
          · rw [List.mem_singleton.1 hnew]
            change Wire.Kind.inQueue ∉ _
            decide
      | connected player hrequest => exact absurd (hrequest.symm.trans habandoned) (by decide)
      | begins hrequest => exact absurd (hrequest.symm.trans habandoned) (by decide)
      | updated hrequest => exact absurd (hrequest.symm.trans habandoned) (by decide)
      | ended winner hrequest => exact absurd (hrequest.symm.trans habandoned) (by decide)
      | asked => cases habandoned
      | landed => cases habandoned
      | refused => cases habandoned

/-- What is heard in the middle of a course. -/
theorem Course.of_middle {o o' : Outlook} {before after : List Message} {m : Message}
    (h : Course o (before ++ m :: after) o') :
    ∃ o₁ o₂, Course o before o₁ ∧ Hears o₁ m o₂ := by
  rcases h.split with ⟨o₁, hbefore, hrest⟩
  cases hrest with
  | cons hfirst => exact ⟨o₁, _, hbefore, hfirst⟩

/-- A turn succeeds only in the match in which the client was asked for it. -/
theorem Course.success {o : Outlook} {before after : List Message} {column : UInt8}
    (h : Course new (before ++ .turnResult .success column :: after) o) :
    ∃ earlier player between, before = earlier ++ .turnRequest player :: between ∧
      ∀ m ∈ between, m.kind ∉ .gameEnd :: settling := by
  rcases h.of_middle with ⟨o₁, o₂, hbefore, hhears⟩
  cases hhears with
  | landed hrequest =>
      rcases hbefore.asked hrequest with ⟨earlier, between, hsplit, hquiet⟩
      exact ⟨earlier, o₁.player, between, hsplit, hquiet⟩

/-- A turn fails only when the match in which the client was asked for it has been broken off. -/
theorem Course.error {o : Outlook} {before after : List Message} {column : UInt8}
    (h : Course new (before ++ .turnResult .error column :: after) o) :
    ∃ earlier player between, before = earlier ++ .turnRequest player :: between ∧
      .gameEnd nobody ∈ between ∧ ∀ m ∈ between, m.kind ∉ settling := by
  rcases h.of_middle with ⟨o₁, o₂, hbefore, hhears⟩
  cases hhears with
  | refused _ hrequest =>
      rcases hbefore.abandoned hrequest with ⟨earlier, between, hsplit, hend, hquiet⟩
      exact ⟨earlier, o₁.player, between, hsplit, hend, hquiet⟩

/-- A turn succeeds or fails; it breaks no rule. -/
theorem Course.result {o : Outlook} {ms : List Message} (h : Course new ms o) {r : TurnResult}
    {column : UInt8} (hmem : .turnResult r column ∈ ms) : r = .success ∨ r = .error := by
  rcases List.append_of_mem hmem with ⟨before, after, rfl⟩
  rcases h.of_middle with ⟨o₁, o₂, -, hhears⟩
  cases hhears with
  | landed => exact Or.inl rfl
  | refused => exact Or.inr rfl

/-! ## Bots -/

/-- What a client that plays by itself says about a message, by what it then knows. -/
inductive Reply (o : Outlook) (m : Message) : List Message → Prop
  /-- Nothing is due. -/
  | silent (hdue : m.due? = none) : Reply o m []
  /-- It says that it is ready. -/
  | ready (hdue : m.due? = some .ready) : Reply o m [.ready o.player]
  /-- It takes its turn, where there is room. -/
  | turn {board : Board} {column : UInt8} (hdue : m.due? = some .turn)
      (hboard : o.board = some board) (hopen : column ∈ board.openColumns) :
      Reply o m [.takeTurn o.player column]

end Outlook

namespace Bot

/-- Does a bot know as much as its outlook says, and can it still send? -/
structure Shares (b : Bot) (o : Outlook) : Prop where
  player_eq : b.client.player = o.player
  board_eq : b.board = o.board
  connected : b.client.severed = false

/-- As long as the server is there a bot can send. -/
theorem send_eq_ok (b : Bot) (h : b.client.severed = false) (m : Message) :
    b.send m = .ok (b, [m]) := by
  simp [send, Client.send, h]

/-- A piece that lands is repeated. -/
theorem repeatPiece_eq_ok {b : Bot} {board board' : Board} {column : UInt8} {p : Player}
    (hboard : b.board = some board) (hdrop : board.drop column p = .ok (some board')) :
    b.repeatPiece column p = .ok ({ b with board := some board' }, []) := by
  simp [repeatPiece, hboard, hdrop]

/-- Where there is room a bot chooses an open column. -/
theorem exists_chooseColumn {b : Bot} {board : Board} (hboard : b.board = some board)
    (hroom : board.openColumns ≠ []) :
    ∃ column draws, b.chooseColumn = some (column, draws) ∧ column ∈ board.openColumns := by
  have hlt := Draws.choose_lt (List.length_pos_iff.2 hroom) b.draws
  refine ⟨board.openColumns[(b.draws.choose board.openColumns.length).1],
    (b.draws.choose board.openColumns.length).2, ?_, List.getElem_mem hlt⟩
  simp only [chooseColumn, hboard, List.getElem?_eq_getElem hlt, Option.map_some]

/-- At the end of a match a bot clears its board and asks for another match, if any is left. -/
theorem exists_hear_gameEnd {b : Bot} (hconnected : b.client.severed = false) (winner : Player) :
    ∃ b' out, b.hear (.gameEnd winner) = .ok (b', out) ∧ b'.client = b.client ∧ b'.board = none ∧
      (out = [.ready b.client.player] ∨ b'.isDone = true ∧ out = []) := by
  let b' : Bot := { b with played := b.played + 1, board := none }
  by_cases hdone : b'.isDone = true
  · refine ⟨b', [], ?_, rfl, rfl, Or.inr ⟨hdone, rfl⟩⟩
    exact if_pos hdone
  · refine ⟨b', [.ready b.client.player], ?_, rfl, rfl, Or.inl rfl⟩
    exact (if_neg hdone).trans (send_eq_ok b' hconnected _)

/-- A bot that hears what it may hear goes on.  It says what is due, unless it has no match left to
play. -/
theorem exists_hear {b : Bot} {o o' : Outlook} {m : Message} (h : b.Shares o)
    (hhears : o.Hears m o') : ∃ b' out, b.hear m = .ok (b', out) ∧ b'.Shares o' ∧
      (o'.Reply m out ∨ b'.isDone = true ∧ out = []) := by
  have hplayer := h.player_eq
  have hconnected := h.connected
  cases hhears with
  | connected player =>
      let b' : Bot := { b with client := { b.client with player := player } }
      exact ⟨b', [.ready player], send_eq_ok b' hconnected _, ⟨rfl, h.board_eq, hconnected⟩,
        Or.inl (.ready rfl)⟩
  | queued => exact ⟨b, [], rfl, h, Or.inl (.silent rfl)⟩
  | @begins _ columns rows first board hrequest hnew =>
      refine ⟨{ b with board := some board }, [], ?_, ⟨hplayer, rfl, hconnected⟩,
        Or.inl (.silent rfl)⟩
      simp only [hear, react, hnew]
      rfl
  | @asked board hrequest hboard hroom =>
      rcases exists_chooseColumn (h.board_eq.trans hboard) hroom with
        ⟨column, draws, hchoose, hopen⟩
      refine ⟨{ b with draws := draws }, [.takeTurn o.player column], ?_,
        ⟨hplayer, h.board_eq, hconnected⟩, Or.inl (.turn rfl hboard hopen)⟩
      change b.react (.turnRequest o.player) = _
      simp only [react, hchoose, ← hplayer]
      exact send_eq_ok { b with draws := draws } hconnected _
  | @landed board board' column hrequest hboard hdrop =>
      refine ⟨{ b with board := some board' }, [], ?_, ⟨hplayer, rfl, hconnected⟩,
        Or.inl (.silent rfl)⟩
      rw [← hplayer] at hdrop
      exact repeatPiece_eq_ok (h.board_eq.trans hboard) hdrop
  | refused => exact ⟨b, [], rfl, ⟨hplayer, h.board_eq, hconnected⟩, Or.inl (.silent rfl)⟩
  | @updated board board' column p hrequest hboard hdrop =>
      refine ⟨{ b with board := some board' }, [], ?_, ⟨hplayer, rfl, hconnected⟩,
        Or.inl (.silent rfl)⟩
      exact repeatPiece_eq_ok (h.board_eq.trans hboard) hdrop
  | ended winner =>
      rcases exists_hear_gameEnd hconnected winner with ⟨b', out, hhear, hclient, hnone, hout⟩
      refine ⟨b', out, hhear, ⟨?_, hnone, ?_⟩, hout.imp_left ?_⟩
      · rw [hclient, hplayer]
      · rw [hclient, hconnected]
      · rintro rfl
        rw [hplayer]
        exact .ready rfl
  | brokenOff =>
      rcases exists_hear_gameEnd hconnected nobody with ⟨b', out, hhear, hclient, hnone, hout⟩
      refine ⟨b', out, hhear, ⟨?_, hnone, ?_⟩, hout.imp_left ?_⟩
      · rw [hclient, hplayer]
      · rw [hclient, hconnected]
      · rintro rfl
        rw [hplayer]
        exact .ready rfl

end Bot

end FourInRow
