import FourInRow.Proofs.Lobby.Mail
import FourInRow.Proofs.Match.Winner

/-!
# What the operations of a lobby can do

A lobby is kept by an invariant, `Lobby.Sound`.  For each operation on a sound lobby an inductive
relation lists everything that the operation can come to: its guards, the lobby afterwards and
the mail.  Later statements about lobbies are case analyses over these relations.

Main results:

- Theorem `seat_eq_some_iff`: when a newcomer gets a seat, and which one.
- Theorem `Readied.of_ready`: what saying ready comes to.
- Theorem `Turned.of_turn`: what taking a turn comes to.
- Theorem `Left.of_leave`: what leaving comes to.
- Theorems `Readied.ofKinds`, `Turned.ofKinds`, `Left.ofKinds`: what they can tell anybody.
-/

namespace FourInRow

namespace Lobby

/-- What holds of a lobby and its match while the match runs. -/
structure Running (l : Lobby) (game : Match) : Prop where
  /-- Every seat is taken. -/
  full : l.members.length = l.capacity
  /-- Everybody is ready. -/
  ready : ∀ p ∈ l.members, p.ready = true
  sound : game.Sound
  going : game.isOver = false

/-- What a lobby keeps true. -/
structure Sound (l : Lobby) : Prop where
  capacity_le : l.capacity ≤ 255
  players_eq : l.players = l.members.length
  readied_eq : l.readied = l.members.countP fun p => p.ready
  nodup : (l.members.map Peer.id).Nodup
  running : ∀ game accepting, l.phase = .playing game accepting → l.Running game
  members_of_closed : l.phase = .closed → l.members = []

/-! ## Seating -/

/-- A sound lobby has a free seat exactly while it gathers and is not full. -/
theorem Sound.hasFreeSeat_iff {l : Lobby} (h : l.Sound) :
    l.hasFreeSeat = true ↔ l.phase = .gathering ∧ l.members.length < l.capacity := by
  have hle : l.members.length ≤ l.capacity := length_seated_le l.seats
  unfold hasFreeSeat isAccepting isFull
  rw [h.players_eq]
  cases hphase : l.phase with
  | closed => simp
  | gathering =>
      simp only [Bool.true_and, Bool.not_eq_true', beq_eq_false_iff_ne, true_and]
      omega
  | playing game accepting =>
      have hfull := (h.running game accepting hphase).full
      simp [hfull]

/-- The peer that a newcomer becomes in a seat, and what it is told: it gets the seat's number
unless it has one. -/
theorem seat_eq_some_iff {l l' : Lobby} {p : Peer} {player : Player} {mail : Mail} :
    l.seat p = some (player, l', mail) ↔
      l.hasFreeSeat = true ∧ ∃ i, l.seats.findIdx? Option.isNone = some i ∧
        player = UInt8.ofNat (i + 1) ∧
        l' = { l with
          seats := l.seats.set i (some ({ p with ready := false }.assign player).1)
          players := l.players + 1 } ∧
        mail = ({ p with ready := false }.assign player).2 := by
  unfold seat
  by_cases hfree : l.hasFreeSeat = true
  · rw [if_pos hfree]
    cases hfind : l.seats.findIdx? Option.isNone with
    | none => simp
    | some i =>
        simp only [Option.some.injEq, Prod.mk.injEq, hfree, true_and, exists_eq_left']
        constructor
        · rintro ⟨rfl, rfl, rfl⟩
          exact ⟨rfl, rfl, rfl⟩
        · rintro ⟨rfl, rfl, rfl⟩
          exact ⟨rfl, rfl, rfl⟩
  · rw [if_neg hfree]
    simp [hfree]

/-- The first free seat is free. -/
theorem getElem?_of_findIdx? {seats : List (Option Peer)} {i : Nat}
    (h : seats.findIdx? Option.isNone = some i) : seats[i]? = some none := by
  rcases List.findIdx?_eq_some_iff_getElem.1 h with ⟨hi, hnone, -⟩
  rw [List.getElem?_eq_getElem hi, Option.isNone_iff_eq_none.1 hnone]

/-- A lobby with a free seat turns nobody away. -/
theorem Sound.exists_seat {l : Lobby} (h : l.Sound) (hfree : l.hasFreeSeat = true) (p : Peer) :
    ∃ player l' mail, l.seat p = some (player, l', mail) := by
  rcases exists_free_seat ((h.hasFreeSeat_iff.1 hfree).2) with ⟨i, hi⟩
  exact ⟨_, _, _, seat_eq_some_iff.2 ⟨hfree, i, hi, rfl, rfl, rfl⟩⟩

/-! ## Ready -/

/-- The lobby after a member's readiness has been noted. -/
def noteReady (l : Lobby) (id : ConnectionId) : Lobby :=
  { l.updateMember id (fun p => { p with ready := true }) with readied := l.readied + 1 }

/-- The lobby in which a match has just begun. -/
def withMatch (l : Lobby) (first : Player) (size : Board.Size) : Lobby :=
  { l with phase := .playing (Match.start (UInt8.ofNat l.capacity) first size) false }

/-- What is said when a match begins. -/
def openingMail (l : Lobby) (first : Player) (size : Board.Size) : Mail :=
  l.tellAll (fun p => p.matchBegins (UInt8.ofNat l.capacity) size.columns size.rows first) ++
    l.requestTurn first

/-- The outcomes of saying ready. -/
inductive Readied (l : Lobby) (d : Draws) (id : ConnectionId) : Lobby → Draws → Mail → Prop
  /-- A match is running, or the connection is no member's, or the member is ready already. -/
  | ignored (hignored : l.isPlaying = true ∨ ∀ p, l.member? id = some p → p.ready = true) :
      Readied l d id l d []
  /-- Others are not ready yet, or seats are free. -/
  | noted {p : Peer} (hidle : l.isPlaying = false) (hp : l.member? id = some p)
      (hready : p.ready = false) (hwait : ¬ (l.readied + 1 = l.players ∧ l.isFull = true)) :
      Readied l d id (l.noteReady id) d []
  /-- Everybody is ready, but the board is not playable. -/
  | unplayable {p : Peer} {e : Board.Error} (hidle : l.isPlaying = false)
      (hp : l.member? id = some p) (hready : p.ready = false)
      (hall : l.readied + 1 = l.players) (hfull : l.isFull = true)
      (hsize : Board.Size.check l.columns l.rows = .error e) :
      Readied l d id (l.noteReady id) (d.choose l.capacity).2 []
  /-- Everybody is ready, and a match begins. -/
  | begun {p : Peer} {size : Board.Size} (hidle : l.isPlaying = false)
      (hp : l.member? id = some p) (hready : p.ready = false)
      (hall : l.readied + 1 = l.players) (hfull : l.isFull = true)
      (hsize : Board.Size.check l.columns l.rows = .ok size) :
      Readied l d id
        ((l.noteReady id).withMatch (UInt8.ofNat ((d.choose l.capacity).1 + 1)) size)
        (d.choose l.capacity).2
        ((l.noteReady id).openingMail (UInt8.ofNat ((d.choose l.capacity).1 + 1)) size)

@[simp] theorem capacity_noteReady (l : Lobby) (id : ConnectionId) :
    (l.noteReady id).capacity = l.capacity := by
  simp [capacity, noteReady, updateMember]

@[simp] theorem isFull_noteReady (l : Lobby) (id : ConnectionId) :
    (l.noteReady id).isFull = l.isFull := by
  rw [isFull, isFull, capacity_noteReady]
  rfl

/-- Where the board is not playable no match begins, but the choice is used up. -/
theorem beginMatch_of_error {l : Lobby} {e : Board.Error}
    (h : Board.Size.check l.columns l.rows = .error e) (d : Draws) :
    l.beginMatch d = (l, (d.choose l.capacity).2, []) := by
  simp [beginMatch, Match.new, h, Except.map, Except.mapError]

/-- Where the board is playable a match begins. -/
theorem beginMatch_of_ok {l : Lobby} {size : Board.Size}
    (h : Board.Size.check l.columns l.rows = .ok size) (d : Draws) :
    l.beginMatch d =
      (l.withMatch (UInt8.ofNat ((d.choose l.capacity).1 + 1)) size,
        (d.choose l.capacity).2,
        l.openingMail (UInt8.ofNat ((d.choose l.capacity).1 + 1)) size) := by
  simp only [beginMatch, Match.new, h, Except.map, Except.mapError]
  rfl

/-- What saying ready does between matches when it counts. -/
theorem ready_eq_noteReady {l : Lobby} {id : ConnectionId} {p : Peer}
    (hidle : l.isPlaying = false) (hp : l.member? id = some p) (hready : p.ready = false)
    (d : Draws) :
    l.ready d id =
      if l.readied + 1 = l.players ∧ l.isFull = true then (l.noteReady id).beginMatch d
      else (l.noteReady id, d, []) := by
  rw [← isFull_noteReady l id]
  simp only [ready, hidle, hp, hready]
  rfl

/-- Saying ready comes to one of the outcomes of `Readied`. -/
theorem Readied.of_ready (l : Lobby) (d : Draws) (id : ConnectionId) :
    Readied l d id (l.ready d id).1 (l.ready d id).2.1 (l.ready d id).2.2 := by
  by_cases hignored : l.isPlaying = true ∨ ∀ p, l.member? id = some p → p.ready = true
  · have hsame : l.ready d id = (l, d, []) := by
      unfold ready
      rcases hignored with hplaying | hready
      · rw [if_pos hplaying]
      · cases hp : l.member? id with
        | none => simp
        | some p => simp [hready p hp]
    rw [hsame]
    exact .ignored hignored
  · rcases not_or.1 hignored with ⟨hplaying, hnot⟩
    rcases not_forall.1 hnot with ⟨p, hnot⟩
    rcases Classical.not_imp.1 hnot with ⟨hp, hready⟩
    have hidle := Bool.eq_false_iff.2 hplaying
    have hready' := Bool.eq_false_iff.2 hready
    rw [ready_eq_noteReady hidle hp hready']
    by_cases hstart : l.readied + 1 = l.players ∧ l.isFull = true
    · rw [if_pos hstart]
      cases hsize : Board.Size.check l.columns l.rows with
      | error e =>
          rw [beginMatch_of_error (l := l.noteReady id) hsize, capacity_noteReady]
          exact .unplayable hidle hp hready' hstart.1 hstart.2 hsize
      | ok size =>
          rw [beginMatch_of_ok (l := l.noteReady id) hsize, capacity_noteReady]
          exact .begun hidle hp hready' hstart.1 hstart.2 hsize
    · rw [if_neg hstart]
      exact .noted hidle hp hready' hstart

/-! ## Turns -/

/-- The outcomes of taking a turn. -/
inductive Turned (l : Lobby) (id : ConnectionId) (column : UInt8) : Lobby → Mail → Prop
  /-- The connection is no member's. -/
  | stranger (hp : l.member? id = none) : Turned l id column l []
  /-- No match is running. -/
  | idle {p : Peer} (hp : l.member? id = some p) (hidle : l.isPlaying = false) :
      Turned l id column l (l.announceTurn p.player column .error)
  /-- The turn breaks a rule of the match. -/
  | rejected {p : Peer} {game : Match} {accepting : Bool} {result : TurnResult}
      (hp : l.member? id = some p) (hphase : l.phase = .playing game accepting)
      (hturned : Match.Turned game p.player column game result) (hne : result ≠ .success) :
      Turned l id column l (l.announceTurn p.player column result)
  /-- The piece lands, and the match goes on. -/
  | moved {p : Peer} {game game' : Match} {accepting : Bool}
      (hp : l.member? id = some p) (hphase : l.phase = .playing game accepting)
      (hturned : Match.Turned game p.player column game' .success)
      (hgoing : game'.isOver = false) :
      Turned l id column { l with phase := .playing game' accepting }
        (l.announceTurn p.player column .success ++ l.requestTurn game'.current)
  /-- The piece lands, and the match is over. -/
  | finished {p : Peer} {game game' : Match} {accepting : Bool}
      (hp : l.member? id = some p) (hphase : l.phase = .playing game accepting)
      (hturned : Match.Turned game p.player column game' .success)
      (hover : game'.isOver = true) :
      Turned l id column (l.endMatch (game'.winner.getD nobody)).1
        (l.announceTurn p.player column .success ++
          (l.endMatch (game'.winner.getD nobody)).2)

theorem isPlaying_iff {l : Lobby} :
    l.isPlaying = true ↔ ∃ game accepting, l.phase = .playing game accepting := by
  unfold isPlaying game?
  cases l.phase <;> simp

theorem phase_ne_of_idle {l : Lobby} (hidle : l.isPlaying = false) (game : Match)
    (accepting : Bool) : l.phase ≠ .playing game accepting := by
  intro hphase
  rw [isPlaying_iff.2 ⟨game, accepting, hphase⟩] at hidle
  cases hidle

/-- Taking a turn in a sound lobby comes to one of the outcomes of `Turned`. -/
theorem Turned.of_turn {l : Lobby} (h : l.Sound) (id : ConnectionId) (column : UInt8) :
    Turned l id column (l.turn id column).1 (l.turn id column).2 := by
  cases hp : l.member? id with
  | none =>
      have hsame : l.turn id column = (l, []) := by simp [turn, hp]
      rw [hsame]
      exact .stranger hp
  | some p =>
      by_cases hplaying : l.isPlaying = true
      · rcases isPlaying_iff.1 hplaying with ⟨game, accepting, hphase⟩
        rcases game.turn_eq_ok p.player column with ⟨game', result, hturn, hturned⟩
        by_cases hne : result = .success
        · subst result
          by_cases hover : game'.isOver = true
          · have heq : l.turn id column =
                ((l.endMatch (game'.winner.getD nobody)).1,
                  l.announceTurn p.player column .success ++
                    (l.endMatch (game'.winner.getD nobody)).2) := by
              simp only [turn, hp, hphase, hturn, hover, if_true]
              rfl
            rw [heq]
            exact .finished hp hphase hturned hover
          · have hgoing := Bool.eq_false_iff.2 hover
            have heq : l.turn id column =
                ({ l with phase := .playing game' accepting },
                  l.announceTurn p.player column .success ++
                    l.requestTurn game'.current) := by
              simp only [turn, hp, hphase, hturn, hgoing, if_true]
              rfl
            rw [heq]
            exact .moved hp hphase hturned hgoing
        · -- a match that goes on does not end by a turn that breaks its rules
          obtain rfl := hturned.eq_of_ne_success hne
          have hgoing := (h.running game' accepting hphase).going
          have heq : l.turn id column = (l, l.announceTurn p.player column result) := by
            simp only [turn, hp, hphase, hturn, hgoing, hne, if_false]
            rw [← hphase]
            rfl
          rw [heq]
          exact .rejected hp hphase hturned hne
      · have heq : l.turn id column = (l, l.announceTurn p.player column .error) := by
          unfold turn
          rw [hp]
          cases hphase : l.phase with
          | playing game accepting => exact absurd (isPlaying_iff.2 ⟨_, _, hphase⟩) hplaying
          | closed => rfl
          | gathering => rfl
        rw [heq]
        exact .idle hp (Bool.eq_false_iff.2 hplaying)

/-! ## Leaving -/

/-- The lobby after a member's seat has been cleared. -/
def vacate (l : Lobby) (id : ConnectionId) (p : Peer) : Lobby :=
  { l with
    seats := l.seats.map fun s => if s.any (fun q => q.id = id) then none else s
    players := l.players - 1
    readied := if p.ready then l.readied - 1 else l.readied }

/-- The outcomes of leaving. -/
inductive Left (l : Lobby) (id : ConnectionId) : Peer → Lobby → Mail → Prop
  /-- No match is running. -/
  | idle {p : Peer} (hp : l.member? id = some p) (hidle : l.isPlaying = false) :
      Left l id p (l.vacate id p) []
  /-- The running match is broken off. -/
  | brokenOff {p : Peer} {game : Match} {accepting : Bool} (hp : l.member? id = some p)
      (hphase : l.phase = .playing game accepting) :
      Left l id p ((l.vacate id p).endMatch nobody).1 ((l.vacate id p).endMatch nobody).2

/-- Leaving comes to one of the outcomes of `Left`. -/
theorem Left.of_leave {l l' : Lobby} {id : ConnectionId} {p : Peer} {mail : Mail}
    (h : l.leave id = some (p, l', mail)) : Left l id p l' mail := by
  unfold leave at h
  cases hp : l.member? id with
  | none => simp [hp] at h
  | some q =>
      simp only [hp] at h
      by_cases hplaying : l.isPlaying = true
      · rw [if_pos hplaying] at h
        rcases isPlaying_iff.1 hplaying with ⟨game, accepting, hphase⟩
        cases h
        exact .brokenOff hp hphase
      · rw [if_neg hplaying] at h
        cases h
        exact .idle hp (Bool.eq_false_iff.2 hplaying)

/-- Every member can leave. -/
theorem exists_leave {l : Lobby} {id : ConnectionId} (h : id ∈ l.members.map Peer.id) :
    ∃ p l' mail, l.leave id = some (p, l', mail) := by
  unfold leave
  cases hp : l.member? id with
  | none => exact absurd h (member?_eq_none_iff.1 hp)
  | some p =>
      by_cases hplaying : l.isPlaying = true
      · refine ⟨p, ((l.vacate id p).endMatch nobody).1, ((l.vacate id p).endMatch nobody).2, ?_⟩
        simp only [hplaying, if_true]
        rfl
      · refine ⟨p, l.vacate id p, [], ?_⟩
        simp only [hplaying]
        rfl

/-! ## Closing -/

/-- A closed lobby with empty seats. -/
def emptied (l : Lobby) : Lobby :=
  { l with
    phase := .closed
    players := 0
    readied := 0
    seats := l.seats.map fun _ => none }

/-- Closing empties a lobby, whatever goes on in it. -/
@[simp] theorem close_lobby (l : Lobby) : l.close.2.1 = l.emptied := by
  by_cases hplaying : l.isPlaying = true
  · simp [close, hplaying, emptied, endMatch, Function.comp_def]
  · simp [close, hplaying, emptied]

/-- Closing tells the members that their match has ended, if one was running. -/
theorem close_mail (l : Lobby) :
    l.close.2.2 = if l.isPlaying then l.tellAll (fun p => p.matchEnds nobody) else [] := by
  by_cases hplaying : l.isPlaying = true
  · simp [close, hplaying, endMatch]
  · simp [close, hplaying]

theorem members_emptied (l : Lobby) : l.emptied.members = [] := by
  rw [members_eq_seated, List.eq_nil_iff_forall_not_mem]
  intro p hp
  rcases List.mem_map.1 (mem_seated.1 hp) with ⟨s, -, hs⟩
  cases hs

/-! ## Kinds of mail -/

theorem ofKinds_seat {l l' : Lobby} {p : Peer} {player : Player} {mail : Mail}
    (hseat : l.seat p = some (player, l', mail)) : mail.OfKinds [.connected] := by
  rcases seat_eq_some_iff.1 hseat with ⟨-, i, -, -, -, rfl⟩
  exact Peer.ofKinds_assign _ _

theorem Readied.ofKinds {l l' : Lobby} {d d' : Draws} {id : ConnectionId} {mail : Mail}
    (h : Readied l d id l' d' mail) : mail.OfKinds [.gameStart, .takeTurn] := by
  cases h with
  | begun =>
      have hstart : ∀ (k : Lobby) (players columns rows : UInt8) (first : Player),
          (k.tellAll fun p => p.matchBegins players columns rows first).OfKinds [.gameStart] :=
        fun _ _ _ _ _ => .flatMap fun p => p.ofKinds_tell _
      exact (hstart _ _ _ _ _).append (ofKinds_requestTurn _ _)
  | _ => exact .nil

theorem Turned.ofKinds {l l' : Lobby} {id : ConnectionId} {column : UInt8} {mail : Mail}
    (h : Turned l id column l' mail) :
    mail.OfKinds [.turnResult, .update, .takeTurn, .gameEnd] := by
  cases h with
  | stranger => exact .nil
  | idle => exact (ofKinds_announceTurn _ _ _ _).mono (by simp)
  | rejected => exact (ofKinds_announceTurn _ _ _ _).mono (by simp)
  | moved =>
      exact ((ofKinds_announceTurn _ _ _ _).append (ofKinds_requestTurn _ _)).mono (by simp)
  | finished =>
      exact ((ofKinds_announceTurn _ _ _ _).append (ofKinds_endMatch _ _)).mono (by simp)

theorem Left.ofKinds {l l' : Lobby} {id : ConnectionId} {p : Peer} {mail : Mail}
    (h : Left l id p l' mail) : mail.OfKinds [.gameEnd] := by
  cases h with
  | idle => exact .nil
  | brokenOff => exact ofKinds_endMatch _ _

end Lobby

end FourInRow
