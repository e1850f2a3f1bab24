import FourInRow.Lobby.Book
import FourInRow.Proofs.Lobby.Foyer

/-!
# Lobbies and their books

The book of a lobby tells what the lobby is doing by three flags and a match that may be there or
not.  Each operation on the book writes its tallies and its flags by hand, and what it writes is the
book of the lobby after the operation.  So a ledger stays in step with its foyer, and whatever
happens, in whatever order, the tallies count the seats, there is a match exactly while the flag says
so, it is played among ready members in full seats, and the doors fit what goes on inside.

Main results:

- Theorems `book_openDoors`, `book_seat`, `book_beginMatch`, `book_endMatch`, `book_ready`,
  `book_turn`, `book_leave`, `book_close`: what each operation writes into the book.
- Theorem `step_ledger`: every event takes the ledger of a foyer to that of the foyer after it.
- Theorem `run_ledger`: so does every run.
- Theorem `Ledger.tidy_run`: whatever happens to a new lobby, its book is tidy afterwards.
-/

namespace FourInRow

namespace Lobby

/-! ## The book of a lobby -/

/-- The book of a lobby: its tallies in bytes, and its phase told by a match and three flags. -/
def book (l : Lobby) : Book where
  number := l.number
  seats := l.seats
  players := UInt8.ofNat l.players
  readied := UInt8.ofNat l.readied
  game := l.game?
  columns := l.columns
  rows := l.rows
  isOpen := l.isOpen
  isAccepting := l.isAccepting
  isPlaying := l.isPlaying

@[simp] theorem seats_book (l : Lobby) : l.book.seats = l.seats := rfl

@[simp] theorem columns_book (l : Lobby) : l.book.columns = l.columns := rfl

@[simp] theorem rows_book (l : Lobby) : l.book.rows = l.rows := rfl

@[simp] theorem game_book (l : Lobby) : l.book.game = l.game? := rfl

@[simp] theorem isOpen_book (l : Lobby) : l.book.isOpen = l.isOpen := rfl

@[simp] theorem isAccepting_book (l : Lobby) : l.book.isAccepting = l.isAccepting := rfl

@[simp] theorem isPlaying_book (l : Lobby) : l.book.isPlaying = l.isPlaying := rfl

/-- A new lobby has a new book. -/
theorem book_new (number : Nat) (capacity columns rows : UInt8) :
    (new number capacity columns rows).book = Book.new number capacity columns rows :=
  rfl

/-- A lobby that plays is open. -/
theorem isOpen_of_isPlaying {l : Lobby} (h : l.isPlaying = true) : l.isOpen = true := by
  rcases isPlaying_iff.1 h with ⟨game, accepting, hphase⟩
  simp [isOpen, hphase]

/-- The tallies of a sound lobby fit a byte. -/
theorem Sound.toNat_players {l : Lobby} (h : l.Sound) :
    (UInt8.ofNat l.players).toNat = l.players := by
  have hcapacity := h.capacity_le
  have hle : l.members.length ≤ l.capacity := length_seated_le l.seats
  refine UInt8.toNat_ofNat_of_lt' ?_
  rw [h.players_eq, UInt8.size]
  omega

theorem Sound.readied_le {l : Lobby} (h : l.Sound) : l.readied ≤ l.players := by
  rw [h.readied_eq, h.players_eq]
  exact List.countP_le_length

theorem Sound.toNat_readied {l : Lobby} (h : l.Sound) :
    (UInt8.ofNat l.readied).toNat = l.readied := by
  have hcapacity := h.capacity_le
  have hle : l.members.length ≤ l.capacity := length_seated_le l.seats
  have hreadied := h.readied_le
  rw [h.players_eq] at hreadied
  refine UInt8.toNat_ofNat_of_lt' ?_
  rw [UInt8.size]
  omega

theorem Sound.isFull_book {l : Lobby} (h : l.Sound) : l.book.isFull = l.isFull := by
  change ((UInt8.ofNat l.players).toNat == l.seats.length) = (l.players == l.capacity)
  rw [h.toNat_players, capacity]

/-! ## Looking seats up -/

/-- Whose seat is the first one with the given connection is the member with that connection. -/
theorem member?_of_findIdx? {l : Lobby} {id : ConnectionId} {i : Nat}
    (h : (l.seats.findIdx? fun s => s.any fun q => q.id = id) = some i) :
    ∃ p, l.seats[i]? = some (some p) ∧ l.member? id = some p := by
  rcases List.findIdx?_eq_some_iff_getElem.1 h with ⟨hi, hid, hother⟩
  have hfind : (l.seats.find? fun s => s.any fun q => q.id = id) = some l.seats[i] :=
    List.find?_eq_some_iff_getElem.2 ⟨hid, i, hi, rfl, by simpa using hother⟩
  cases hseat : l.seats[i] with
  | none => simp [hseat] at hid
  | some p =>
      refine ⟨p, by rw [List.getElem?_eq_getElem hi, hseat], ?_⟩
      rw [member?, members, List.find?_filterMap, hfind, hseat]
      rfl

/-- Where no seat has the given connection no member has it. -/
theorem member?_of_findIdx?_eq_none {l : Lobby} {id : ConnectionId}
    (h : (l.seats.findIdx? fun s => s.any fun q => q.id = id) = none) : l.member? id = none := by
  have hfind : (l.seats.find? fun s => s.any fun q => q.id = id) = none := by
    rw [List.find?_eq_none]
    intro s hs
    rw [List.findIdx?_eq_none_iff.1 h s hs]
    exact Bool.false_ne_true
  rw [member?, members, List.find?_filterMap, hfind]
  rfl

/-- Where connections are different, only one seat has a given one. -/
theorem map_seats_eq_set {seats : List (Option Peer)} {i : Nat} {p : Peer}
    (hi : seats[i]? = some (some p)) (hnodup : ((seated seats).map Peer.id).Nodup)
    (f : Option Peer → Option Peer) :
    (seats.map fun s => if s.any (fun q => q.id = p.id) then f s else s) =
      seats.set i (f (some p)) := by
  rcases List.getElem?_eq_some_iff.1 hi with ⟨hlt, hget⟩
  have hsplit : seats = seats.take i ++ some p :: seats.drop (i + 1) := by
    rw [← hget, ← List.drop_eq_getElem_cons hlt, List.take_append_drop]
  have hseated : seated seats = seated (seats.take i) ++ p :: seated (seats.drop (i + 1)) := by
    conv_lhs => rw [hsplit]
    rw [seated, List.filterMap_append, List.filterMap_cons]
    rfl
  rw [hseated, List.map_append, List.map_cons, List.nodup_middle, List.nodup_cons,
    ← List.map_append] at hnodup
  -- Nobody else's seat has this connection.
  have hkeep : ∀ ss : List (Option Peer),
      (∀ q ∈ seated ss, q ∈ seated (seats.take i) ++ seated (seats.drop (i + 1))) →
      (ss.map fun s => if s.any (fun q => q.id = p.id) then f s else s) = ss := by
    intro ss hss
    refine (List.map_congr_left fun s hs => ?_).trans (List.map_id ss)
    cases s with
    | none => rfl
    | some q =>
        have hq := hss q (mem_seated.2 hs)
        have hne : q.id ≠ p.id := fun heq => hnodup.1 (heq ▸ List.mem_map_of_mem hq)
        simp [hne]
  rw [List.set_eq_take_append_cons_drop, if_pos hlt]
  conv_lhs => rw [hsplit]
  rw [List.map_append, List.map_cons, hkeep _ fun q hq => List.mem_append_left _ hq,
    hkeep _ fun q hq => List.mem_append_right _ hq]
  simp

/-- Where connections are different, clearing all seats with a connection clears one. -/
theorem clear_eq_set {seats : List (Option Peer)} {i : Nat} {p : Peer}
    (hi : seats[i]? = some (some p)) (hnodup : ((seated seats).map Peer.id).Nodup) :
    (seats.map fun s => if s.any (fun q => q.id = p.id) then none else s) = seats.set i none :=
  map_seats_eq_set hi hnodup fun _ => none

/-- Whoever is no member is not found in the book. -/
theorem find?_book_of_none {l : Lobby} {id : ConnectionId} (h : l.member? id = none) :
    l.book.find? id = none := by
  rw [Book.find?, seats_book]
  cases hfind : l.seats.findIdx? fun s => s.any fun q => q.id = id with
  | none => rfl
  | some i =>
      rcases member?_of_findIdx? hfind with ⟨p, -, hp⟩
      rw [h] at hp
      cases hp

/-- A member is found in the book with its seat. -/
theorem exists_find?_book {l : Lobby} {id : ConnectionId} {p : Peer} (h : l.member? id = some p) :
    ∃ i, l.seats[i]? = some (some p) ∧ l.book.find? id = some (i, p) := by
  rw [Book.find?, seats_book]
  cases hfind : l.seats.findIdx? fun s => s.any fun q => q.id = id with
  | none =>
      rw [member?_of_findIdx?_eq_none hfind] at h
      cases h
  | some i =>
      rcases member?_of_findIdx? hfind with ⟨q, hi, hq⟩
      obtain rfl : q = p := Option.some.inj (hq.symm.trans h)
      exact ⟨i, hi, by simp only [hi]⟩

/-! ## What is written into the book -/

theorem book_openDoors (l : Lobby) : l.openDoors.book = l.book.openDoors := by
  rcases l with ⟨number, seats, players, readied, columns, rows, phase⟩
  cases phase <;> rfl

theorem book_hangUp (l : Lobby) (id : ConnectionId) : (l.hangUp id).book = l.book.hangUp id := rfl

/-- A newcomer is written into its seat and counted. -/
theorem book_seat {l : Lobby} (h : l.Sound) (p : Peer) :
    l.book.seat p = (l.seat p).map fun r => (r.1, r.2.1.book, r.2.2) := by
  have hfree : l.book.hasFreeSeat = l.hasFreeSeat := by
    rw [Book.hasFreeSeat, hasFreeSeat, h.isFull_book]
    rfl
  rw [Book.seat, seat, hfree, seats_book]
  split
  · cases l.seats.findIdx? Option.isNone with
    | none => rfl
    | some i =>
        have hnumber : UInt8.ofNat (i + 1) = UInt8.ofNat i + 1 := UInt8.ofNat_add _ _
        have hplayers : UInt8.ofNat (l.players + 1) = UInt8.ofNat l.players + 1 :=
          UInt8.ofNat_add _ _
        simp only [Option.map_some, hnumber, book, hplayers]
        rfl
  · rfl

/-- A match that begins is written down, with the flag that it runs; nobody is let in any more, and
the lobby stays open. -/
theorem book_beginMatch {l : Lobby} (hopen : l.isOpen = true) (hle : l.capacity ≤ 255)
    (d : Draws) : l.book.beginMatch d = ((l.beginMatch d).1.book, (l.beginMatch d).2) := by
  have hlength : l.seats.length = l.capacity := rfl
  have hseats : (UInt8.ofNat l.capacity).toNat = l.capacity :=
    UInt8.toNat_ofNat_of_lt' (Nat.lt_succ_of_le hle)
  simp only [Book.beginMatch, beginMatch, seats_book, columns_book, rows_book, hlength, hseats]
  cases Match.new (UInt8.ofNat l.capacity) (UInt8.ofNat ((d.choose l.capacity).1 + 1)) l.columns
    l.rows with
  | error e => rfl
  | ok game =>
      simp only [book, hopen]
      rfl

/-- When a match ends, the match and its flag are struck out, nobody is ready, and an open lobby
lets newcomers in again. -/
theorem book_endMatch {l : Lobby} (hopen : l.isOpen = true) (winner : Player) :
    l.book.endMatch winner = ((l.endMatch winner).1.book, (l.endMatch winner).2) := by
  simp only [Book.endMatch, isOpen_book, hopen]
  simp only [book, hopen]
  rfl

/-- A member that is ready is written down as ready and counted. -/
theorem book_noteReady {l : Lobby} (h : l.Sound) {i : Nat} {p : Peer}
    (hi : l.seats[i]? = some (some p)) : (l.noteReady p.id).book = l.book.noteReady i p := by
  have hset := map_seats_eq_set hi h.nodup (Option.map fun q => { q with ready := true })
  have hseats : (l.noteReady p.id).seats = l.seats.set i (some { p with ready := true }) := by
    rw [Option.map_some] at hset
    rw [← hset]
    refine List.map_congr_left fun s _ => ?_
    cases s with
    | none => rfl
    | some q => by_cases hq : q.id = p.id <;> simp [hq]
  have hreadied : UInt8.ofNat (l.readied + 1) = UInt8.ofNat l.readied + 1 := UInt8.ofNat_add _ _
  exact Book.ext rfl hseats rfl hreadied rfl rfl rfl rfl rfl rfl

/-- A tally that is not zero goes down by one. -/
theorem ofNat_pred {n : Nat} (h : 1 ≤ n) : UInt8.ofNat (n - 1) = UInt8.ofNat n - 1 :=
  UInt8.ofNat_sub h

/-- A member that leaves is struck out and not counted any more. -/
theorem book_vacate {l : Lobby} (h : l.Sound) {i : Nat} {p : Peer}
    (hi : l.seats[i]? = some (some p)) : (l.vacate p.id p).book = l.book.vacate i p := by
  have hmem := mem_of_seat hi
  have hplayers : 1 ≤ l.players := by
    rw [h.players_eq]
    exact List.length_pos_of_mem hmem
  have hseats : (l.vacate p.id p).seats = l.seats.set i none := clear_eq_set hi h.nodup
  have hreadied : UInt8.ofNat (if p.ready = true then l.readied - 1 else l.readied) =
      if p.ready = true ∧ 0 < UInt8.ofNat l.readied then UInt8.ofNat l.readied - 1
      else UInt8.ofNat l.readied := by
    by_cases hready : p.ready = true
    · -- Whoever is ready has been counted as ready.
      have hpos : 1 ≤ l.readied := by
        rw [h.readied_eq]
        exact List.countP_pos_iff.2 ⟨p, hmem, hready⟩
      have hpos' : 0 < UInt8.ofNat l.readied := by
        rw [UInt8.lt_iff_toNat_lt, h.toNat_readied]
        exact hpos
      rw [if_pos hready, if_pos ⟨hready, hpos'⟩, ofNat_pred hpos]
    · rw [if_neg hready, if_neg fun hboth => hready hboth.1]
  exact Book.ext rfl hseats (ofNat_pred hplayers) hreadied rfl rfl rfl rfl rfl rfl

/-- Where somebody says ready nothing is written but that, and a match that begins. -/
theorem book_ready {l : Lobby} (h : l.Sound) (d : Draws) (id : ConnectionId) :
    l.book.ready d id = ((l.ready d id).1.book, (l.ready d id).2) := by
  rw [Book.ready, isPlaying_book]
  by_cases hplaying : l.isPlaying = true
  · rw [if_pos hplaying, ready, if_pos hplaying]
  · have hidle := Bool.eq_false_iff.2 hplaying
    rw [if_neg hplaying]
    cases hp : l.member? id with
    | none =>
        rw [find?_book_of_none hp, ready, if_neg hplaying, hp]
    | some p =>
        rcases exists_find?_book hp with ⟨i, hi, hfind⟩
        obtain ⟨hmem, rfl⟩ := mem_of_member? hp
        rw [hfind]
        by_cases hready : p.ready = true
        · simp only [ready, if_neg hplaying, hp, if_pos hready]
        · have hready' := Bool.eq_false_iff.2 hready
          have hnoted := h.noteReady hidle hp hready'
          have hopen : (l.noteReady p.id).isOpen = true := by
            have hclosed : l.phase ≠ .closed := by
              intro hphase
              rw [h.members_of_closed hphase] at hmem
              cases hmem
            simpa [isOpen, noteReady, updateMember] using hclosed
          have hall : ((l.noteReady p.id).book.readied = (l.noteReady p.id).book.players) ↔
              l.readied + 1 = l.players := by
            rw [← UInt8.toNat_inj]
            change (UInt8.ofNat (l.noteReady p.id).readied).toNat =
              (UInt8.ofNat (l.noteReady p.id).players).toNat ↔ _
            rw [hnoted.toNat_readied, hnoted.toNat_players]
            rfl
          rw [ready_eq_noteReady hidle hp hready']
          simp only [if_neg hready, ← book_noteReady h hi, hall, hnoted.isFull_book,
            isFull_noteReady]
          split
          · exact book_beginMatch hopen hnoted.capacity_le d
          · rfl

/-- How a running match stands is written down. -/
theorem book_withGame {l : Lobby} {game : Match} {accepting : Bool}
    (hphase : l.phase = .playing game accepting) (game' : Match) :
    ({ l with phase := .playing game' accepting } : Lobby).book = l.book.withGame game' := by
  apply Book.ext <;> simp [book, Book.withGame, isOpen, isAccepting, isPlaying, game?, hphase]

/-- A turn is written into the match, and the end of the match if it is over. -/
theorem book_turn (l : Lobby) (id : ConnectionId) (column : UInt8) :
    l.book.turn id column = ((l.turn id column).1.book, (l.turn id column).2) := by
  rw [Book.turn, turn]
  cases hp : l.member? id with
  | none => rw [find?_book_of_none hp]
  | some p =>
      rcases exists_find?_book hp with ⟨i, -, hfind⟩
      rw [hfind]
      cases hphase : l.phase with
      | closed =>
          have hidle : l.isPlaying = false := by simp [isPlaying, game?, hphase]
          simp only [isPlaying_book, hidle]
          rfl
      | gathering =>
          have hidle : l.isPlaying = false := by simp [isPlaying, game?, hphase]
          simp only [isPlaying_book, hidle]
          rfl
      | playing game accepting =>
          have hgame : l.game? = some game := by rw [game?, hphase]
          have hplaying : l.isPlaying = true := by rw [isPlaying, hgame, Option.isSome_some]
          simp only [isPlaying_book, hplaying, Bool.not_true, Bool.false_eq_true, if_false,
            game_book, hgame]
          cases game.turn p.player column with
          | error e =>
              simp only [book_endMatch (isOpen_of_isPlaying hplaying)]
              rfl
          | ok r =>
              rcases r with ⟨game', result⟩
              have hopen : ({ l with phase := .playing game' accepting } : Lobby).isOpen = true :=
                isOpen_of_isPlaying (isPlaying_iff.2 ⟨game', accepting, rfl⟩)
              simp only [← book_withGame hphase, book_endMatch hopen]
              split
              · rfl
              · split <;> rfl

/-- Whoever leaves is struck out, and so is the running match. -/
theorem book_leave {l : Lobby} (h : l.Sound) (id : ConnectionId) :
    l.book.leave id = (l.leave id).map fun r => (r.1, r.2.1.book, r.2.2) := by
  rw [Book.leave, leave]
  cases hp : l.member? id with
  | none =>
      rw [find?_book_of_none hp]
      rfl
  | some p =>
      rcases exists_find?_book hp with ⟨i, hi, hfind⟩
      obtain ⟨-, rfl⟩ := mem_of_member? hp
      rw [hfind]
      simp only [← book_vacate h hi]
      by_cases hplaying : l.isPlaying = true
      · have hopen : (l.vacate p.id p).isOpen = true := isOpen_of_isPlaying hplaying
        rw [if_pos (show (l.vacate p.id p).book.isPlaying = true from hplaying), if_pos hplaying]
        simp only [book_endMatch hopen]
        rfl
      · rw [if_neg (show ¬ (l.vacate p.id p).book.isPlaying = true from hplaying),
          if_neg hplaying]
        rfl

/-- A lobby that is closed is closed for newcomers, and its seats, tallies and match are struck
out. -/
theorem book_close (l : Lobby) :
    l.book.close = (l.close.1, l.close.2.1.book, l.close.2.2) := by
  rw [Book.close, close, isPlaying_book]
  by_cases hplaying : l.isPlaying = true
  · simp only [if_pos hplaying, book_endMatch (isOpen_of_isPlaying hplaying)]
    rfl
  · have hidle := Bool.eq_false_iff.2 hplaying
    have hgame : l.game? = none := by simpa [isPlaying] using hidle
    simp only [if_neg hplaying]
    exact Prod.ext rfl
      (Prod.ext (Book.ext rfl rfl rfl rfl hgame rfl rfl rfl rfl hidle) rfl)

/-! ## What can be seen of a book -/

/-- The tallies count the seats, and doors, match and seats fit together. -/
structure Book.Tidy (k : Book) : Prop where
  players_eq : k.players.toNat = k.seats.countP Option.isSome
  readied_eq : k.readied.toNat = k.seats.countP fun s => s.any fun p => p.ready
  readied_le : k.readied ≤ k.players
  players_le : k.players.toNat ≤ k.seats.length
  /-- There is a match exactly while the flag says so. -/
  exists_game_iff : (∃ game, k.game = some game) ↔ k.isPlaying = true
  /-- A match runs among ready members only, and every seat is taken. -/
  ready_of_playing : k.isPlaying = true → ∀ s ∈ k.seats, ∃ p, s = some p ∧ p.ready = true
  open_of_playing : k.isPlaying = true → k.isOpen = true
  /-- A match that runs is neither won nor drawn. -/
  going_of_playing : ∀ game, k.game = some game → game.winner = none ∧ game.isFull = false
  open_of_accepting : k.isAccepting = true → k.isOpen = true
  /-- Between matches everybody is let in unless the lobby is closed. -/
  accepting_eq_open : k.isPlaying = false → k.isAccepting = k.isOpen
  /-- Nobody sits in a closed lobby. -/
  vacant_of_closed : k.isOpen = false → ∀ s ∈ k.seats, s = none

/-- Members are counted seat by seat. -/
theorem countP_seats (seats : List (Option Peer)) (f : Peer → Bool) :
    (seats.countP fun s => s.any f) = (seated seats).countP f := by
  induction seats with
  | nil => rfl
  | cons s seats ih =>
      cases s with
      | none => simpa [seated] using ih
      | some p => simpa [seated, List.countP_cons] using ih

theorem countP_isSome (seats : List (Option Peer)) :
    seats.countP Option.isSome = (seated seats).length := by
  have hany : (Option.isSome : Option Peer → Bool) = fun s => s.any fun _ => true := by
    funext s
    cases s <;> rfl
  rw [hany, countP_seats, List.countP_true]

/-- Where there are as many members as seats, every seat is taken. -/
theorem exists_of_full {l : Lobby} (hfull : l.members.length = l.capacity)
    {s : Option Peer} (hs : s ∈ l.seats) : ∃ p ∈ l.members, s = some p := by
  have hall : l.seats.countP Option.isSome = l.seats.length := by
    rw [countP_isSome]
    exact hfull
  rcases Option.isSome_iff_exists.1 (List.countP_eq_length.1 hall s hs) with ⟨p, rfl⟩
  exact ⟨p, mem_members.2 hs, rfl⟩

theorem game?_eq_some_iff {l : Lobby} {game : Match} :
    l.game? = some game ↔ ∃ accepting, l.phase = .playing game accepting := by
  unfold game?
  cases l.phase <;> simp

/-- The book of a sound lobby is tidy. -/
theorem Sound.tidy_book {l : Lobby} (h : l.Sound) : l.book.Tidy := by
  constructor
  · rw [seats_book, countP_isSome]
    exact h.toNat_players.trans h.players_eq
  · rw [seats_book, countP_seats]
    exact h.toNat_readied.trans h.readied_eq
  · change UInt8.ofNat l.readied ≤ UInt8.ofNat l.players
    rw [UInt8.le_iff_toNat_le, h.toNat_readied, h.toNat_players]
    exact h.readied_le
  · change (UInt8.ofNat l.players).toNat ≤ l.seats.length
    rw [h.toNat_players, h.players_eq]
    exact length_seated_le l.seats
  · exact Option.isSome_iff_exists.symm
  · intro hplaying s hs
    rcases isPlaying_iff.1 hplaying with ⟨game, accepting, hphase⟩
    have hrunning := h.running game accepting hphase
    rcases exists_of_full hrunning.full hs with ⟨p, hp, rfl⟩
    exact ⟨p, rfl, hrunning.ready p hp⟩
  · exact isOpen_of_isPlaying
  · intro game hgame
    rcases game?_eq_some_iff.1 hgame with ⟨accepting, hphase⟩
    have hgoing := (h.running game accepting hphase).going
    rw [Match.isOver, Bool.or_eq_false_iff] at hgoing
    exact ⟨by simpa [Match.isWon] using hgoing.1, hgoing.2⟩
  · intro haccepting
    rw [isAccepting_book, isAccepting] at haccepting
    rw [isOpen_book, isOpen]
    cases hphase : l.phase <;> simp [hphase] at haccepting ⊢
  · intro hidle
    rw [isAccepting_book, isOpen_book, isAccepting, isOpen]
    cases hphase : l.phase with
    | closed => rfl
    | gathering => rfl
    | playing game accepting => exact absurd hphase (phase_ne_of_idle hidle game accepting)
  · intro hclosed s hs
    have hphase : l.phase = .closed := by simpa [isOpen] using hclosed
    cases s with
    | none => rfl
    | some p =>
        have hp := mem_members.2 hs
        rw [h.members_of_closed hphase] at hp
        cases hp

end Lobby

namespace Foyer

/-! ## Event by event -/

/-- The ledger of a foyer. -/
def ledger (f : Foyer) : Ledger := ⟨f.lobby.book, f.outside, f.draws⟩

/-- A peer that wants to come in is written into the book if it is let in. -/
theorem enter_ledger {f : Foyer} (h : f.lobby.Sound) (id : ConnectionId) :
    f.ledger.enter id = ((f.enter id).1.ledger, (f.enter id).2) := by
  have hbook : f.ledger.book = f.lobby.book := rfl
  have hcomer : f.ledger.comer id = f.comer id := rfl
  rw [Ledger.enter, enter, hbook, hcomer]
  cases hmember : f.lobby.member? id with
  | some p =>
      rcases Lobby.exists_find?_book hmember with ⟨i, -, hfind⟩
      rw [hfind]
  | none =>
      rw [Lobby.find?_book_of_none hmember]
      simp only [ledger, Lobby.book_seat h]
      cases f.lobby.seat (f.comer id) with
      | none => rfl
      | some r => rfl

/-- Every event takes the ledger of a foyer to the ledger of the foyer after it, with the same reply
and the same messages. -/
theorem step_ledger {f : Foyer} (h : f.lobby.Sound) (e : Event) :
    f.ledger.step e = ((f.step e).1.ledger, (f.step e).2) := by
  cases e with
  | openDoors => simp only [Ledger.step, step, ledger, Lobby.book_openDoors]
  | enter id => exact enter_ledger h id
  | ready id => simp only [Ledger.step, step, ledger, Lobby.book_ready h]
  | turn id column => simp only [Ledger.step, step, ledger, Lobby.book_turn]
  | leave id =>
      simp only [Ledger.step, step, ledger, Lobby.book_leave h]
      cases f.lobby.leave id with
      | none => rfl
      | some r => rfl
  | close => simp only [Ledger.step, step, ledger, Lobby.book_close]
  | hangUp id => simp only [Ledger.step, step, ledger, Lobby.book_hangUp]

/-! ## Runs -/

/-- So does every run. -/
theorem run_ledger {f : Foyer} (h : f.lobby.Sound) (es : List Event) :
    f.ledger.run es = ((f.run es).1.ledger, (f.run es).2) := by
  induction es generalizing f with
  | nil => rfl
  | cons e es ih =>
      rw [Ledger.run, step_ledger h]
      simp only [ih (kept_step h e).1]
      rfl

end Foyer

namespace Ledger

/-- Whatever happens to a new lobby of any size and for any board, in any order, with whatever
peers that wait outside and whatever first players chance chooses: its book is tidy afterwards and
has as many seats as it was given. -/
theorem tidy_run (number : Nat) (capacity columns rows : UInt8) (outside : List Peer)
    (draws : Draws) (es : List Foyer.Event) :
    let r : Ledger := ⟨Lobby.Book.new number capacity columns rows, outside, draws⟩
    (r.run es).1.book.Tidy ∧ (r.run es).1.book.seats.length = capacity.toNat := by
  intro r
  let f : Foyer := ⟨Lobby.new number capacity columns rows, outside, draws⟩
  have hnew : f.lobby.Sound := Lobby.sound_new number capacity columns rows
  have hledger : r = f.ledger := by rw [Foyer.ledger, Lobby.book_new]
  rcases Foyer.kept_run hnew es with ⟨hsound, hfixed⟩
  rw [hledger, Foyer.run_ledger hnew]
  refine ⟨hsound.tidy_book, hfixed.capacity_eq.trans ?_⟩
  exact List.length_replicate

end Ledger

end FourInRow
