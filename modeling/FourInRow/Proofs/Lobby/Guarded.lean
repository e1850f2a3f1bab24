import FourInRow.Proofs.Lobby.Book
import FourInRow.Proofs.Match.Guarded

/-!
# Lobbies step by step

A lobby keeps its tallies and its player numbers in bytes, looks its seats up by their numbers, and
lets chance choose a first player among as many as there are seats.  Whatever happens to a lobby of
whatever size, peers from outside with the numbers of other seats included, nothing of this comes to
a fault, and none of its matches fails.

Main results:

- Theorems `Sound.seatGuarded_eq`, `Sound.readyGuarded_eq`, `Sound.turnGuarded_eq`,
  `Sound.leaveGuarded_eq`: the operations on a sound lobby come to no fault.
- Theorem `stepGuarded_eq`: no event comes to a fault.
- Theorem `tallied_step`: the running match of a lobby remains tallied.
- Theorem `runGuarded_eq`: nothing that can happen to a new lobby does.
-/

namespace FourInRow

namespace Lobby

open Guard

/-! ## Seating -/

/-- Seats a newcomer in the first free seat and gives it the seat's player number, unless it has
one from before.  There is no answer if the newcomer is turned away. -/
def seatGuarded (l : Lobby) (p : Peer) : Except Fault (Option (Player × Lobby × Mail)) :=
  if l.hasFreeSeat then
    match l.seats.findIdx? Option.isNone with
    | none => return none
    | some i => do
      let index ← byte i
      let player ← byte (index.toNat + 1)
      let (p', mail) := { p with ready := false }.assign player
      let _ ← entry l.seats i
      let players ← count 8 (l.players + 1)
      return some (player, { l with seats := l.seats.set i (some p'), players := players }, mail)
  else return none

/-- A newcomer can be given the number of its seat, and counted. -/
theorem Sound.seatGuarded_eq {l : Lobby} (h : l.Sound) (p : Peer) :
    l.seatGuarded p = .ok (l.seat p) := by
  unfold Lobby.seatGuarded Lobby.seat
  by_cases hfree : l.hasFreeSeat = true
  · rw [if_pos hfree, if_pos hfree]
    have hcapacity := h.capacity_le
    have hroom := (h.hasFreeSeat_iff.1 hfree).2
    cases hfind : l.seats.findIdx? Option.isNone with
    | none => rfl
    | some i =>
        have hnone := getElem?_of_findIdx? hfind
        have hi : i < l.capacity := (List.getElem?_eq_some_iff.1 hnone).1
        have hindex : (UInt8.ofNat i).toNat = i :=
          UInt8.toNat_ofNat_of_lt' (by simp only [UInt8.size]; omega)
        have hnumber : ((UInt8.ofNat i).toNat : Int) + 1 = ((i + 1 : Nat) : Int) := by
          rw [hindex]
          rfl
        have hplayers : l.players + 1 < 2 ^ 8 := by
          rw [h.players_eq]
          omega
        simp only
        rw [byte_natCast (by omega), ok_bind, hnumber, byte_natCast (by omega), ok_bind,
          entry_eq_ok hnone, ok_bind, count_eq_ok hplayers]
        rfl
  · rw [if_neg hfree, if_neg hfree]
    rfl

/-- A tally that the seats do not bear out could not be counted up any further. -/
example : ({ Lobby.new 0 1 7 6 with phase := .gathering, players := 255 } : Lobby).seatGuarded
    (Peer.new ⟨1⟩) = .error .overflow := by cbv

/-! ## Ready -/

/-- Chooses a number from 1 up to the given one. -/
def firstGuarded (d : Draws) (n : UInt8) : Except Fault (UInt8 × Draws) :=
  if 0 < n.toNat then do
    let (choice, rest) := d.choose n.toNat
    let first ← byte (choice + 1)
    return (first, rest)
  else .error .noChoice

/-- Begins a match with a first player chosen by chance.  On a board size that is not playable no
match begins, and the choice is used up all the same. -/
def beginMatchGuarded (l : Lobby) (d : Draws) : Except Fault (Lobby × Draws × Mail) := do
  let players ← byte l.capacity
  let (first, d) ← firstGuarded d players
  match Match.new players first l.columns l.rows with
  | .error _ => return (l, d, [])
  | .ok game =>
    let size := game.board.size
    return ({ l with phase := .playing game false }, d,
      l.tellAll (fun p => p.matchBegins players size.columns size.rows first) ++
        l.requestTurn first)

/-- A member says that it is ready, which counts once; between matches only. -/
def readyGuarded (l : Lobby) (d : Draws) (id : ConnectionId) :
    Except Fault (Lobby × Draws × Mail) :=
  if l.isPlaying then return (l, d, [])
  else
    match l.member? id with
    | none => return (l, d, [])
    | some p =>
      if p.ready then return (l, d, [])
      else do
        let readied ← count 8 (l.readied + 1)
        let l' := { l.updateMember id (fun p => { p with ready := true }) with
          readied := readied }
        if l'.readied = l'.players ∧ l'.isFull then l'.beginMatchGuarded d
        else return (l', d, [])

/-- Where there is something to choose from the choice fits a byte. -/
theorem firstGuarded_eq {n : UInt8} (hn : 0 < n.toNat) (d : Draws) :
    firstGuarded d n =
      .ok (UInt8.ofNat ((d.choose n.toNat).1 + 1), (d.choose n.toNat).2) := by
  have htop := n.toNat_lt
  have hlt := Draws.choose_lt hn d
  have hchoice : ((d.choose n.toNat).1 : Int) + 1 = (((d.choose n.toNat).1 + 1 : Nat) : Int) := rfl
  rw [firstGuarded, if_pos hn]
  simp only
  rw [hchoice, byte_natCast (by omega), ok_bind, pure_eq_ok]

/-- A lobby with seats can begin a match. -/
theorem beginMatchGuarded_eq {l : Lobby} (hpos : 0 < l.capacity) (hle : l.capacity ≤ 255)
    (d : Draws) : l.beginMatchGuarded d = .ok (l.beginMatch d) := by
  have hseats : (UInt8.ofNat l.capacity).toNat = l.capacity :=
    UInt8.toNat_ofNat_of_lt' (by simp only [UInt8.size]; omega)
  have hfirst := firstGuarded_eq (n := UInt8.ofNat l.capacity) (by omega) d
  rw [hseats] at hfirst
  rw [beginMatchGuarded, byte_natCast (by omega), ok_bind, hfirst, ok_bind, beginMatch]
  simp only
  cases Match.new (UInt8.ofNat l.capacity) (UInt8.ofNat ((d.choose l.capacity).1 + 1)) l.columns
    l.rows with
  | error e => rfl
  | ok game => rfl

/-- A lobby without seats could not. -/
example (draws : Draws) :
    (Lobby.new 0 0 7 6).beginMatchGuarded draws = .error .noChoice := by cbv

/-- Where somebody says ready, there is a seat to choose, and those who are ready can be counted. -/
theorem Sound.readyGuarded_eq {l : Lobby} (h : l.Sound) (d : Draws) (id : ConnectionId) :
    l.readyGuarded d id = .ok (l.ready d id) := by
  unfold Lobby.readyGuarded Lobby.ready
  by_cases hplaying : l.isPlaying = true
  · rw [if_pos hplaying, if_pos hplaying]
    rfl
  · rw [if_neg hplaying, if_neg hplaying]
    cases hp : l.member? id with
    | none => rfl
    | some p =>
        by_cases hready : p.ready = true
        · simp only [if_pos hready, pure_eq_ok]
        · have hidle := Bool.eq_false_iff.2 hplaying
          have hnoted := h.noteReady hidle hp (Bool.eq_false_iff.2 hready)
          have hcapacity := hnoted.capacity_le
          have hmembers : (l.noteReady id).members.length ≤ (l.noteReady id).capacity :=
            length_seated_le _
          have hreadied : l.readied + 1 ≤ (l.noteReady id).members.length := by
            have hcount := hnoted.readied_eq
            change l.readied + 1 = _ at hcount
            rw [hcount]
            exact List.countP_le_length
          have hbegin := beginMatchGuarded_eq (l := l.noteReady id) (by omega) hcapacity d
          rw [Lobby.noteReady] at hbegin
          simp only [if_neg hready, count_eq_ok (show l.readied + 1 < 2 ^ 8 by omega), ok_bind,
            hbegin, pure_eq_ok]
          split <;> rfl

/-! ## Turns -/

/-- A member takes its turn.  That its match fails would be a fault. -/
def turnGuarded (l : Lobby) (id : ConnectionId) (column : UInt8) : Except Fault (Lobby × Mail) :=
  match l.member? id with
  | none => return (l, [])
  | some p =>
    match l.phase with
    | .playing game accepting => do
      let (game', result) ← game.turnGuarded p.player column
      let l' := { l with phase := .playing game' accepting }
      let outcome := l'.announceTurn p.player column result
      if game'.isOver then
        let (l'', mail) := l'.endMatch (game'.winner.getD nobody)
        return (l'', outcome ++ mail)
      else if result = .success then
        return (l', outcome ++ l'.requestTurn game'.current)
      else
        return (l', outcome)
    | _ => return (l, l.announceTurn p.player column .error)

/-- Has every turn of the running match left a piece on its board? -/
def Tallied (l : Lobby) : Prop :=
  ∀ game accepting, l.phase = .playing game accepting → game.Tallied

section

variable {l l' : Lobby}

/-- Opened doors do not change a running match. -/
theorem Tallied.openDoors (h : l.Tallied) : l.openDoors.Tallied := by
  intro game accepting hphase
  rcases phase_of_openDoors hphase with ⟨accepting', hbefore⟩
  exact h game accepting' hbefore

/-- Neither does a newcomer. -/
theorem Tallied.seat (h : l.Tallied) {p : Peer} {player : Player} {mail : Mail}
    (hs : l.seat p = some (player, l', mail)) : l'.Tallied := by
  rcases seat_eq_some_iff.1 hs with ⟨-, i, -, -, rfl, -⟩
  exact h

/-- A match that begins is tallied. -/
theorem Tallied.ready (h : l.Tallied) {d d' : Draws} {id : ConnectionId} {mail : Mail}
    (hr : Readied l d id l' d' mail) : l'.Tallied := by
  cases hr with
  | ignored => exact h
  | noted => exact h
  | unplayable => exact h
  | begun =>
      intro game accepting hphase
      cases hphase
      exact Match.tallied_start _ _ _

/-- A match that goes on remains tallied. -/
theorem Tallied.turn (h : l.Tallied) {id : ConnectionId} {column : UInt8} {mail : Mail}
    (ht : Turned l id column l' mail) : l'.Tallied := by
  cases ht with
  | stranger => exact h
  | idle => exact h
  | rejected => exact h
  | moved hp hphase hturned =>
      intro game accepting hphase'
      cases hphase'
      exact (h _ _ hphase).turn hturned
  | finished =>
      intro game accepting hphase
      cases hphase

/-- Where somebody has left no match runs. -/
theorem Tallied.leave (h : l.Tallied) {id : ConnectionId} {p : Peer} {mail : Mail}
    (hl : Left l id p l' mail) : l'.Tallied := by
  cases hl with
  | idle => exact h
  | brokenOff =>
      intro game accepting hphase
      cases hphase

end

/-- A running match that is tallied does not fail. -/
theorem Tallied.turnGuarded_eq {l : Lobby} (h : l.Tallied) (id : ConnectionId) (column : UInt8) :
    l.turnGuarded id column = .ok (l.turn id column) := by
  unfold Lobby.turnGuarded Lobby.turn
  cases l.member? id with
  | none => rfl
  | some p =>
      cases hphase : l.phase with
      | closed => rfl
      | gathering => rfl
      | playing game accepting =>
          rcases (h game accepting hphase).turnGuarded_eq p.player column with
            ⟨game', result, hturn, hguarded⟩
          simp only [hturn, hguarded, ok_bind, pure_eq_ok]
          split
          · rfl
          · split <;> rfl

/-! ## Leaving -/

/-- A member leaves; the running match is broken off.  There is no answer if the connection
belongs to no member. -/
def leaveGuarded (l : Lobby) (id : ConnectionId) :
    Except Fault (Option (Peer × Lobby × Mail)) :=
  match l.seats.findIdx? fun s => s.any fun q => q.id = id with
  | none => return none
  | some i => do
    match ← entry l.seats i with
    | none => return none
    | some p =>
      let players ← countDown l.players
      let readied ← (if p.ready ∧ 0 < l.readied then countDown l.readied else .ok l.readied)
      let l' := { l with seats := l.seats.set i none, players := players, readied := readied }
      if l.isPlaying then
        let (l'', mail) := l'.endMatch nobody
        return some (p, l'', mail)
      else
        return some (p, l', [])

/-- Whoever leaves has been counted. -/
theorem Sound.leaveGuarded_eq {l : Lobby} (h : l.Sound) (id : ConnectionId) :
    l.leaveGuarded id = .ok (l.leave id) := by
  unfold Lobby.leaveGuarded Lobby.leave
  cases hfind : l.seats.findIdx? fun s => s.any fun q => q.id = id with
  | none =>
      rw [member?_of_findIdx?_eq_none hfind]
      rfl
  | some i =>
      rcases member?_of_findIdx? hfind with ⟨p, hi, hp⟩
      rcases mem_of_member? hp with ⟨hmem, rfl⟩
      have hplayers : 0 < l.players := by
        rw [h.players_eq]
        exact List.length_pos_of_mem hmem
      have hreadied : (if p.ready = true ∧ 0 < l.readied then countDown l.readied
          else .ok l.readied) = .ok (if p.ready then l.readied - 1 else l.readied) := by
        by_cases hready : p.ready = true
        · by_cases hpos : 0 < l.readied
          · rw [if_pos ⟨hready, hpos⟩, if_pos hready, countDown_eq_ok hpos]
          · rw [if_neg fun hboth => hpos hboth.2, if_pos hready]
            congr 1
            omega
        · rw [if_neg fun hboth => hready hboth.1, if_neg hready]
      simp only [hp, entry_eq_ok hi, ok_bind, countDown_eq_ok hplayers, hreadied,
        clear_eq_set hi h.nodup, pure_eq_ok]
      split <;> rfl

end Lobby

namespace Foyer

open Guard

/-! ## Event by event -/

/-- A peer from outside, or a new one, wants to come in. -/
def enterGuarded (f : Foyer) (id : ConnectionId) : Except Fault (Foyer × Reply × Mail) :=
  match f.lobby.member? id with
  | some _ => return (f, .present, [])
  | none => do
    match ← f.lobby.seatGuarded (f.comer id) with
    | none => return ({ f with outside := f.others id ++ [f.comer id] }, .rejected, [])
    | some (player, lobby, mail) =>
      return ({ f with lobby := lobby, outside := f.others id }, .seated player, mail)

/-- One event. -/
def stepGuarded (f : Foyer) : Event → Except Fault (Foyer × Reply × Mail)
  | .enter id => f.enterGuarded id
  | .ready id => do
    let (lobby, draws, mail) ← f.lobby.readyGuarded f.draws id
    return ({ f with lobby := lobby, draws := draws }, .nothing, mail)
  | .turn id column => do
    let (lobby, mail) ← f.lobby.turnGuarded id column
    return ({ f with lobby := lobby }, .nothing, mail)
  | .leave id => do
    match ← f.lobby.leaveGuarded id with
    | none => return (f, .nothing, [])
    | some (p, lobby, mail) =>
      return ({ f with lobby := lobby, outside := f.outside ++ [p] }, .left p, mail)
  -- The other events only set what a lobby keeps, and count and choose nothing.
  | .openDoors => return f.step .openDoors
  | .close => return f.step .close
  | .hangUp id => return f.step (.hangUp id)

/-- A run of events, with all messages sent.  The first fault is the end of it. -/
def runGuarded (f : Foyer) : List Event → Except Fault (Foyer × Mail)
  | [] => return (f, [])
  | e :: es => do
    let (f', _, mail) ← f.stepGuarded e
    let (f'', more) ← f'.runGuarded es
    return (f'', mail ++ more)

/-- No event comes to a fault. -/
theorem stepGuarded_eq {f : Foyer} (h : f.lobby.Sound) (ht : f.lobby.Tallied) (e : Event) :
    f.stepGuarded e = .ok (f.step e) := by
  cases e with
  | openDoors => rfl
  | enter id =>
      simp only [stepGuarded, enterGuarded, step, enter, h.seatGuarded_eq, ok_bind, pure_eq_ok]
      cases f.lobby.member? id with
      | some p => rfl
      | none =>
          cases f.lobby.seat (f.comer id) with
          | none => rfl
          | some r => rfl
  | ready id => simp only [stepGuarded, step, h.readyGuarded_eq, ok_bind, pure_eq_ok]
  | turn id column => simp only [stepGuarded, step, ht.turnGuarded_eq, ok_bind, pure_eq_ok]
  | leave id =>
      simp only [stepGuarded, step, h.leaveGuarded_eq, ok_bind, pure_eq_ok]
      cases f.lobby.leave id with
      | none => rfl
      | some r => rfl
  | close => rfl
  | hangUp id => rfl

/-- Every event keeps the running match of a lobby tallied. -/
theorem tallied_step {f : Foyer} (h : f.lobby.Sound) (ht : f.lobby.Tallied) (e : Event) :
    (f.step e).1.lobby.Tallied := by
  cases e with
  | openDoors => exact ht.openDoors
  | enter id =>
      simp only [step, enter]
      cases f.lobby.member? id with
      | some p => exact ht
      | none =>
          cases hseat : f.lobby.seat (f.comer id) with
          | none => exact ht
          | some r =>
              rcases r with ⟨player, l', mail⟩
              exact ht.seat hseat
  | ready id => exact ht.ready (Lobby.Readied.of_ready f.lobby f.draws id)
  | turn id column => exact ht.turn (Lobby.Turned.of_turn h id column)
  | leave id =>
      simp only [step]
      cases hleave : f.lobby.leave id with
      | none => exact ht
      | some r =>
          rcases r with ⟨p, l', mail⟩
          exact ht.leave (Lobby.Left.of_leave hleave)
  | close =>
      have hclose : (f.step .close).1.lobby = f.lobby.emptied := Lobby.close_lobby f.lobby
      rw [hclose]
      intro game accepting hphase
      cases hphase
  | hangUp id => exact ht

/-! ## Runs -/

/-- No run comes to a fault, once a lobby is sound and its match is tallied. -/
theorem runGuarded_eq_of_sound {f : Foyer} (h : f.lobby.Sound) (ht : f.lobby.Tallied)
    (es : List Event) : f.runGuarded es = .ok (f.run es) := by
  induction es generalizing f with
  | nil => rfl
  | cons e es ih =>
      rw [runGuarded, stepGuarded_eq h ht, ok_bind]
      simp only
      rw [ih (kept_step h e).1 (tallied_step h ht e), ok_bind, run]
      rfl

/-- Whatever happens to a new lobby of any size and for any board, in any order, with whatever
peers that wait outside and whatever first players chance chooses: every count and every player
number fits its type, nothing is counted down from zero, chance always has a first player to choose,
every coordinate of a search fits 16 bits and names a slot by two bytes, every seat, pile and slot
that is looked up is there, and no match fails.  So the run with all steps guarded is the run. -/
theorem runGuarded_eq (number : Nat) (capacity columns rows : UInt8) (outside : List Peer)
    (draws : Draws) (es : List Event) :
    let f : Foyer := ⟨Lobby.new number capacity columns rows, outside, draws⟩
    f.runGuarded es = .ok (f.run es) := by
  intro f
  have hnew : f.lobby.Sound := Lobby.sound_new number capacity columns rows
  have htallied : f.lobby.Tallied := by
    intro game accepting hphase
    cases hphase
  exact runGuarded_eq_of_sound hnew htallied es

end Foyer

end FourInRow
