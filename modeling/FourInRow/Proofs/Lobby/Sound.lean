import FourInRow.Proofs.Lobby.Outcome

/-!
# Lobbies stay sound

Every operation on a lobby keeps its invariant, and none but seating and leaving changes who sits
where.

Main results:

- Theorems `Sound.seat`, `Sound.ready`, `Sound.turn`, `Sound.leave`, `Sound.emptied`: each
  operation keeps a lobby sound.
- Theorems `Readied.lineup_eq` and `Turned.lineup_eq`: saying ready and taking a turn leave
  everybody in place.
-/

namespace FourInRow

namespace Lobby

/-! ## Who sits where -/

/-- The seats, without telling who is ready. -/
def lineup (l : Lobby) : List (Option Peer) :=
  l.seats.map (Option.map fun p => { p with ready := false })

theorem seated_lineup (l : Lobby) :
    seated l.lineup = l.members.map fun p => { p with ready := false } :=
  seated_map l.seats _

@[simp] theorem lineup_noteReady (l : Lobby) (id : ConnectionId) :
    (l.noteReady id).lineup = l.lineup := by
  simp only [lineup, noteReady, updateMember, map_map_seats]
  refine map_seats_congr fun p _ => ?_
  split <;> rfl

@[simp] theorem lineup_endMatch (l : Lobby) (winner : Player) :
    (l.endMatch winner).1.lineup = l.lineup :=
  map_map_seats l.seats _ _

/-- Saying ready leaves everybody in place. -/
theorem Readied.lineup_eq {l l' : Lobby} {d d' : Draws} {id : ConnectionId} {mail : Mail}
    (h : Readied l d id l' d' mail) : l'.lineup = l.lineup := by
  cases h with
  | ignored => rfl
  | noted => exact lineup_noteReady l id
  | unplayable => exact lineup_noteReady l id
  | begun => exact lineup_noteReady l id

/-- Taking a turn leaves everybody in place. -/
theorem Turned.lineup_eq {l l' : Lobby} {id : ConnectionId} {column : UInt8} {mail : Mail}
    (h : Turned l id column l' mail) : l'.lineup = l.lineup := by
  cases h with
  | stranger => rfl
  | idle => rfl
  | rejected => rfl
  | moved => rfl
  | finished => exact lineup_endMatch l _

/-- Whoever sits in a seat sits there in every lobby with the same line-up, ready or not. -/
theorem seat_of_lineup_eq {l l' : Lobby} (h : l'.lineup = l.lineup) {i : Nat} {p : Peer}
    (hp : l'.seats[i]? = some (some p)) :
    ∃ q, l.seats[i]? = some (some q) ∧
      q.id = p.id ∧ q.player = p.player ∧ q.listening = p.listening := by
  have hget : l.lineup[i]? = some (some { p with ready := false }) := by
    rw [← h, lineup, List.getElem?_map, hp]
    rfl
  rw [lineup, List.getElem?_map, Option.map_eq_some_iff] at hget
  rcases hget with ⟨s, hs, hsome⟩
  rcases Option.map_eq_some_iff.1 hsome with ⟨q, rfl, hq⟩
  simp only [Peer.mk.injEq] at hq
  exact ⟨q, hs, hq.1, hq.2.1, hq.2.2.2⟩

/-- Whoever is a member of one lobby is a member, ready or not, of every lobby with the same
line-up. -/
theorem mem_of_lineup_eq {l l' : Lobby} (h : l'.lineup = l.lineup) {p : Peer}
    (hp : p ∈ l'.members) :
    ∃ q ∈ l.members, q.id = p.id ∧ q.player = p.player ∧ q.listening = p.listening := by
  rcases exists_seat_of_mem hp with ⟨i, hi⟩
  rcases seat_of_lineup_eq h hi with ⟨q, hq, hsame⟩
  exact ⟨q, mem_of_seat hq, hsame⟩

theorem map_id_of_lineup_eq {l l' : Lobby} (h : l'.lineup = l.lineup) :
    l'.members.map Peer.id = l.members.map Peer.id := by
  have hids : ∀ k : Lobby, (seated k.lineup).map Peer.id = k.members.map Peer.id := by
    intro k
    rw [seated_lineup, List.map_map]
    rfl
  rw [← hids l', ← hids l, h]

theorem capacity_of_lineup_eq {l l' : Lobby} (h : l'.lineup = l.lineup) :
    l'.capacity = l.capacity := by
  simpa [lineup, capacity] using congrArg List.length h

theorem length_members_of_lineup_eq {l l' : Lobby} (h : l'.lineup = l.lineup) :
    l'.members.length = l.members.length := by
  simpa using congrArg List.length (map_id_of_lineup_eq h)

/-! ## Opening and seating -/

theorem sound_new (number : Nat) (capacity columns rows : UInt8) :
    (new number capacity columns rows).Sound := by
  have hnone : (new number capacity columns rows).members = [] := by
    rw [members_eq_seated, List.eq_nil_iff_forall_not_mem]
    intro p hp
    have := List.eq_of_mem_replicate (mem_seated.1 hp)
    cases this
  constructor
  · have := capacity.toNat_lt
    simp only [Lobby.capacity, new, List.length_replicate]
    omega
  · rw [hnone]
    rfl
  · rw [hnone]
    rfl
  · rw [hnone]
    exact List.nodup_nil
  · intro game accepting h
    cases h
  · exact fun _ => hnone

/-- Opened doors do not end a running match. -/
theorem phase_of_openDoors {l : Lobby} {game : Match} {accepting : Bool}
    (h : l.openDoors.phase = .playing game accepting) :
    ∃ accepting, l.phase = .playing game accepting := by
  simp only [openDoors] at h
  split at h
  · next game' accepting' hphase =>
      cases h
      exact ⟨accepting', hphase⟩
  · cases h

theorem Sound.openDoors {l : Lobby} (h : l.Sound) : l.openDoors.Sound := by
  constructor
  · exact h.capacity_le
  · exact h.players_eq
  · exact h.readied_eq
  · exact h.nodup
  · intro game accepting hphase
    rcases phase_of_openDoors hphase with ⟨accepting', hphase'⟩
    have hrunning := h.running game accepting' hphase'
    exact ⟨hrunning.full, hrunning.ready, hrunning.sound, hrunning.going⟩
  · intro hclosed
    simp only [Lobby.openDoors] at hclosed
    split at hclosed <;> cases hclosed

/-- A peer keeps its connection and does not become ready by getting a number. -/
@[simp] theorem assign_id (p : Peer) (player : Player) : (p.assign player).1.id = p.id := by
  unfold Peer.assign
  split <;> rfl

@[simp] theorem assign_ready (p : Peer) (player : Player) :
    (p.assign player).1.ready = p.ready := by
  unfold Peer.assign
  split <;> rfl

/-- The members after a newcomer has been seated. -/
theorem perm_members_seat {l l' : Lobby} {p : Peer} {player : Player} {mail : Mail}
    (hs : l.seat p = some (player, l', mail)) :
    l'.members.Perm (({ p with ready := false }.assign player).1 :: l.members) := by
  rcases seat_eq_some_iff.1 hs with ⟨-, i, hi, -, rfl, -⟩
  exact perm_seated_set (getElem?_of_findIdx? hi) _

/-- A newcomer joins a lobby that gathers. -/
theorem Sound.seat {l l' : Lobby} {p : Peer} {player : Player} {mail : Mail} (h : l.Sound)
    (hs : l.seat p = some (player, l', mail)) (hp : p.id ∉ l.members.map Peer.id) :
    l'.Sound := by
  have hperm := perm_members_seat hs
  rcases seat_eq_some_iff.1 hs with ⟨hfree, i, hi, -, rfl, -⟩
  have hphase := (h.hasFreeSeat_iff.1 hfree).1
  constructor
  · simpa [Lobby.capacity] using h.capacity_le
  · rw [hperm.length_eq, List.length_cons, h.players_eq]
  · rw [hperm.countP_eq, List.countP_cons_of_neg (by simp), h.readied_eq]
  · rw [(hperm.map Peer.id).nodup_iff, List.map_cons, assign_id, List.nodup_cons]
    exact ⟨hp, h.nodup⟩
  · intro game accepting hplaying
    rw [hphase] at hplaying
    cases hplaying
  · intro hclosed
    rw [hphase] at hclosed
    cases hclosed

/-! ## Matches -/

/-- When a match has ended nobody is ready. -/
theorem members_endMatch (l : Lobby) (winner : Player) :
    (l.endMatch winner).1.members = l.members.map fun p => { p with ready := false } :=
  seated_map l.seats _

/-- A match that ends leaves a lobby in which nobody is ready. -/
theorem sound_endMatch {l : Lobby} (hcapacity : l.capacity ≤ 255)
    (hplayers : l.players = l.members.length) (hnodup : (l.members.map Peer.id).Nodup)
    (winner : Player) : (l.endMatch winner).1.Sound := by
  have hlineup := lineup_endMatch l winner
  constructor
  · rw [capacity_of_lineup_eq hlineup]
    exact hcapacity
  · rw [length_members_of_lineup_eq hlineup, ← hplayers]
    rfl
  · rw [members_endMatch, List.countP_map]
    exact (List.countP_eq_zero.2 (by simp)).symm
  · rw [map_id_of_lineup_eq hlineup]
    exact hnodup
  · intro game accepting hphase
    cases hphase
  · intro hphase
    cases hphase

theorem members_noteReady (l : Lobby) (id : ConnectionId) :
    (l.noteReady id).members =
      l.members.map fun p => if p.id = id then { p with ready := true } else p :=
  seated_map l.seats _

/-- One more member is ready after its readiness has been noted. -/
theorem Sound.countP_noteReady {l : Lobby} (h : l.Sound) {id : ConnectionId} {p : Peer}
    (hp : l.member? id = some p) (hready : p.ready = false) :
    ((l.noteReady id).members.countP fun p => p.ready) = l.readied + 1 := by
  rcases mem_of_member? hp with ⟨hmem, rfl⟩
  rcases exists_split h.nodup hmem with ⟨before, after, hsplit, hother⟩
  rw [members_noteReady, h.readied_eq, hsplit, map_update_split hother]
  simp only [List.countP_append, List.countP_cons, hready]
  simp
  omega

theorem Sound.noteReady {l : Lobby} (h : l.Sound) (hidle : l.isPlaying = false)
    {id : ConnectionId} {p : Peer} (hp : l.member? id = some p) (hready : p.ready = false) :
    (l.noteReady id).Sound := by
  have hlineup := lineup_noteReady l id
  constructor
  · rw [capacity_noteReady]
    exact h.capacity_le
  · rw [length_members_of_lineup_eq hlineup, ← h.players_eq]
    rfl
  · rw [h.countP_noteReady hp hready]
    rfl
  · rw [map_id_of_lineup_eq hlineup]
    exact h.nodup
  · exact fun game accepting hphase => absurd hphase (phase_ne_of_idle hidle game accepting)
  · intro hclosed
    rw [members_noteReady, h.members_of_closed hclosed]
    rfl

/-- A match begins soundly where every seat is taken by a ready peer. -/
theorem Sound.withMatch {l : Lobby} (h : l.Sound) (hfull : l.members.length = l.capacity)
    (hready : ∀ p ∈ l.members, p.ready = true) (first : Player) (size : Board.Size) :
    (l.withMatch first size).Sound := by
  constructor
  · exact h.capacity_le
  · exact h.players_eq
  · exact h.readied_eq
  · exact h.nodup
  · intro game accepting hphase
    cases hphase
    exact ⟨hfull, hready, Match.sound_start _ first size, Match.isOver_start _ first size⟩
  · intro hclosed
    cases hclosed

/-- When the last member says ready, everybody is. -/
theorem Sound.all_ready {l : Lobby} (h : l.Sound) {id : ConnectionId} {p : Peer}
    (hp : l.member? id = some p) (hready : p.ready = false)
    (hall : l.readied + 1 = l.players) : ∀ q ∈ (l.noteReady id).members, q.ready = true := by
  have hcount := h.countP_noteReady hp hready
  rw [hall, h.players_eq, ← length_members_of_lineup_eq (lineup_noteReady l id),
    List.countP_eq_length] at hcount
  exact hcount

/-- Saying ready keeps a lobby sound. -/
theorem Sound.ready {l l' : Lobby} {d d' : Draws} {id : ConnectionId} {mail : Mail}
    (h : l.Sound) (hr : Readied l d id l' d' mail) : l'.Sound := by
  cases hr with
  | ignored => exact h
  | noted hidle hp hready => exact h.noteReady hidle hp hready
  | unplayable hidle hp hready => exact h.noteReady hidle hp hready
  | begun hidle hp hready hall hfull =>
      refine (h.noteReady hidle hp hready).withMatch ?_ (h.all_ready hp hready hall) _ _
      rw [length_members_of_lineup_eq (lineup_noteReady l id), capacity_noteReady,
        ← h.players_eq]
      simpa [isFull] using hfull

/-- Taking a turn keeps a lobby sound. -/
theorem Sound.turn {l l' : Lobby} {id : ConnectionId} {column : UInt8} {mail : Mail}
    (h : l.Sound) (ht : Turned l id column l' mail) : l'.Sound := by
  cases ht with
  | stranger => exact h
  | idle => exact h
  | rejected => exact h
  | @moved p game game' accepting hp hphase hturned hgoing =>
      constructor
      · exact h.capacity_le
      · exact h.players_eq
      · exact h.readied_eq
      · exact h.nodup
      · intro game'' accepting' hphase'
        cases hphase'
        have hrunning := h.running game accepting hphase
        exact ⟨hrunning.full, hrunning.ready, hrunning.sound.turn hturned, hgoing⟩
      · intro hclosed
        cases hclosed
  | finished => exact sound_endMatch h.capacity_le h.players_eq h.nodup _

/-! ## Leaving and closing -/

theorem members_vacate (l : Lobby) (id : ConnectionId) (p : Peer) :
    (l.vacate id p).members = l.members.filter fun q => q.id ≠ id :=
  seated_clear l.seats id

@[simp] theorem capacity_vacate (l : Lobby) (id : ConnectionId) (p : Peer) :
    (l.vacate id p).capacity = l.capacity := by
  simp [capacity, vacate]

theorem Sound.players_vacate {l : Lobby} (h : l.Sound) {id : ConnectionId} {p : Peer}
    (hp : l.member? id = some p) :
    (l.vacate id p).players = (l.vacate id p).members.length := by
  rcases mem_of_member? hp with ⟨hmem, rfl⟩
  rcases exists_split h.nodup hmem with ⟨before, after, hsplit, hother⟩
  rw [members_vacate, hsplit, filter_split hother]
  have hplayers := h.players_eq
  rw [hsplit] at hplayers
  simp only [vacate, hplayers, List.length_append, List.length_cons]
  omega

theorem Sound.nodup_vacate {l : Lobby} (h : l.Sound) (id : ConnectionId) (p : Peer) :
    ((l.vacate id p).members.map Peer.id).Nodup := by
  rw [members_vacate]
  exact h.nodup.sublist (List.filter_sublist.map Peer.id)

theorem Sound.readied_vacate {l : Lobby} (h : l.Sound) {id : ConnectionId} {p : Peer}
    (hp : l.member? id = some p) :
    (l.vacate id p).readied = (l.vacate id p).members.countP fun q => q.ready := by
  rcases mem_of_member? hp with ⟨hmem, rfl⟩
  rcases exists_split h.nodup hmem with ⟨before, after, hsplit, hother⟩
  rw [members_vacate, hsplit, filter_split hother]
  have hreadied := h.readied_eq
  rw [hsplit] at hreadied
  simp only [List.countP_append, List.countP_cons] at hreadied ⊢
  cases hready : p.ready with
  | true =>
      simp only [vacate, hready, if_true] at hreadied ⊢
      omega
  | false =>
      simp [vacate, hready] at hreadied ⊢
      omega

/-- Leaving keeps a lobby sound. -/
theorem Sound.leave {l l' : Lobby} {id : ConnectionId} {p : Peer} {mail : Mail}
    (h : l.Sound) (hl : Left l id p l' mail) : l'.Sound := by
  cases hl with
  | idle hp hidle =>
      constructor
      · rw [capacity_vacate]
        exact h.capacity_le
      · exact h.players_vacate hp
      · exact h.readied_vacate hp
      · exact h.nodup_vacate id p
      · exact fun game accepting hphase => absurd hphase (phase_ne_of_idle hidle game accepting)
      · intro hclosed
        rw [members_vacate, h.members_of_closed hclosed]
        rfl
  | brokenOff hp =>
      refine sound_endMatch ?_ (h.players_vacate hp) (h.nodup_vacate id p) _
      rw [capacity_vacate]
      exact h.capacity_le

/-- Whoever leaves was a member. -/
theorem Left.mem {l l' : Lobby} {id : ConnectionId} {p : Peer} {mail : Mail}
    (h : Left l id p l' mail) : id ∈ l.members.map Peer.id := by
  cases h with
  | idle hp =>
      rcases mem_of_member? hp with ⟨hmem, rfl⟩
      exact List.mem_map_of_mem hmem
  | brokenOff hp =>
      rcases mem_of_member? hp with ⟨hmem, rfl⟩
      exact List.mem_map_of_mem hmem

/-- Nobody but the one who leaves is missing afterwards. -/
theorem Left.mem_map_id {l l' : Lobby} {id : ConnectionId} {p : Peer} {mail : Mail}
    (h : Left l id p l' mail) (i : ConnectionId) :
    i ∈ l'.members.map Peer.id ↔ i ∈ l.members.map Peer.id ∧ i ≠ id := by
  have hvacate : i ∈ (l.vacate id p).members.map Peer.id ↔
      i ∈ l.members.map Peer.id ∧ i ≠ id := by
    rw [members_vacate, List.mem_map, List.mem_map]
    constructor
    · rintro ⟨q, hq, rfl⟩
      rcases List.mem_filter.1 hq with ⟨hmem, hne⟩
      exact ⟨⟨q, hmem, rfl⟩, by simpa using hne⟩
    · rintro ⟨⟨q, hq, rfl⟩, hne⟩
      exact ⟨q, List.mem_filter.2 ⟨hq, by simpa using hne⟩, rfl⟩
  cases h with
  | idle => exact hvacate
  | brokenOff =>
      rw [map_id_of_lineup_eq (lineup_endMatch _ nobody)]
      exact hvacate

/-- A lobby that has been emptied is sound, as long as it is not too large. -/
theorem Sound.emptied {l : Lobby} (h : l.Sound) : l.emptied.Sound := by
  have hcapacity : l.emptied.capacity = l.capacity := by simp [capacity, Lobby.emptied]
  constructor
  · rw [hcapacity]
    exact h.capacity_le
  · rw [members_emptied]
    rfl
  · rw [members_emptied]
    rfl
  · rw [members_emptied]
    exact List.nodup_nil
  · intro game accepting hphase
    cases hphase
  · exact fun _ => members_emptied l

/-! ## Recipients -/

/-- Saying ready makes a lobby talk to its members only. -/
theorem Readied.recipient_mem {l l' : Lobby} {d d' : Draws} {id : ConnectionId} {mail : Mail}
    (h : Readied l d id l' d' mail) {e : ConnectionId × Message} (he : e ∈ mail) :
    e.1 ∈ l.members.map Peer.id := by
  cases h with
  | begun =>
      rw [← map_id_of_lineup_eq (lineup_noteReady l id)]
      rcases List.mem_append.1 he with he | he
      · exact mem_of_mem_tellAll (Peer.matchBegins_addressed _ _ _ _) he
      · exact mem_of_mem_tellAll (Peer.turnRequested_addressed _) he
  | _ => cases he

/-- Taking a turn makes a lobby talk to its members only. -/
theorem Turned.recipient_mem {l l' : Lobby} {id : ConnectionId} {column : UInt8} {mail : Mail}
    (h : Turned l id column l' mail) {e : ConnectionId × Message} (he : e ∈ mail) :
    e.1 ∈ l.members.map Peer.id := by
  cases h with
  | stranger => cases he
  | idle => exact mem_of_mem_tellAll (Peer.turnTaken_addressed _ _ _) he
  | rejected => exact mem_of_mem_tellAll (Peer.turnTaken_addressed _ _ _) he
  | moved =>
      rcases List.mem_append.1 he with he | he
      · exact mem_of_mem_tellAll (Peer.turnTaken_addressed _ _ _) he
      · exact mem_of_mem_tellAll (Peer.turnRequested_addressed _) he
  | finished =>
      rcases List.mem_append.1 he with he | he
      · exact mem_of_mem_tellAll (Peer.turnTaken_addressed _ _ _) he
      · exact mem_of_mem_tellAll (Peer.matchEnds_addressed _) he

/-- Leaving makes a lobby talk to its members only. -/
theorem Left.recipient_mem {l l' : Lobby} {id : ConnectionId} {p : Peer} {mail : Mail}
    (h : Left l id p l' mail) {e : ConnectionId × Message} (he : e ∈ mail) :
    e.1 ∈ l.members.map Peer.id := by
  cases h with
  | idle => cases he
  | brokenOff =>
      have hmem := mem_of_mem_tellAll (Peer.matchEnds_addressed nobody) he
      rw [members_vacate] at hmem
      exact (List.filter_sublist.map Peer.id).subset hmem

/-- Whoever leaves hears nothing more. -/
theorem Left.recipient_ne {l l' : Lobby} {id : ConnectionId} {p : Peer} {mail : Mail}
    (h : Left l id p l' mail) {e : ConnectionId × Message} (he : e ∈ mail) : e.1 ≠ id := by
  cases h with
  | idle => cases he
  | brokenOff =>
      have hmem := mem_of_mem_tellAll (Peer.matchEnds_addressed nobody) he
      rw [members_vacate] at hmem
      rcases List.mem_map.1 hmem with ⟨q, hq, hid⟩
      rw [← hid]
      exact of_decide_eq_true (List.mem_filter.1 hq).2

/-- Closing makes a lobby talk to its members only. -/
theorem recipient_mem_close {l : Lobby} {e : ConnectionId × Message} (he : e ∈ l.close.2.2) :
    e.1 ∈ l.members.map Peer.id := by
  rw [close_mail] at he
  split at he
  · exact mem_of_mem_tellAll (Peer.matchEnds_addressed nobody) he
  · cases he

/-- A newcomer is the only one that hears of its seat. -/
theorem recipient_of_seat {l l' : Lobby} {p : Peer} {player : Player} {mail : Mail}
    (hseat : l.seat p = some (player, l', mail)) {e : ConnectionId × Message} (he : e ∈ mail) :
    e.1 = p.id := by
  rcases seat_eq_some_iff.1 hseat with ⟨-, i, -, -, -, rfl⟩
  unfold Peer.assign at he
  split at he
  · cases he
  · exact Peer.tell_addressed (fun _ => .connected player) _ e he

/-! ## Hanging up -/

/-- Whoever stops listening remains a member. -/
theorem map_id_hangUp (l : Lobby) (id : ConnectionId) :
    (l.hangUp id).members.map Peer.id = l.members.map Peer.id := by
  rw [members_hangUp, List.map_map]
  apply List.map_congr_left
  intro p hp
  simp only [Function.comp]
  split <;> rfl

/-- A peer that has stopped listening is the same otherwise. -/
theorem Sound.hangUp {l : Lobby} (h : l.Sound) (id : ConnectionId) : (l.hangUp id).Sound := by
  have hready : ∀ p : Peer, (if p.id = id then p.hangUp else p).ready = p.ready := by
    intro p
    split <;> rfl
  have hlength : (l.hangUp id).members.length = l.members.length := by simp
  have hcapacity : (l.hangUp id).capacity = l.capacity := by
    simp [capacity, Lobby.hangUp, updateMember]
  constructor
  · rw [hcapacity]
    exact h.capacity_le
  · rw [hlength]
    exact h.players_eq
  · rw [members_hangUp, List.countP_map]
    simp only [Function.comp_def, hready]
    exact h.readied_eq
  · rw [map_id_hangUp]
    exact h.nodup
  · intro game accepting hphase
    have hrunning := h.running game accepting hphase
    refine ⟨?_, ?_, hrunning.sound, hrunning.going⟩
    · rw [hlength, hcapacity]
      exact hrunning.full
    · intro p hp
      rw [members_hangUp] at hp
      rcases List.mem_map.1 hp with ⟨q, hq, rfl⟩
      rw [hready]
      exact hrunning.ready q hq
  · intro hclosed
    rw [members_hangUp, h.members_of_closed hclosed]
    rfl

end Lobby

end FourInRow
