import FourInRow.Proofs.Lobby.Numbered

/-!
# A seat changes hands

When a member leaves, its seat becomes free, and the running match is broken off.  Whoever gets the
seat takes over its number.  `Lobby.handOver` says at once what becomes of a lobby whose member is
replaced, or leaves for good.

Main results:

- Theorem `Sound.leave_eq`: what a lobby is when a member has left, and whom it tells.
- Theorem `Sound.seat_handOver`: the only seat that is free in it goes to the first one who comes.
- Theorem `Sound.handedOver`: what changes in a lobby when a seat changes hands, seat by seat.
-/

namespace FourInRow

namespace Lobby

/-- A member after the running match, if there is one, has been broken off. -/
def settled (l : Lobby) (q : Peer) : Peer := if l.isPlaying then { q with ready := false } else q

/-- The lobby after the member in the seat with index `i` has left it to an heir, if there is one,
together with its number.  The match is broken off if one is running, and then nobody is ready any
more. -/
def handOver (l : Lobby) (i : Nat) (p : Peer) (heir : Option Peer) : Lobby :=
  { l with
    seats := (l.seats.map (Option.map l.settled)).set i
      (heir.map fun q => { q with player := p.player, ready := false })
    players := l.players - 1 + heir.toList.length
    readied := if l.isPlaying then 0 else if p.ready then l.readied - 1 else l.readied
    phase := .gathering }

/-- What a lobby says when a member leaves: the others hear of the end of the running match. -/
def farewell (l : Lobby) (id : ConnectionId) : Mail :=
  if l.isPlaying then (l.members.filter fun q => q.id ≠ id).flatMap fun q => q.matchEnds nobody
  else []

variable {l : Lobby} {i : Nat} {p : Peer}

/-- A connection has one seat. -/
theorem Sound.seat_unique (h : l.Sound) (hn : l.Numbered) (hp : l.seats[i]? = some (some p))
    {j : Nat} {q : Peer} (hq : l.seats[j]? = some (some q)) (hid : q.id = p.id) : j = i := by
  have hsame : q = p := List.inj_on_of_nodup_map h.nodup (mem_of_seat hq) (mem_of_seat hp) hid
  have hplayer := hn.toNat_player h hq
  rw [hsame, hn.toNat_player h hp] at hplayer
  omega

/-- Whoever leaves clears its own seat and no other. -/
theorem Sound.seats_vacate (h : l.Sound) (hn : l.Numbered) (hp : l.seats[i]? = some (some p)) :
    (l.vacate p.id p).seats = l.seats.set i none := by
  apply List.ext_getElem?
  intro j
  simp only [vacate, List.getElem?_map]
  by_cases hj : i = j
  · subst hj
    rw [hp, List.getElem?_set_self (List.getElem?_eq_some_iff.1 hp).1]
    simp
  · rw [List.getElem?_set_ne hj]
    cases hs : l.seats[j]? with
    | none => rfl
    | some s =>
        cases s with
        | none => rfl
        | some q =>
            have hne : q.id ≠ p.id := fun hid => hj (h.seat_unique hn hp hs hid).symm
            simp [hne]

/-- A lobby that somebody has left while no match was running. -/
theorem Sound.vacate_eq (h : l.Sound) (hn : l.Numbered) (hp : l.seats[i]? = some (some p))
    (hidle : l.isPlaying = false) : l.vacate p.id p = l.handOver i p none := by
  have hphase : l.phase = .gathering := by
    cases hphase : l.phase with
    | gathering => rfl
    | closed =>
        have hmem := mem_of_seat hp
        rw [h.members_of_closed hphase] at hmem
        cases hmem
    | playing game accepting => exact absurd hphase (phase_ne_of_idle hidle game accepting)
  have hsettled : l.settled = id := funext fun q => by simp [settled, hidle]
  have hseats : (l.vacate p.id p).seats = (l.handOver i p none).seats := by
    simp [h.seats_vacate hn hp, handOver, hsettled]
  have hreadied : (l.vacate p.id p).readied = (l.handOver i p none).readied := by
    simp [vacate, handOver, hidle]
  rw [Lobby.mk.injEq]
  exact ⟨rfl, hseats, rfl, hreadied, rfl, rfl, hphase⟩

/-- A lobby that somebody has left in the middle of a match. -/
theorem Sound.endMatch_vacate (h : l.Sound) (hn : l.Numbered) (hp : l.seats[i]? = some (some p))
    (hplaying : l.isPlaying = true) :
    (l.vacate p.id p).endMatch nobody = (l.handOver i p none, l.farewell p.id) := by
  have hsettled : l.settled = fun q => { q with ready := false } :=
    funext fun q => by simp [settled, hplaying]
  have hseats : ((l.vacate p.id p).endMatch nobody).1.seats = (l.handOver i p none).seats := by
    simp [endMatch, h.seats_vacate hn hp, handOver, hsettled, List.map_set]
  have hreadied : ((l.vacate p.id p).endMatch nobody).1.readied =
      (l.handOver i p none).readied := by
    simp [endMatch, handOver, hplaying]
  rw [Prod.ext_iff, Lobby.mk.injEq]
  refine ⟨⟨rfl, hseats, rfl, hreadied, rfl, rfl, rfl⟩, ?_⟩
  rw [farewell, if_pos hplaying, ← members_vacate]
  rfl

/-- What a lobby is when a member has left, and whom it tells. -/
theorem Sound.leave_eq (h : l.Sound) (hn : l.Numbered) (hp : l.seats[i]? = some (some p)) :
    l.leave p.id = some (p, l.handOver i p none, l.farewell p.id) := by
  have hmember : l.member? p.id = some p :=
    (member?_eq_some_iff h.nodup).2 ⟨mem_of_seat hp, rfl⟩
  unfold Lobby.leave
  simp only [hmember]
  change (if l.isPlaying = true then
    some (p, ((l.vacate p.id p).endMatch nobody).1, ((l.vacate p.id p).endMatch nobody).2)
    else some (p, l.vacate p.id p, [])) = _
  by_cases hplaying : l.isPlaying = true
  · rw [if_pos hplaying, h.endMatch_vacate hn hp hplaying]
  · have hidle := Bool.eq_false_iff.2 hplaying
    have hsilent : l.farewell p.id = [] := by simp [farewell, hidle]
    rw [if_neg hplaying, h.vacate_eq hn hp hidle, hsilent]

/-! ## The heir -/

/-- A lobby is full again as soon as an heir has the only free seat. -/
theorem Sound.no_free_seat_handOver (h : l.Sound) (hfull : l.members.length = l.capacity)
    (hp : l.seats[i]? = some (some p)) (q : Peer) :
    (l.handOver i p (some q)).hasFreeSeat = false := by
  have hpos : 0 < l.capacity := (Nat.zero_le i).trans_lt (List.getElem?_eq_some_iff.1 hp).1
  have hcapacity : (l.handOver i p (some q)).capacity = l.capacity := by
    simp [handOver, capacity]
  have hplayers : (l.handOver i p (some q)).players = l.capacity := by
    simp only [handOver, h.players_eq, hfull, Option.toList_some, List.length_singleton]
    omega
  simp [hasFreeSeat, isFull, hcapacity, hplayers]

/-- Only one seat is free in a full lobby that somebody has left. -/
theorem findIdx?_handOver (hfull : l.members.length = l.capacity)
    (hp : l.seats[i]? = some (some p)) :
    (l.handOver i p none).seats.findIdx? Option.isNone = some i := by
  have hi := (List.getElem?_eq_some_iff.1 hp).1
  rw [List.findIdx?_eq_some_iff_getElem]
  refine ⟨by simpa [handOver] using hi, by simp [handOver], fun j hj => ?_⟩
  rcases exists_seat_of_full hfull (i := j) (hj.trans hi) with ⟨q, hq⟩
  have hget := (List.getElem?_eq_some_iff.1 hq).2
  simp [handOver, List.getElem_set_ne hj.ne', hget]

theorem Sound.free_seat_handOver (h : l.Sound) (hfull : l.members.length = l.capacity)
    (hp : l.seats[i]? = some (some p)) : (l.handOver i p none).hasFreeSeat = true := by
  have hpos : 0 < l.capacity := (Nat.zero_le i).trans_lt (List.getElem?_eq_some_iff.1 hp).1
  have hcapacity : (l.handOver i p none).capacity = l.capacity := by simp [handOver, capacity]
  have hplayers : (l.handOver i p none).players ≠ l.capacity := by
    simp only [handOver, h.players_eq, hfull, Option.toList_none, List.length_nil]
    omega
  rw [hasFreeSeat, isFull, hcapacity, beq_eq_false_iff_ne.2 hplayers]
  rfl

/-- The only free seat goes to the first one who comes, together with its number. -/
theorem Sound.seat_handOver (h : l.Sound) (hn : l.Numbered)
    (hfull : l.members.length = l.capacity) (hp : l.seats[i]? = some (some p)) {q : Peer}
    (hplayer : q.player = nobody) :
    (l.handOver i p none).seat q =
      some (p.player, l.handOver i p (some q), q.tell (.connected p.player)) := by
  have hassign := assign_of_nobody (p := { q with ready := false }) hplayer p.player
  refine seat_eq_some_iff.2
    ⟨h.free_seat_handOver hfull hp, i, findIdx?_handOver hfull hp, hn i p hp, ?_, ?_⟩
  · rw [hassign]
    simp [handOver]
  · rw [hassign]
    rfl

/-! ## What has changed -/

/-- What becomes of a lobby when the member `p` leaves the seat with index `i` to an heir, if there
is one. -/
structure HandedOver (l : Lobby) (i : Nat) (p : Peer) (heir : Option Peer) (l' : Lobby) :
    Prop where
  fixed : Fixed l l'
  /-- No match is running, and newcomers are let in. -/
  phase_eq : l'.phase = .gathering
  /-- The heir gets the seat with its number, and is not ready. -/
  seat_eq : l'.seats[i]? = some (heir.map fun q => { q with player := p.player, ready := false })
  number_eq : p.player.toNat = i + 1
  /-- In the other seats everybody stays, ready as before unless a match was running. -/
  others_eq : ∀ j, j ≠ i → l'.seats[j]? = l.seats[j]?.map (Option.map fun q =>
    if l.isPlaying then { q with ready := false } else q)
  players_eq : l'.players + 1 = l.players + heir.toList.length
  readied_of_playing : l.isPlaying = true → l'.readied = 0
  /-- Between matches there is one less who is ready exactly if the one that leaves was. -/
  readied_of_idle : l.isPlaying = false → l'.readied + (if p.ready then 1 else 0) = l.readied

/-- What changes in a lobby when a seat changes hands. -/
theorem Sound.handedOver (h : l.Sound) (hn : l.Numbered) (hp : l.seats[i]? = some (some p))
    (heir : Option Peer) : l.HandedOver i p heir (l.handOver i p heir) where
  fixed := ⟨rfl, by simp [handOver, capacity], rfl, rfl⟩
  phase_eq := rfl
  seat_eq := by
    have hi := (List.getElem?_eq_some_iff.1 hp).1
    rw [handOver, List.getElem?_set_self (by simpa using hi)]
  number_eq := hn.toNat_player h hp
  others_eq j hj := by
    rw [handOver, List.getElem?_set_ne hj.symm, List.getElem?_map]
    rfl
  players_eq := by
    have hpos := List.length_pos_of_mem (mem_of_seat hp)
    rw [← h.players_eq] at hpos
    simp only [handOver]
    omega
  readied_of_playing hplaying := by simp [handOver, hplaying]
  readied_of_idle hidle := by
    by_cases hready : p.ready = true
    · have hcount : 0 < l.readied := by
        rw [h.readied_eq]
        exact List.countP_pos_iff.2 ⟨p, mem_of_seat hp, hready⟩
      simp only [handOver, hidle, hready, if_true]
      exact Nat.succ_pred_eq_of_pos hcount
    · simp [handOver, hidle, hready]

/-! ## What is heard of it -/

/-- Whoever stays hears of the end of the running match. -/
theorem Sound.messagesTo_farewell (h : l.Sound) {id : ConnectionId} {q : Peer}
    (hq : q ∈ l.members) (hid : q.id ≠ id) : (l.farewell id).messagesTo q.id =
      if l.isPlaying = true ∧ q.listening = true then [.gameEnd nobody] else [] := by
  by_cases hplaying : l.isPlaying = true
  · have hmem : q ∈ (l.vacate id q).members := by
      rw [members_vacate]
      exact List.mem_filter.2 ⟨hq, decide_eq_true hid⟩
    have htold := messagesTo_tellAll (Peer.matchEnds_addressed nobody) (h.nodup_vacate id q) hmem
    rw [tellAll, members_vacate] at htold
    rw [farewell, if_pos hplaying, htold, Peer.matchEnds, Peer.map_snd_tell]
    simp [hplaying]
  · simp [farewell, hplaying]

/-- Nobody else hears anything. -/
theorem recipient_of_farewell {id : ConnectionId} {e : ConnectionId × Message}
    (he : e ∈ l.farewell id) : e.1 ∈ l.members.map Peer.id ∧ e.1 ≠ id := by
  unfold farewell at he
  split at he
  · rcases List.mem_flatMap.1 he with ⟨q, hq, heq⟩
    rcases List.mem_filter.1 hq with ⟨hmem, hne⟩
    rw [Peer.matchEnds_addressed nobody q e heq]
    exact ⟨List.mem_map_of_mem hmem, of_decide_eq_true hne⟩
  · cases he

end Lobby

end FourInRow
