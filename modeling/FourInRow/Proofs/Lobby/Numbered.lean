import FourInRow.Proofs.Lobby.Sound

/-!
# Player numbers in a lobby

In a hall every peer is seated once in its life, so its player number tells its seat.  This module
shows that the operations on a lobby keep it so, and that they leave alone what a lobby never
changes: its number, its size and the board it plays on.

Main results:

- Theorem `Numbered.seat`: a peer without a number gets the number of its seat.
- Theorem `Numbered.eq_of_player_eq`: different members have different numbers.
- Theorems `Fixed.seat`, `Fixed.ready`, `Fixed.turn`, `Fixed.leave`: what never changes.
-/

namespace FourInRow

namespace Lobby

/-! ## Numbers and seats -/

/-- Does every member bear the number of its seat, counted from 1? -/
def Numbered (l : Lobby) : Prop :=
  ∀ i p, l.seats[i]? = some (some p) → p.player = UInt8.ofNat (i + 1)

/-- The number of a seat fits a byte. -/
theorem Sound.toNat_seat {l : Lobby} (h : l.Sound) {i : Nat} (hi : i < l.seats.length) :
    (UInt8.ofNat (i + 1)).toNat = i + 1 := by
  have hle : l.seats.length ≤ 255 := h.capacity_le
  exact UInt8.toNat_ofNat_of_lt' (by simp only [UInt8.size]; omega)

/-- A member's number is the number of its seat, counted from 1. -/
theorem Numbered.toNat_player {l : Lobby} (hn : l.Numbered) (h : l.Sound) {i : Nat} {p : Peer}
    (hp : l.seats[i]? = some (some p)) : p.player.toNat = i + 1 := by
  rw [hn i p hp]
  exact h.toNat_seat (List.getElem?_eq_some_iff.1 hp).1

/-- Different members have different numbers. -/
theorem Numbered.eq_of_player_eq {l : Lobby} (hn : l.Numbered) (h : l.Sound) {p q : Peer}
    (hp : p ∈ l.members) (hq : q ∈ l.members) (heq : p.player = q.player) : p = q := by
  rcases exists_seat_of_mem hp with ⟨i, hi⟩
  rcases exists_seat_of_mem hq with ⟨j, hj⟩
  have hsame : i + 1 = j + 1 := by
    rw [← hn.toNat_player h hi, ← hn.toNat_player h hj, heq]
  have hij : i = j := by omega
  subst hij
  rw [hi] at hj
  exact Option.some.inj (Option.some.inj hj)

/-- Where every seat is taken every number is borne. -/
theorem Numbered.exists_member {l : Lobby} (hn : l.Numbered) (h : l.Sound)
    (hfull : l.members.length = l.capacity) {player : Player} (hplayer : player ≠ nobody)
    (hle : player.toNat ≤ l.capacity) : ∃ p ∈ l.members, p.player = player := by
  have hpos : player.toNat ≠ 0 := fun hzero => hplayer (UInt8.toNat_inj.1 hzero)
  rcases exists_seat_of_full hfull (i := player.toNat - 1) (by omega) with ⟨p, hp⟩
  refine ⟨p, mem_of_seat hp, ?_⟩
  rw [← UInt8.toNat_inj, hn.toNat_player h hp]
  omega

theorem numbered_of_members_eq_nil {l : Lobby} (h : l.members = []) : l.Numbered := by
  intro i p hp
  have := mem_of_seat hp
  rw [h] at this
  cases this

/-- Numbers stay right where everybody stays in place. -/
theorem Numbered.of_lineup_eq {l l' : Lobby} (hn : l.Numbered) (h : l'.lineup = l.lineup) :
    l'.Numbered := by
  intro i p hp
  rcases seat_of_lineup_eq h hp with ⟨q, hq, -, hplayer, -⟩
  rw [← hplayer]
  exact hn i q hq

/-- A peer without a number is given one and told so. -/
theorem assign_of_nobody {p : Peer} (hp : p.player = nobody) (player : Player) :
    p.assign player =
      ({ p with player := player }, { p with player := player }.tell (.connected player)) := by
  simp [Peer.assign, hp]

/-- A peer without a number gets the number of its seat. -/
theorem Numbered.seat {l l' : Lobby} {p : Peer} {player : Player} {mail : Mail}
    (hn : l.Numbered) (hs : l.seat p = some (player, l', mail)) (hp : p.player = nobody) :
    l'.Numbered := by
  rcases seat_eq_some_iff.1 hs with ⟨-, i, hi, rfl, rfl, -⟩
  have hlt := (List.getElem?_eq_some_iff.1 (getElem?_of_findIdx? hi)).1
  intro j q hq
  by_cases hij : i = j
  · subst hij
    rw [List.getElem?_set_self hlt, assign_of_nobody (p := { p with ready := false }) hp] at hq
    cases hq
    rfl
  · rw [List.getElem?_set_ne hij] at hq
    exact hn j q hq

/-- Whoever sits in a lobby that somebody has left sat there before. -/
theorem seat_of_vacate {l : Lobby} {id : ConnectionId} {p q : Peer} {i : Nat}
    (hq : (l.vacate id p).seats[i]? = some (some q)) : l.seats[i]? = some (some q) := by
  simp only [vacate, List.getElem?_map, Option.map_eq_some_iff] at hq
  rcases hq with ⟨s, hs, hsq⟩
  split at hsq
  · cases hsq
  · rw [hs, hsq]

theorem Numbered.leave {l l' : Lobby} {id : ConnectionId} {p : Peer} {mail : Mail}
    (hn : l.Numbered) (hl : Left l id p l' mail) : l'.Numbered := by
  have hvacate : (l.vacate id p).Numbered := fun i q hq => hn i q (seat_of_vacate hq)
  cases hl with
  | idle => exact hvacate
  | brokenOff => exact hvacate.of_lineup_eq (lineup_endMatch _ _)

theorem Numbered.hangUp {l : Lobby} (hn : l.Numbered) (id : ConnectionId) :
    (l.hangUp id).Numbered := by
  intro i p hp
  simp only [Lobby.hangUp, updateMember, List.getElem?_map, Option.map_eq_some_iff] at hp
  rcases hp with ⟨s, hs, q, rfl, rfl⟩
  rw [← hn i q hs]
  split <;> rfl

/-! ## What never changes -/

/-- Two lobbies with the same number, size and board. -/
structure Fixed (l l' : Lobby) : Prop where
  number_eq : l'.number = l.number
  capacity_eq : l'.capacity = l.capacity
  columns_eq : l'.columns = l.columns
  rows_eq : l'.rows = l.rows

theorem Fixed.refl (l : Lobby) : Fixed l l := ⟨rfl, rfl, rfl, rfl⟩

theorem Fixed.trans {l l' l'' : Lobby} (h : Fixed l l') (h' : Fixed l' l'') : Fixed l l'' where
  number_eq := h'.number_eq.trans h.number_eq
  capacity_eq := h'.capacity_eq.trans h.capacity_eq
  columns_eq := h'.columns_eq.trans h.columns_eq
  rows_eq := h'.rows_eq.trans h.rows_eq

theorem fixed_endMatch (l : Lobby) (winner : Player) : Fixed l (l.endMatch winner).1 :=
  ⟨rfl, capacity_of_lineup_eq (lineup_endMatch l winner), rfl, rfl⟩

theorem Fixed.seat {l l' : Lobby} {p : Peer} {player : Player} {mail : Mail}
    (hs : l.seat p = some (player, l', mail)) : Fixed l l' := by
  rcases seat_eq_some_iff.1 hs with ⟨-, i, -, -, rfl, -⟩
  exact ⟨rfl, by simp [capacity], rfl, rfl⟩

theorem Fixed.ready {l l' : Lobby} {d d' : Draws} {id : ConnectionId} {mail : Mail}
    (h : Readied l d id l' d' mail) : Fixed l l' := by
  have hcapacity := capacity_of_lineup_eq h.lineup_eq
  cases h with
  | ignored => exact ⟨rfl, rfl, rfl, rfl⟩
  | noted => exact ⟨rfl, hcapacity, rfl, rfl⟩
  | unplayable => exact ⟨rfl, hcapacity, rfl, rfl⟩
  | begun => exact ⟨rfl, hcapacity, rfl, rfl⟩

theorem Fixed.turn {l l' : Lobby} {id : ConnectionId} {column : UInt8} {mail : Mail}
    (h : Turned l id column l' mail) : Fixed l l' := by
  cases h with
  | stranger => exact ⟨rfl, rfl, rfl, rfl⟩
  | idle => exact ⟨rfl, rfl, rfl, rfl⟩
  | rejected => exact ⟨rfl, rfl, rfl, rfl⟩
  | moved => exact ⟨rfl, rfl, rfl, rfl⟩
  | finished => exact fixed_endMatch l _

theorem Fixed.leave {l l' : Lobby} {id : ConnectionId} {p : Peer} {mail : Mail}
    (h : Left l id p l' mail) : Fixed l l' := by
  have hcapacity := l.capacity_vacate id p
  cases h with
  | idle => exact ⟨rfl, hcapacity, rfl, rfl⟩
  | brokenOff =>
      have hend := fixed_endMatch (l.vacate id p) nobody
      exact ⟨hend.number_eq, hend.capacity_eq.trans hcapacity, hend.columns_eq, hend.rows_eq⟩

theorem fixed_emptied (l : Lobby) : Fixed l l.emptied :=
  ⟨rfl, by simp [capacity, emptied], rfl, rfl⟩

theorem fixed_hangUp (l : Lobby) (id : ConnectionId) : Fixed l (l.hangUp id) :=
  ⟨rfl, by simp [capacity, Lobby.hangUp, updateMember], rfl, rfl⟩

end Lobby

end FourInRow
