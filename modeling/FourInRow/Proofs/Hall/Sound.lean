import FourInRow.Hall.Basic
import FourInRow.Proofs.Lobby.Numbered

/-!
# What a hall keeps true

A hall knows its connections from three sides: the seats of the lobbies, the queue, and the index.
`Hall.Sound` says that the three agree and that every lobby is sound.

Main results:

- Theorem `Sound.index_eq`: a member's connection is noted under the number of its lobby.
- Theorem `Sound.nodup_held`: no connection is held twice.
-/

namespace FourInRow

namespace Hall

/-- What holds of the lobby with a given number in a hall with given settings. -/
structure Lodges (s : Settings) (n : Nat) (l : Lobby) : Prop where
  number_eq : l.number = n
  capacity_eq : l.capacity = s.playersPerLobby.toNat
  columns_eq : l.columns = s.boardColumns
  rows_eq : l.rows = s.boardRows
  sound : l.Sound
  numbered : l.Numbered

/-- What a hall keeps true. -/
structure Sound (h : Hall) : Prop where
  lodges : ∀ n l, h.lobbies[n]? = some l → Lodges h.settings n l
  /-- The index tells exactly who sits in which lobby. -/
  index_iff : ∀ id n, h.index.find? id = some n ↔
    ∃ l, h.lobbies[n]? = some l ∧ id ∈ l.members.map Peer.id
  queue_nodup : (h.queue.map Peer.id).Nodup
  /-- Nobody waits and sits at once. -/
  queue_unseated : ∀ p ∈ h.queue, h.index.find? p.id = none
  /-- Whoever waits has neither a number nor said ready. -/
  queue_plain : ∀ p ∈ h.queue, p.player = nobody ∧ p.ready = false

/-- Does the hall hold a connection, in a seat or in the queue? -/
def Holds (h : Hall) (id : ConnectionId) : Prop :=
  (∃ n, h.index.find? id = some n) ∨ id ∈ h.queue.map Peer.id

/-- The peers that a hall holds: those in the lobbies and those in the queue. -/
def held (h : Hall) : List Peer := h.lobbies.flatMap Lobby.members ++ h.queue

/-- A lobby without members, open for newcomers. -/
def freshLobby (s : Settings) (n : Nat) : Lobby :=
  (Lobby.new n s.playersPerLobby s.boardColumns s.boardRows).openDoors

theorem members_freshLobby (s : Settings) (n : Nat) : (freshLobby s n).members = [] := by
  rw [Lobby.members_eq_seated, List.eq_nil_iff_forall_not_mem]
  intro p hp
  have := List.eq_of_mem_replicate (Lobby.mem_seated.1 hp)
  cases this

theorem lodges_freshLobby (s : Settings) (n : Nat) : Lodges s n (freshLobby s n) where
  number_eq := rfl
  capacity_eq := by simp [freshLobby, Lobby.capacity, Lobby.openDoors, Lobby.new]
  columns_eq := rfl
  rows_eq := rfl
  sound := (Lobby.sound_new n _ _ _).openDoors
  numbered := Lobby.numbered_of_members_eq_nil (members_freshLobby s n)

/-- A lobby that keeps its number, size and board goes on to fit the settings. -/
theorem Lodges.of_fixed {s : Settings} {n : Nat} {l l' : Lobby} (h : Lodges s n l)
    (hfixed : Lobby.Fixed l l') (hsound : l'.Sound) (hnumbered : l'.Numbered) :
    Lodges s n l' where
  number_eq := hfixed.number_eq.trans h.number_eq
  capacity_eq := hfixed.capacity_eq.trans h.capacity_eq
  columns_eq := hfixed.columns_eq.trans h.columns_eq
  rows_eq := hfixed.rows_eq.trans h.rows_eq
  sound := hsound
  numbered := hnumbered

theorem sound_new (s : Settings) (d : Draws) : (Hall.new s d).Sound := by
  constructor
  · intro n l hl
    simp [Hall.new] at hl
  · intro id n
    simp [Hall.new, Index.find?]
  · exact List.nodup_nil
  · intro p hp
    cases hp
  · intro p hp
    cases hp

theorem not_holds_new (s : Settings) (d : Draws) (id : ConnectionId) :
    ¬ (Hall.new s d).Holds id := by
  rintro (⟨n, hn⟩ | hqueue)
  · cases hn
  · cases hqueue

/-! ## Where a connection is -/

/-- A member's connection is noted under the number of its lobby. -/
theorem Sound.index_eq {h : Hall} (hs : h.Sound) {n : Nat} {l : Lobby} {p : Peer}
    (hl : h.lobbies[n]? = some l) (hp : p ∈ l.members) : h.index.find? p.id = some n :=
  (hs.index_iff p.id n).2 ⟨l, hl, List.mem_map_of_mem hp⟩

/-- A connection has a seat in one lobby at most. -/
theorem Sound.lobby_unique {h : Hall} (hs : h.Sound) {n m : Nat} {l k : Lobby} {id : ConnectionId}
    (hl : h.lobbies[n]? = some l) (hk : h.lobbies[m]? = some k)
    (hidl : id ∈ l.members.map Peer.id) (hidk : id ∈ k.members.map Peer.id) : n = m := by
  have hn := (hs.index_iff id n).2 ⟨l, hl, hidl⟩
  have hm := (hs.index_iff id m).2 ⟨k, hk, hidk⟩
  rw [hn] at hm
  exact Option.some.inj hm

/-- Nobody that the index does not know has a seat. -/
theorem Sound.not_mem_members {h : Hall} (hs : h.Sound) {id : ConnectionId}
    (hnone : h.index.find? id = none) {n : Nat} {l : Lobby} (hl : h.lobbies[n]? = some l) :
    id ∉ l.members.map Peer.id := by
  intro hmem
  rw [(hs.index_iff id n).2 ⟨l, hl, hmem⟩] at hnone
  cases hnone

/-- Nobody that waits has a seat. -/
theorem Sound.not_mem_members_of_queue {h : Hall} (hs : h.Sound) {p : Peer} (hp : p ∈ h.queue)
    {n : Nat} {l : Lobby} (hl : h.lobbies[n]? = some l) : p.id ∉ l.members.map Peer.id :=
  hs.not_mem_members (hs.queue_unseated p hp) hl

/-- The index does not know whom the hall does not hold. -/
theorem find?_eq_none_of_not_holds {h : Hall} {id : ConnectionId} (hid : ¬ h.Holds id) :
    h.index.find? id = none :=
  Option.eq_none_iff_forall_ne_some.2 fun n hn => hid (Or.inl ⟨n, hn⟩)

/-- The held connections are those of the peers that are held. -/
theorem Sound.mem_held_iff {h : Hall} (hs : h.Sound) (id : ConnectionId) :
    id ∈ h.held.map Peer.id ↔ h.Holds id := by
  rw [held, List.map_append, List.mem_append]
  refine or_congr ⟨?_, ?_⟩ Iff.rfl
  · intro hid
    rcases List.mem_map.1 hid with ⟨p, hp, rfl⟩
    rcases List.mem_flatMap.1 hp with ⟨l, hl, hmem⟩
    rcases List.getElem?_of_mem hl with ⟨n, hn⟩
    exact ⟨n, hs.index_eq hn hmem⟩
  · rintro ⟨n, hn⟩
    rcases (hs.index_iff id n).1 hn with ⟨l, hl, hmem⟩
    rcases List.mem_map.1 hmem with ⟨p, hp, rfl⟩
    exact List.mem_map_of_mem (List.mem_flatMap.2 ⟨l, List.mem_of_getElem? hl, hp⟩)

/-- No connection is held twice. -/
theorem Sound.nodup_held {h : Hall} (hs : h.Sound) : (h.held.map Peer.id).Nodup := by
  rw [held, List.map_append, List.nodup_append]
  refine ⟨?_, hs.queue_nodup, ?_⟩
  · rw [List.map_flatMap, List.nodup_flatMap]
    constructor
    · intro l hl
      rcases List.getElem?_of_mem hl with ⟨n, hn⟩
      exact (hs.lodges n l hn).sound.nodup
    · rw [List.pairwise_iff_getElem]
      intro n m hn hm hlt id hidn hidm
      have := hs.lobby_unique (List.getElem?_eq_getElem hn) (List.getElem?_eq_getElem hm)
        hidn hidm
      omega
  · rintro id hid _ hid' rfl
    rcases List.mem_map.1 hid with ⟨p, hp, rfl⟩
    rcases List.mem_flatMap.1 hp with ⟨l, hl, hmem⟩
    rcases List.getElem?_of_mem hl with ⟨n, hn⟩
    rcases List.mem_map.1 hid' with ⟨q, hq, heq⟩
    refine hs.not_mem_members_of_queue hq hn ?_
    rw [heq]
    exact List.mem_map_of_mem hmem

end Hall

end FourInRow
