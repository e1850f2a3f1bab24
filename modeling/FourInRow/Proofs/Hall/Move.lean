import FourInRow.Proofs.Hall.Sound

/-!
# The moves of a hall

What a hall does about an event is a sequence of small moves: a newcomer is seated, a peer is let
go from the queue, all places are told, and so on.  `Hall.Move` lists them, with the guards under
which they are made and the effects that they bring about, and every move keeps the hall sound.

Main results:

- Theorem `Sound.move`: every move keeps a hall sound.
- Theorem `Sound.moves`: so does every sequence of moves.
-/

namespace FourInRow

namespace Hall

/-- The moves that a hall can make about an event. -/
inductive Move (e : Event) : Hall → List Effect → Hall → Prop
  /-- One more lobby is opened. -/
  | opened {h : Hall} (hroom : h.lobbies.length < h.settings.maxLobbies.toNat) :
      Move e h [] { h with lobbies := h.lobbies ++ [freshLobby h.settings h.lobbies.length] }
  /-- A newcomer is seated. -/
  | welcomed {h : Hall} {id : ConnectionId} {n : Nat} {l l' : Lobby} {player : Player}
      {mail : Mail} (he : e = .command (.connect id)) (hnew : ¬ h.Holds id)
      (hl : h.lobbies[n]? = some l) (hseat : l.seat (Peer.new id) = some (player, l', mail)) :
      Move e h (sends mail) { h.setLobby n l' with index := h.index.insert id n }
  /-- A newcomer is put at the end of the queue and told its place. -/
  | queuedUp {h : Hall} {id : ConnectionId} (he : e = .command (.connect id))
      (hnew : ¬ h.Holds id) :
      Move e h (sends (h.enqueue (Peer.new id)).2) (h.enqueue (Peer.new id)).1
  /-- The front of the queue is seated. -/
  | promoted {h : Hall} {p : Peer} {rest : List Peer} {n : Nat} {l l' : Lobby}
      {player : Player} {mail : Mail} (hqueue : h.queue = p :: rest)
      (hlistening : p.listening = true) (hl : h.lobbies[n]? = some l)
      (hseat : l.seat p = some (player, l', mail)) :
      Move e h (sends mail)
        { h.setLobby n l' with index := h.index.insert p.id n, queue := rest }
  /-- A peer in the queue that has stopped listening is let go. -/
  | dropped {h : Hall} {before after : List Peer} {p : Peer}
      (hqueue : h.queue = before ++ p :: after) (hdead : p.listening = false) :
      Move e h [.release p.id] { h with queue := before ++ after }
  /-- A peer leaves the queue. -/
  | withdrawn {h : Hall} {before after : List Peer} {p : Peer}
      (he : e = .command (.disconnect p.id)) (hqueue : h.queue = before ++ p :: after) :
      Move e h [.release p.id] { h with queue := before ++ after }
  /-- All places in the queue are told. -/
  | announced {h : Hall} : Move e h (sends h.announceQueue.2) h.announceQueue.1
  /-- There are no places to tell. -/
  | forgotten {h : Hall} (hqueue : h.queue = []) : Move e h [] { h with announced := 0 }
  /-- A member leaves its lobby. -/
  | left {h : Hall} {id : ConnectionId} {n : Nat} {l l' : Lobby} {p : Peer} {mail : Mail}
      (he : e = .command (.disconnect id)) (hl : h.lobbies[n]? = some l)
      (hleft : Lobby.Left l id p l' mail) :
      Move e h (sends mail ++ [.release id])
        { h.setLobby n l' with index := h.index.remove id }
  /-- Somebody says ready in a lobby. -/
  | readied {h : Hall} {id : ConnectionId} {n : Nat} {l l' : Lobby} {d : Draws} {mail : Mail}
      (he : e = .command (.ready id)) (hl : h.lobbies[n]? = some l)
      (hreadied : Lobby.Readied l h.draws id l' d mail) :
      Move e h (sends mail) { h.setLobby n l' with draws := d }
  /-- Somebody takes a turn in a lobby. -/
  | turned {h : Hall} {id : ConnectionId} {column : UInt8} {n : Nat} {l l' : Lobby}
      {mail : Mail} (he : e = .command (.turn id column)) (hl : h.lobbies[n]? = some l)
      (hturned : Lobby.Turned l id column l' mail) :
      Move e h (sends mail) (h.setLobby n l')
  /-- The hall is shut. -/
  | shut {h : Hall} (he : e = .command .shutDown) : Move e h h.shutDown.2 h.shutDown.1
  /-- A connection stops listening. -/
  | hungUp {h : Hall} {id : ConnectionId} (he : e = .hangUp id) : Move e h [] (h.hangUp id)

/-- Moves one after another. -/
inductive Moves (e : Event) : Hall → List Effect → Hall → Prop
  | refl (h : Hall) : Moves e h [] h
  | step {h h' h'' : Hall} {effects effects' : List Effect} (hmove : Move e h effects h')
      (hrest : Moves e h' effects' h'') : Moves e h (effects ++ effects') h''

theorem Move.moves {e : Event} {h h' : Hall} {effects : List Effect}
    (hmove : Move e h effects h') : Moves e h effects h' := by
  simpa using Moves.step hmove (.refl h')

theorem Moves.trans {e : Event} {h h' h'' : Hall} {effects effects' : List Effect}
    (hfirst : Moves e h effects h') (hrest : Moves e h' effects' h'') :
    Moves e h (effects ++ effects') h'' := by
  induction hfirst with
  | refl => exact hrest
  | step hmove _ ih =>
      rw [List.append_assoc]
      exact .step hmove (ih hrest)

/-! ## A lobby or the queue changes -/

theorem getElem?_setLobby {h : Hall} {n : Nat} {l : Lobby} (hl : h.lobbies[n]? = some l)
    (l' : Lobby) (m : Nat) :
    (h.setLobby n l').lobbies[m]? = if m = n then some l' else h.lobbies[m]? := by
  have hn := (List.getElem?_eq_some_iff.1 hl).1
  by_cases hm : m = n
  · subst hm
    rw [if_pos rfl]
    exact List.getElem?_set_self hn
  · rw [if_neg hm]
    exact List.getElem?_set_ne (Ne.symm hm)

/-- A hall stays sound when a lobby changes and the index with it. -/
theorem Sound.withLobby {h : Hall} (hs : h.Sound) {n : Nat} {l l' : Lobby}
    (hl : h.lobbies[n]? = some l) (hlodges : Lodges h.settings n l') {index : Index}
    (hindex : ∀ id m, index.find? id = some m ↔
      if m = n then id ∈ l'.members.map Peer.id else h.index.find? id = some m)
    {queue : List Peer} (hqueue : queue.Sublist h.queue)
    (hout : ∀ p ∈ queue, p.id ∉ l'.members.map Peer.id) (draws : Draws) :
    Sound { h.setLobby n l' with index := index, queue := queue, draws := draws } := by
  constructor
  · intro m k hk
    change (h.setLobby n l').lobbies[m]? = some k at hk
    rw [getElem?_setLobby hl] at hk
    by_cases hm : m = n
    · rw [if_pos hm] at hk
      cases hk
      rw [hm]
      exact hlodges
    · rw [if_neg hm] at hk
      exact hs.lodges m k hk
  · intro id m
    change index.find? id = some m ↔
      ∃ k, (h.setLobby n l').lobbies[m]? = some k ∧ id ∈ k.members.map Peer.id
    rw [hindex, getElem?_setLobby hl]
    by_cases hm : m = n
    · rw [if_pos hm, if_pos hm]
      simp
    · rw [if_neg hm, if_neg hm]
      exact hs.index_iff id m
  · exact hs.queue_nodup.sublist (hqueue.map Peer.id)
  · intro p hp
    change index.find? p.id = none
    cases hfind : index.find? p.id with
    | none => rfl
    | some m =>
        rw [hindex] at hfind
        split at hfind
        · exact absurd hfind (hout p hp)
        · rw [hs.queue_unseated p (hqueue.subset hp)] at hfind
          cases hfind
  · exact fun p hp => hs.queue_plain p (hqueue.subset hp)

/-- A hall stays sound when somebody is seated. -/
theorem Sound.withSeat {h : Hall} (hs : h.Sound) {n : Nat} {l l' : Lobby} {p : Peer}
    {player : Player} {mail : Mail} (hl : h.lobbies[n]? = some l)
    (hseat : l.seat p = some (player, l', mail)) (hplayer : p.player = nobody)
    (hnone : h.index.find? p.id = none) {queue : List Peer} (hqueue : queue.Sublist h.queue)
    (hout : p.id ∉ queue.map Peer.id) :
    Sound { h.setLobby n l' with index := h.index.insert p.id n, queue := queue } := by
  have hlodges := hs.lodges n l hl
  have hnot := hs.not_mem_members hnone hl
  have hmembers : ∀ id, id ∈ l'.members.map Peer.id ↔
      id = p.id ∨ id ∈ l.members.map Peer.id := by
    intro id
    rw [((Lobby.perm_members_seat hseat).map Peer.id).mem_iff, List.map_cons, List.mem_cons,
      Lobby.assign_id]
  have hl' : Lodges h.settings n l' :=
    hlodges.of_fixed (.seat hseat) (hlodges.sound.seat hseat hnot)
      (hlodges.numbered.seat hseat hplayer)
  refine hs.withLobby hl hl' ?_ hqueue ?_ h.draws
  · intro id m
    rw [Index.find?_insert, hmembers]
    by_cases hid : id = p.id
    · subst hid
      by_cases hm : m = n
      · simp [hm]
      · simp [hm, hnone, Ne.symm hm]
    · rw [if_neg hid]
      by_cases hm : m = n
      · subst hm
        simp only [if_true, hid, false_or, hs.index_iff, hl, Option.some.injEq,
          exists_eq_left']
      · simp [hm]
  · intro q hq hmem
    rcases (hmembers q.id).1 hmem with heq | hmem
    · exact hout (heq ▸ List.mem_map_of_mem hq)
    · exact hs.not_mem_members_of_queue (hqueue.subset hq) hl hmem

/-- A hall stays sound when a lobby changes and everybody stays in place. -/
theorem Sound.withLineup {h : Hall} (hs : h.Sound) {n : Nat} {l l' : Lobby}
    (hl : h.lobbies[n]? = some l) (hlineup : l'.lineup = l.lineup) (hfixed : Lobby.Fixed l l')
    (hsound : l'.Sound) (draws : Draws) :
    Sound { h.setLobby n l' with draws := draws } := by
  have hlodges := hs.lodges n l hl
  have hids := Lobby.map_id_of_lineup_eq hlineup
  refine hs.withLobby hl (hlodges.of_fixed hfixed hsound (hlodges.numbered.of_lineup_eq hlineup))
    ?_ (List.Sublist.refl h.queue) ?_ draws
  · intro id m
    by_cases hm : m = n
    · subst hm
      rw [if_pos rfl, hids]
      change h.index.find? id = some m ↔ _
      rw [hs.index_iff, hl]
      simp
    · rw [if_neg hm]
      rfl
  · intro p hp
    rw [hids]
    exact hs.not_mem_members_of_queue hp hl

/-- What remains of a queue when a peer is taken out of it. -/
theorem removed_sublist {h : Hall} {before after : List Peer} {p : Peer}
    (hqueue : h.queue = before ++ p :: after) : (before ++ after).Sublist h.queue := by
  rw [hqueue]
  exact (List.sublist_cons_self p after).append_left before

/-- A hall stays sound when peers are taken out of its queue. -/
theorem Sound.withQueue {h : Hall} (hs : h.Sound) {queue : List Peer}
    (hqueue : queue.Sublist h.queue) : Sound { h with queue := queue } where
  lodges := hs.lodges
  index_iff := hs.index_iff
  queue_nodup := hs.queue_nodup.sublist (hqueue.map Peer.id)
  queue_unseated p hp := hs.queue_unseated p (hqueue.subset hp)
  queue_plain p hp := hs.queue_plain p (hqueue.subset hp)

/-! ## The moves one by one -/

/-- What was told last is of no concern to soundness. -/
theorem Sound.withAnnounced {h : Hall} (hs : h.Sound) (announced : Nat) :
    Sound { h with announced := announced } :=
  ⟨hs.lodges, hs.index_iff, hs.queue_nodup, hs.queue_unseated, hs.queue_plain⟩

/-- Opening one more lobby leaves the others where they are. -/
theorem getElem?_opened {h : Hall} {n : Nat} {l : Lobby} :
    (h.lobbies ++ [freshLobby h.settings h.lobbies.length])[n]? = some l ↔
      h.lobbies[n]? = some l ∨
        n = h.lobbies.length ∧ freshLobby h.settings h.lobbies.length = l := by
  rcases lt_trichotomy n h.lobbies.length with hlt | heq | hgt
  · rw [List.getElem?_append_left hlt]
    simp [hlt.ne]
  · subst heq
    simp
  · rw [List.getElem?_append_right hgt.le]
    have : n - h.lobbies.length ≠ 0 := by omega
    simp [this, hgt.ne', List.getElem?_eq_none hgt.le]

theorem Sound.opened {h : Hall} (hs : h.Sound) :
    Sound { h with lobbies := h.lobbies ++ [freshLobby h.settings h.lobbies.length] } := by
  refine ⟨?_, ?_, hs.queue_nodup, hs.queue_unseated, hs.queue_plain⟩
  · intro n l hl
    rcases getElem?_opened.1 hl with hold | ⟨rfl, rfl⟩
    · exact hs.lodges n l hold
    · exact lodges_freshLobby h.settings _
  · intro id n
    rw [hs.index_iff]
    constructor
    · rintro ⟨l, hl, hmem⟩
      exact ⟨l, getElem?_opened.2 (Or.inl hl), hmem⟩
    · rintro ⟨l, hl, hmem⟩
      rcases getElem?_opened.1 hl with hold | ⟨-, rfl⟩
      · exact ⟨l, hold, hmem⟩
      · rw [members_freshLobby] at hmem
        cases hmem

@[simp] theorem queue_enqueue (h : Hall) (p : Peer) : (h.enqueue p).1.queue = h.queue ++ [p] :=
  rfl

theorem Sound.queuedUp {h : Hall} (hs : h.Sound) {id : ConnectionId} (hnew : ¬ h.Holds id) :
    (h.enqueue (Peer.new id)).1.Sound := by
  refine ⟨hs.lodges, hs.index_iff, ?_, ?_, ?_⟩
  · rw [queue_enqueue, List.map_append, List.nodup_append]
    refine ⟨hs.queue_nodup, List.nodup_singleton _, ?_⟩
    rintro _ hid _ hnewid rfl
    obtain rfl := List.mem_singleton.1 hnewid
    exact hnew (Or.inr hid)
  · intro p hp
    rcases List.mem_append.1 hp with hold | hlast
    · exact hs.queue_unseated p hold
    · rw [List.mem_singleton.1 hlast]
      exact find?_eq_none_of_not_holds (h := h) hnew
  · intro p hp
    rcases List.mem_append.1 hp with hold | hlast
    · exact hs.queue_plain p hold
    · rw [List.mem_singleton.1 hlast]
      exact ⟨rfl, rfl⟩

theorem Sound.left {h : Hall} (hs : h.Sound) {id : ConnectionId} {n : Nat} {l l' : Lobby}
    {p : Peer} {mail : Mail} (hl : h.lobbies[n]? = some l)
    (hleft : Lobby.Left l id p l' mail) :
    Sound { h.setLobby n l' with index := h.index.remove id } := by
  have hlodges := hs.lodges n l hl
  have hmembers : ∀ i, i ∈ l'.members.map Peer.id ↔ i ∈ l.members.map Peer.id ∧ i ≠ id :=
    fun i => hleft.mem_map_id i
  have hid : id ∈ l.members.map Peer.id := hleft.mem
  refine hs.withLobby hl (hlodges.of_fixed (.leave hleft) (hlodges.sound.leave hleft)
    (hlodges.numbered.leave hleft)) ?_ (List.Sublist.refl h.queue) ?_ h.draws
  · intro i m
    rw [Index.find?_remove, hmembers]
    by_cases hi : i = id
    · subst hi
      rw [if_pos rfl, (hs.index_iff i n).2 ⟨l, hl, hid⟩]
      by_cases hm : m = n
      · simp [hm]
      · simp [hm, Ne.symm hm]
    · rw [if_neg hi]
      by_cases hm : m = n
      · subst hm
        simp [hs.index_iff, hl, hi]
      · rw [if_neg hm]
  · intro q hq hmem
    exact hs.not_mem_members_of_queue hq hl ((hmembers q.id).1 hmem).1

/-- Shutting empties every lobby. -/
theorem closeAll_lobbies (ls : List Lobby) : (closeAll ls).1 = ls.map Lobby.emptied := by
  induction ls with
  | nil => rfl
  | cons l ls ih =>
      simp only [closeAll, List.map_cons, ← ih, Lobby.close_lobby]

theorem getElem?_shutDown {h : Hall} {n : Nat} {l : Lobby} :
    h.shutDown.1.lobbies[n]? = some l ↔ ∃ k, h.lobbies[n]? = some k ∧ k.emptied = l := by
  change (closeAll h.lobbies).1[n]? = some l ↔ _
  rw [closeAll_lobbies, List.getElem?_map, Option.map_eq_some_iff]

theorem Sound.shutDown {h : Hall} (hs : h.Sound) : h.shutDown.1.Sound := by
  refine ⟨?_, ?_, List.nodup_nil, ?_, ?_⟩
  · intro n l hl
    rcases getElem?_shutDown.1 hl with ⟨k, hk, rfl⟩
    have hlodges := hs.lodges n k hk
    exact hlodges.of_fixed (Lobby.fixed_emptied k) hlodges.sound.emptied
      (Lobby.numbered_of_members_eq_nil k.members_emptied)
  · intro id n
    constructor
    · intro hfind
      cases hfind
    · rintro ⟨l, hl, hmem⟩
      rcases getElem?_shutDown.1 hl with ⟨k, -, rfl⟩
      rw [Lobby.members_emptied] at hmem
      cases hmem
  · intro p hp
    cases hp
  · intro p hp
    cases hp

/-- Whoever stops listening keeps its place in the queue. -/
theorem map_id_queue_hangUp (h : Hall) (id : ConnectionId) :
    (h.hangUp id).queue.map Peer.id = h.queue.map Peer.id := by
  change (h.queue.map _).map Peer.id = _
  rw [List.map_map]
  apply List.map_congr_left
  intro p hp
  simp only [Function.comp]
  split <;> rfl

theorem getElem?_hangUp {h : Hall} {id : ConnectionId} {n : Nat} {l : Lobby} :
    (h.hangUp id).lobbies[n]? = some l ↔ ∃ k, h.lobbies[n]? = some k ∧ k.hangUp id = l := by
  change (h.lobbies.map _)[n]? = some l ↔ _
  rw [List.getElem?_map, Option.map_eq_some_iff]

theorem Sound.hangUp {h : Hall} (hs : h.Sound) (id : ConnectionId) : (h.hangUp id).Sound := by
  have hpeer : ∀ p ∈ (h.hangUp id).queue,
      ∃ q ∈ h.queue, q.id = p.id ∧ q.player = p.player ∧ q.ready = p.ready := by
    intro p hp
    rcases List.mem_map.1 hp with ⟨q, hq, rfl⟩
    refine ⟨q, hq, ?_⟩
    split <;> exact ⟨rfl, rfl, rfl⟩
  refine ⟨?_, ?_, ?_, ?_, ?_⟩
  · intro n l hl
    rcases getElem?_hangUp.1 hl with ⟨k, hk, rfl⟩
    have hlodges := hs.lodges n k hk
    exact hlodges.of_fixed (Lobby.fixed_hangUp k id) (hlodges.sound.hangUp id)
      (hlodges.numbered.hangUp id)
  · intro i n
    change h.index.find? i = some n ↔ _
    rw [hs.index_iff]
    constructor
    · rintro ⟨k, hk, hmem⟩
      exact ⟨k.hangUp id, getElem?_hangUp.2 ⟨k, hk, rfl⟩, by rwa [Lobby.map_id_hangUp]⟩
    · rintro ⟨l, hl, hmem⟩
      rcases getElem?_hangUp.1 hl with ⟨k, hk, rfl⟩
      exact ⟨k, hk, by rwa [Lobby.map_id_hangUp] at hmem⟩
  · rw [map_id_queue_hangUp]
    exact hs.queue_nodup
  · intro p hp
    rcases hpeer p hp with ⟨q, hq, hid, -⟩
    rw [← hid]
    exact hs.queue_unseated q hq
  · intro p hp
    rcases hpeer p hp with ⟨q, hq, -, hplayer, hready⟩
    rw [← hplayer, ← hready]
    exact hs.queue_plain q hq

/-- Every move keeps a hall sound. -/
theorem Sound.move {e : Event} {h h' : Hall} {effects : List Effect} (hs : h.Sound)
    (hmove : Move e h effects h') : h'.Sound := by
  cases hmove with
  | opened => exact hs.opened
  | welcomed he hnew hl hseat =>
      exact hs.withSeat hl hseat rfl (find?_eq_none_of_not_holds hnew)
        (List.Sublist.refl h.queue) (not_or.1 hnew).2
  | queuedUp he hnew => exact hs.queuedUp hnew
  | @promoted p rest n l l' player mail hqueue hlistening hl hseat =>
      have hmem : p ∈ h.queue := by rw [hqueue]; exact List.mem_cons_self
      have hnodup := hs.queue_nodup
      rw [hqueue, List.map_cons, List.nodup_cons] at hnodup
      refine hs.withSeat hl hseat (hs.queue_plain p hmem).1 (hs.queue_unseated p hmem) ?_
        hnodup.1
      rw [hqueue]
      exact List.sublist_cons_self p rest
  | dropped hqueue => exact hs.withQueue (removed_sublist hqueue)
  | withdrawn he hqueue => exact hs.withQueue (removed_sublist hqueue)
  | announced => exact hs.withAnnounced _
  | forgotten => exact hs.withAnnounced 0
  | left he hl hleft => exact hs.left hl hleft
  | @readied id n l l' d mail he hl hreadied =>
      exact hs.withLineup hl hreadied.lineup_eq (.ready hreadied)
        ((hs.lodges n l hl).sound.ready hreadied) d
  | @turned id column n l l' mail he hl hturned =>
      exact hs.withLineup hl hturned.lineup_eq (.turn hturned)
        ((hs.lodges n l hl).sound.turn hturned) h.draws
  | shut => exact hs.shutDown
  | hungUp => exact hs.hangUp _

/-- Every sequence of moves keeps a hall sound. -/
theorem Sound.moves {e : Event} {h h' : Hall} {effects : List Effect} (hs : h.Sound)
    (hmoves : Moves e h effects h') : h'.Sound := by
  induction hmoves with
  | refl => exact hs
  | step hmove _ ih => exact ih (hs.move hmove)

/-! ## Who is held -/

/-- Whoever gets a seat is held besides the others. -/
theorem holds_seated (h : Hall) (n : Nat) (l : Lobby) (i id : ConnectionId) :
    Holds { h.setLobby n l with index := h.index.insert i n } id ↔ id = i ∨ h.Holds id := by
  change (∃ m, (h.index.insert i n).find? id = some m) ∨ id ∈ h.queue.map Peer.id ↔ _
  rw [Index.find?_insert]
  by_cases heq : id = i
  · simp [heq]
  · simp [heq, Holds]

/-- Whoever gets a seat from the front of the queue is held as before. -/
theorem holds_promoted {h : Hall} {p : Peer} {rest : List Peer} (hqueue : h.queue = p :: rest)
    (n : Nat) (l : Lobby) (id : ConnectionId) :
    Holds { h.setLobby n l with index := h.index.insert p.id n, queue := rest } id ↔
      h.Holds id := by
  change (∃ m, (h.index.insert p.id n).find? id = some m) ∨ id ∈ rest.map Peer.id ↔ _
  rw [Index.find?_insert, Holds, hqueue]
  by_cases heq : id = p.id
  · simp [heq]
  · simp [heq]

/-- Whoever queues up is held besides the others. -/
theorem holds_enqueue (h : Hall) (p : Peer) (id : ConnectionId) :
    (h.enqueue p).1.Holds id ↔ id = p.id ∨ h.Holds id := by
  simp only [Holds, queue_enqueue, List.map_append, List.mem_append, List.map_singleton,
    List.mem_singleton]
  change (∃ n, h.index.find? id = some n) ∨ _ ↔ _
  tauto

/-- All but the one that is taken out of the queue are held as before. -/
theorem Sound.holds_removed {h : Hall} (hs : h.Sound) {before after : List Peer} {p : Peer}
    (hqueue : h.queue = before ++ p :: after) (id : ConnectionId) :
    Holds { h with queue := before ++ after } id ↔ id ≠ p.id ∧ h.Holds id := by
  have hmem : p ∈ h.queue := by
    rw [hqueue]
    simp
  have hnone := hs.queue_unseated p hmem
  have hnodup : ((p :: (before ++ after)).map Peer.id).Nodup := by
    refine (List.perm_middle.map Peer.id).nodup_iff.1 ?_
    rw [← hqueue]
    exact hs.queue_nodup
  have hout := (List.nodup_cons.1 hnodup).1
  have hsplit : id ∈ h.queue.map Peer.id ↔
      id = p.id ∨ id ∈ (before ++ after).map Peer.id := by
    rw [hqueue, (List.perm_middle.map Peer.id).mem_iff, List.map_cons, List.mem_cons]
  simp only [Holds, hsplit]
  by_cases heq : id = p.id
  · subst heq
    simpa [hnone] using hout
  · simp [heq]

/-- All but the one that leaves its seat are held as before. -/
theorem Sound.holds_left {h : Hall} (hs : h.Sound) {i : ConnectionId} {n : Nat} {l l' : Lobby}
    {p : Peer} {mail : Mail} (hl : h.lobbies[n]? = some l) (hleft : Lobby.Left l i p l' mail)
    (id : ConnectionId) :
    Holds { h.setLobby n l' with index := h.index.remove i } id ↔ id ≠ i ∧ h.Holds id := by
  have hout : i ∉ h.queue.map Peer.id := by
    intro hmem
    rcases List.mem_map.1 hmem with ⟨q, hq, heq⟩
    exact hs.not_mem_members_of_queue hq hl (heq ▸ hleft.mem)
  change (∃ m, (h.index.remove i).find? id = some m) ∨ id ∈ h.queue.map Peer.id ↔ _
  rw [Index.find?_remove]
  by_cases heq : id = i
  · subst heq
    simpa using hout
  · simp [heq, Holds]

/-- Whoever stops listening is held as before. -/
theorem holds_hangUp (h : Hall) (i id : ConnectionId) : (h.hangUp i).Holds id ↔ h.Holds id := by
  rw [Holds, map_id_queue_hangUp]
  rfl

theorem not_holds_shutDown (h : Hall) (id : ConnectionId) : ¬ h.shutDown.1.Holds id := by
  rintro (⟨n, hn⟩ | hqueue)
  · cases hn
  · cases hqueue

end Hall

end FourInRow
