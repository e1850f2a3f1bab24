import FourInRow.Proofs.Hall.Custody
import FourInRow.Proofs.Hall.Isolation
import FourInRow.Proofs.Hall.Places
import FourInRow.Proofs.Lobby.Handover

/-!
# Who gets a seat that is left

A connection that leaves its seat leaves it to the queue.  The peers at the front of the queue that
have stopped listening are let go, and the first one that listens gets just this seat, with its
number.

Main results:

- Theorem `seatFrom_lapsed`: the dead front of the queue is let go.
- Theorem `seatFrom_handOver`: the only free seat of a lobby goes to the first one who listens.
- Theorem `Conserves.disconnect_eq`: all that a disconnect of somebody in a seat comes to.
- Theorem `handedOver_disconnect`: who gets the seat, what changes, and who hears of it.
-/

namespace FourInRow

namespace Hall

/-- The peers at the front of the queue that have stopped listening. -/
def lapsed (h : Hall) : List Peer := h.queue.takeWhile fun q => !q.listening

/-- The queue behind them, which begins with a peer that listens if anybody does. -/
def takers (h : Hall) : List Peer := h.queue.dropWhile fun q => !q.listening

theorem takers_sublist (h : Hall) : h.takers.Sublist h.queue := List.dropWhile_sublist _

/-- The first one who listens waits and listens. -/
theorem taker_listens {queue : List Peer} {q : Peer}
    (hq : (queue.dropWhile fun q => !q.listening).head? = some q) :
    q ∈ queue ∧ q.listening = true := by
  refine ⟨(List.dropWhile_sublist _).subset (List.mem_of_head? hq), ?_⟩
  have hhead := List.head?_dropWhile_not (fun q : Peer => !q.listening) queue
  rw [hq] at hhead
  simpa using hhead

/-! ## Filling the seat -/

/-- The peers at the front that have stopped listening are let go. -/
theorem seatFrom_lapsed {h : Hall} {n : Nat} (hfree : h.hasFreeSeat n = true)
    (queue : List Peer) :
    seatFrom n h queue =
      let r := seatFrom n h (queue.dropWhile fun q => !q.listening)
      (r.1, r.2.1,
        (queue.takeWhile fun q => !q.listening).map (fun q => .release q.id) ++ r.2.2) := by
  induction queue with
  | nil => rfl
  | cons q rest ih =>
      by_cases hlistening : q.listening = true
      · simp [hlistening]
      · have hdead := Bool.eq_false_iff.2 hlistening
        rw [seatFrom, if_pos hfree, if_neg hlistening, ih]
        simp [hdead]

/-- The only free seat of a lobby, which somebody has left, goes to the first one who listens. -/
theorem seatFrom_handOver {h : Hall} {n i : Nat} {l : Lobby} {p : Peer} {queue : List Peer}
    (hlobby : l.Sound) (hnumbered : l.Numbered) (hp : l.seats[i]? = some (some p))
    (hl : h.lobbies[n]? = some (l.handOver i p none))
    (hfull : queue ≠ [] → l.members.length = l.capacity)
    (hplain : ∀ q ∈ queue, q.player = nobody) :
    seatFrom n h queue =
      let takers := queue.dropWhile fun q => !q.listening
      ({ h with
          lobbies := h.lobbies.set n (l.handOver i p takers.head?)
          index := takers.head?.elim h.index fun q => h.index.insert q.id n },
        takers.tail,
        (queue.takeWhile fun q => !q.listening).map (fun q => .release q.id) ++
          sends (takers.head?.toList.flatMap fun q => q.tell (.connected p.player))) := by
  have hself : h.lobbies.set n (l.handOver i p none) = h.lobbies := by
    rcases List.getElem?_eq_some_iff.1 hl with ⟨hn, heq⟩
    rw [← heq]
    exact List.set_getElem_self hn
  by_cases hqueue : queue = []
  · subst hqueue
    simp [seatFrom, hself, sends]
  · have hcapacity := hfull hqueue
    have hfree : h.hasFreeSeat n = true := by
      rw [Hall.hasFreeSeat, hl, Option.any_some]
      exact hlobby.free_seat_handOver hcapacity hp
    rw [seatFrom_lapsed hfree]
    cases htakers : queue.dropWhile fun q => !q.listening with
    | nil => simp [seatFrom, hself, sends]
    | cons q rest =>
        have hfirst : (queue.dropWhile fun q => !q.listening).head? = some q := by
          rw [htakers, List.head?_cons]
        rcases taker_listens hfirst with ⟨hmem, hlistening⟩
        have hplace := place_eq_some_iff.2 ⟨_, _, _, hl,
          hlobby.seat_handOver hnumbered hcapacity hp (hplain q hmem), rfl⟩
        have htaken : Hall.hasFreeSeat { h.setLobby n (l.handOver i p (some q)) with
            index := h.index.insert q.id n } n = false := by
          change ((h.setLobby n (l.handOver i p (some q))).lobbies[n]?).any _ = false
          rw [getElem?_setLobby hl, if_pos rfl, Option.any_some]
          exact hlobby.no_free_seat_handOver hcapacity hp q
        simp only [seatFrom, hfree, hlistening, if_true, hplace, seatFrom_of_taken htaken]
        simp [setLobby]

/-- The queue gets shorter, or else stays as long as it is. -/
theorem length_tail_takers_eq_iff (h : Hall) :
    h.takers.tail.length = h.queue.length ↔ ¬ h.takers.tail.length < h.queue.length := by
  have hle : h.takers.tail.length ≤ h.queue.length :=
    ((List.tail_sublist _).trans h.takers_sublist).length_le
  omega

/-- When a lobby that somebody has left is filled up, the places of those behind the heir are told
if the queue has got shorter. -/
theorem backfill_handOver {h : Hall} {n i : Nat} {l : Lobby} {p : Peer}
    (hlobby : l.Sound) (hnumbered : l.Numbered) (hp : l.seats[i]? = some (some p))
    (hl : h.lobbies[n]? = some (l.handOver i p none))
    (hfull : h.queue ≠ [] → l.members.length = l.capacity)
    (hplain : ∀ q ∈ h.queue, q.player = nobody) :
    h.backfill n =
      ({ h with
          lobbies := h.lobbies.set n (l.handOver i p h.takers.head?)
          index := h.takers.head?.elim h.index fun q => h.index.insert q.id n
          queue := h.takers.tail
          announced :=
            if h.takers.tail.length < h.queue.length then h.takers.tail.length else h.announced },
        h.lapsed.map (fun q => .release q.id) ++
          sends (h.takers.head?.toList.flatMap fun q => q.tell (.connected p.player)) ++
          if h.takers.tail.length < h.queue.length then
            sends { h with queue := h.takers.tail }.announceQueue.2
          else []) := by
  rw [backfill, seatFrom_handOver hlobby hnumbered hp hl hfull hplain]
  by_cases hshorter : h.takers.tail.length < h.queue.length
  · have hne : (h.queue.dropWhile fun q => !q.listening).tail.length ≠ h.queue.length :=
      hshorter.ne
    simp only [hne, if_false, hshorter, if_true]
    rfl
  · have heq : (h.queue.dropWhile fun q => !q.listening).tail.length = h.queue.length :=
      h.length_tail_takers_eq_iff.2 hshorter
    simp only [heq, if_true, hshorter, if_false, List.append_nil]
    rfl

/-! ## Leaving a seat -/

/-- The hall after the member `p` in seat `i` of lobby `n` has left its seat to the queue. -/
def afterLeaving (h : Hall) (n i : Nat) (l : Lobby) (p : Peer) : Hall :=
  { h with
    lobbies := h.lobbies.set n (l.handOver i p h.takers.head?)
    index := h.takers.head?.elim (h.index.remove p.id) fun q =>
      (h.index.remove p.id).insert q.id n
    queue := h.takers.tail
    announced :=
      if h.takers.tail.length < h.queue.length then h.takers.tail.length else h.announced }

/-- What is brought about when it leaves: the others hear of the end of the running match, it is
let go, the dead front of the queue is let go, the heir is told its number, and those behind are
told their places if the queue has got shorter. -/
def leavingEffects (h : Hall) (l : Lobby) (p : Peer) : List Effect :=
  sends (l.farewell p.id) ++ .release p.id :: (h.lapsed.map (fun q => .release q.id) ++
    sends (h.takers.head?.toList.flatMap fun q => q.tell (.connected p.player)) ++
    if h.takers.tail.length < h.queue.length then
      sends { h with queue := h.takers.tail }.announceQueue.2
    else [])

section

variable {h : Hall} {n i : Nat} {l : Lobby} {p : Peer}

/-- As long as somebody waits every lobby with a member is full. -/
theorem Conserves.full (hs : h.Sound) (hc : h.Conserves) (hl : h.lobbies[n]? = some l)
    (hwait : h.queue ≠ []) : l.members.length = l.capacity :=
  (hs.lodges n l hl).sound.full_of_no_free_seat (hc.isOpen.isOpen n l hl)
    ((hc.filled hwait).2 n l hl)

/-- All that a disconnect of somebody in a seat comes to. -/
theorem Conserves.disconnect_eq (hs : h.Sound) (hc : h.Conserves) (hl : h.lobbies[n]? = some l)
    (hp : l.seats[i]? = some (some p)) :
    h.disconnect p.id = (h.afterLeaving n i l p, h.leavingEffects l p) := by
  have hlodges := hs.lodges n l hl
  have hfind := hs.index_eq hl (Lobby.mem_of_seat hp)
  have hleave := hlodges.sound.leave_eq hlodges.numbered hp
  have hfree : (h.lobbies.set n (l.handOver i p none))[n]? = some (l.handOver i p none) :=
    List.getElem?_set_self (List.getElem?_eq_some_iff.1 hl).1
  have hfill := backfill_handOver (n := n) (i := i) (p := p)
    (h := { h with
      lobbies := h.lobbies.set n (l.handOver i p none), index := h.index.remove p.id })
    hlodges.sound hlodges.numbered hp hfree (fun hwait => hc.full hs hl hwait)
    fun q hq => (hs.queue_plain q hq).1
  simp only [disconnect, hfind, hl, Option.bind_some, hleave, setLobby, hfill, List.set_set]
  rfl

/-! ## Who hears of it -/

theorem messagesTo_leavingEffects (id : ConnectionId) :
    messagesTo (h.leavingEffects l p) id =
      (l.farewell p.id).messagesTo id ++
        (Mail.messagesTo (h.takers.head?.toList.flatMap fun q => q.tell (.connected p.player)) id ++
          if h.takers.tail.length < h.queue.length then
            { h with queue := h.takers.tail }.announceQueue.2.messagesTo id
          else []) := by
  have hrest : ∀ effects, messagesTo (.release p.id :: effects) id = messagesTo effects id :=
    fun _ => rfl
  rw [leavingEffects, messagesTo_append, messagesTo_sends, hrest, messagesTo_append,
    messagesTo_append, messagesTo_releases, messagesTo_sends, List.nil_append]
  split
  · rw [messagesTo_sends]
  · rfl

theorem messagesTo_announceQueue_of_notMem {id : ConnectionId} (hid : id ∉ h.queue.map Peer.id) :
    h.announceQueue.2.messagesTo id = [] := by
  rw [messagesTo_eq_places h.ofKinds_announceQueue]
  exact congrArg (List.map _) (placesTold_places_of_notMem hid 0)

theorem Sound.messagesTo_announceQueue (hs : h.Sound) {j : Nat} {q : Peer}
    (hq : h.queue[j]? = some q) : h.announceQueue.2.messagesTo q.id =
      if q.listening = true then [.inQueue (UInt64.ofNat (j + 1))] else [] := by
  rw [messagesTo_eq_places h.ofKinds_announceQueue, hs.placesTold_announceQueue hq]
  split <;> rfl

/-- Nobody but the heir is told a number. -/
theorem messagesTo_heir_of_ne {heir : Option Peer} {id : ConnectionId}
    (hid : heir.map Peer.id ≠ some id) (m : Message) :
    Mail.messagesTo (heir.toList.flatMap fun q => q.tell m) id = [] := by
  apply Mail.messagesTo_eq_nil
  intro e he heq
  rcases List.mem_flatMap.1 he with ⟨q, hq, heq'⟩
  rw [Peer.tell_addressed (fun _ => m) q e heq'] at heq
  rw [Option.mem_toList.1 hq] at hid
  exact hid (congrArg some heq)

theorem mem_queue_of_heir {id : ConnectionId} (hid : h.takers.head?.map Peer.id = some id) :
    id ∈ h.queue.map Peer.id := by
  rcases Option.map_eq_some_iff.1 hid with ⟨q, hq, rfl⟩
  exact List.mem_map_of_mem (taker_listens hq).1

theorem mem_queue_of_behind {id : ConnectionId} (hid : id ∈ h.takers.tail.map Peer.id) :
    id ∈ h.queue.map Peer.id :=
  (((List.tail_sublist _).trans h.takers_sublist).map Peer.id).subset hid

/-- The heir does not wait behind itself. -/
theorem Sound.heir_not_behind (hs : h.Sound) {id : ConnectionId}
    (hid : h.takers.head?.map Peer.id = some id) : id ∉ h.takers.tail.map Peer.id := by
  have hnodup := hs.queue_nodup.sublist (h.takers_sublist.map Peer.id)
  rcases Option.map_eq_some_iff.1 hid with ⟨q, hq, rfl⟩
  rcases List.head?_eq_some_iff.1 hq with ⟨rest, htakers⟩
  rw [htakers, List.map_cons, List.nodup_cons] at hnodup
  rw [htakers]
  exact hnodup.1

/-- Those who wait hear nothing of the end of a match. -/
theorem Sound.farewell_silent (hs : h.Sound) (hl : h.lobbies[n]? = some l) {id : ConnectionId}
    (hid : id ∈ h.queue.map Peer.id) : (l.farewell p.id).messagesTo id = [] := by
  refine Mail.messagesTo_eq_nil fun e he heq => ?_
  have hmember := (Lobby.recipient_of_farewell he).1
  rw [heq] at hmember
  exact hs.not_mem_queue hl hmember hid

/-- The others in the lobby hear once that nobody has won, if a match was running. -/
theorem Sound.messagesTo_member (hs : h.Sound) (hl : h.lobbies[n]? = some l) {q : Peer}
    (hq : q ∈ l.members) (hne : q.id ≠ p.id) : messagesTo (h.leavingEffects l p) q.id =
      if l.isPlaying = true ∧ q.listening = true then [.gameEnd nobody] else [] := by
  have hout := hs.not_mem_queue hl (List.mem_map_of_mem hq)
  rw [messagesTo_leavingEffects, (hs.lodges n l hl).sound.messagesTo_farewell hq hne,
    messagesTo_heir_of_ne fun hid => hout (mem_queue_of_heir hid),
    messagesTo_announceQueue_of_notMem fun hid => hout (mem_queue_of_behind hid)]
  simp

/-- The heir hears the number of the seat. -/
theorem Sound.messagesTo_heir (hs : h.Sound) (hl : h.lobbies[n]? = some l) {q : Peer}
    (hq : h.takers.head? = some q) :
    messagesTo (h.leavingEffects l p) q.id = [.connected p.player] := by
  have hlistening := (taker_listens hq).2
  have hid : h.takers.head?.map Peer.id = some q.id := by rw [hq, Option.map_some]
  rw [messagesTo_leavingEffects, hs.farewell_silent hl (mem_queue_of_heir hid),
    messagesTo_announceQueue_of_notMem (hs.heir_not_behind hid)]
  simp [hq, Peer.tell, hlistening, Mail.messagesTo]

/-- Whoever waits further hears its new place if the queue has got shorter. -/
theorem Sound.messagesTo_behind (hs : h.Sound) (hl : h.lobbies[n]? = some l) {j : Nat} {q : Peer}
    (hq : h.takers.tail[j]? = some q) : messagesTo (h.leavingEffects l p) q.id =
      if h.takers.tail.length < h.queue.length ∧ q.listening = true then
        [.inQueue (UInt64.ofNat (j + 1))]
      else [] := by
  have hmem : q.id ∈ h.takers.tail.map Peer.id := List.mem_map_of_mem (List.mem_of_getElem? hq)
  have hsound : Sound { h with queue := h.takers.tail } :=
    hs.withQueue ((List.tail_sublist _).trans h.takers_sublist)
  rw [messagesTo_leavingEffects, hs.farewell_silent hl (mem_queue_of_behind hmem),
    messagesTo_heir_of_ne fun hid => hs.heir_not_behind hid hmem,
    hsound.messagesTo_announceQueue hq]
  by_cases hshorter : h.takers.tail.length < h.queue.length
  · simp only [hshorter, if_true, true_and, List.nil_append]
  · simp only [hshorter, if_false, false_and, List.nil_append]

/-- Nobody else hears anything. -/
theorem messagesTo_bystander {id : ConnectionId} (hmember : id ∈ l.members.map Peer.id → id = p.id)
    (hid : h.takers.head?.map Peer.id ≠ some id) (hout : id ∉ h.takers.tail.map Peer.id) :
    messagesTo (h.leavingEffects l p) id = [] := by
  have hsilent : (l.farewell p.id).messagesTo id = [] := by
    refine Mail.messagesTo_eq_nil fun e he heq => ?_
    rcases Lobby.recipient_of_farewell he with ⟨hmem, hne⟩
    rw [heq] at hmem hne
    exact hne (hmember hmem)
  rw [messagesTo_leavingEffects, hsilent, messagesTo_heir_of_ne hid,
    messagesTo_announceQueue_of_notMem (h := { h with queue := h.takers.tail }) hout]
  simp

/-! ## Handing over -/

/-- What a disconnect of the member `p` in seat `i` of the lobby `l` with number `n` changes, and
who hears of it. -/
structure HandedOver (h : Hall) (n i : Nat) (l : Lobby) (p : Peer) (h' : Hall)
    (effects : List Effect) : Prop where
  /-- No other lobby changes, and in this one the seat goes to the first peer in the queue that
  listens. -/
  lobby : ∃ l', h'.lobbies = h.lobbies.set n l' ∧ l.HandedOver i p h.takers.head? l'
  /-- Those behind it wait as before. -/
  queue_eq : h'.queue = h.takers.tail
  index_eq : ∀ id, h'.index.find? id =
    if h.takers.head?.map Peer.id = some id then some n
    else if id = p.id then none else h.index.find? id
  announced_eq : h'.announced =
    if h'.queue.length < h.queue.length then h'.queue.length else h.announced
  settings_eq : h'.settings = h.settings
  draws_eq : h'.draws = h.draws
  /-- Everybody concerned is told, whether it listens or not. -/
  effects_eq : effects = h.leavingEffects l p
  /-- The others in the lobby hear once that nobody has won, if a match was running. -/
  members_hear : ∀ q ∈ l.members, q.id ≠ p.id → messagesTo effects q.id =
    if l.isPlaying = true ∧ q.listening = true then [.gameEnd nobody] else []
  /-- The heir hears the number of the seat. -/
  heir_hears : ∀ q, h.takers.head? = some q → messagesTo effects q.id = [.connected p.player]
  /-- Whoever waits further hears its new place if the queue has got shorter. -/
  queue_hears : ∀ j q, h'.queue[j]? = some q → messagesTo effects q.id =
    if h'.queue.length < h.queue.length ∧ q.listening = true then [.inQueue (UInt64.ofNat (j + 1))]
    else []
  /-- Nobody else hears anything, the one that has left included. -/
  others_silent : ∀ id, (id ∈ l.members.map Peer.id → id = p.id) →
    h.takers.head?.map Peer.id ≠ some id → id ∉ h'.queue.map Peer.id → messagesTo effects id = []

/-- A disconnect of a member of a lobby hands its seat over. -/
theorem Conserves.handedOver (hs : h.Sound) (hc : h.Conserves) (hl : h.lobbies[n]? = some l)
    (hp : l.seats[i]? = some (some p)) :
    HandedOver h n i l p (h.disconnect p.id).1 (h.disconnect p.id).2 := by
  have hlodges := hs.lodges n l hl
  rw [hc.disconnect_eq hs hl hp]
  exact
    { lobby := ⟨_, rfl, hlodges.sound.handedOver hlodges.numbered hp _⟩
      queue_eq := rfl
      index_eq := fun id => by
        simp only [afterLeaving]
        cases h.takers.head? with
        | none => simp [Index.find?_remove]
        | some q => simp [Index.find?_insert, Index.find?_remove, eq_comm]
      announced_eq := rfl
      settings_eq := rfl
      draws_eq := rfl
      effects_eq := rfl
      members_hear := fun q hq hne => hs.messagesTo_member hl hq hne
      heir_hears := fun q hq => hs.messagesTo_heir hl hq
      queue_hears := fun j q hq => hs.messagesTo_behind hl hq
      others_silent := fun id hmember hid hout => messagesTo_bystander hmember hid hout }

end

/-! ## Once and for all -/

/-- Whoever is not held is not held later either, unless it connects. -/
theorem not_holds_run_append (s : Settings) (d : Draws) {es more : List Event}
    (hfresh : (arrivals (es ++ more)).Nodup) {id : ConnectionId}
    (hgone : ¬ ((Hall.new s d).run es).1.Holds id) (hstays : id ∉ arrivals more) :
    ¬ ((Hall.new s d).run (es ++ more)).1.Holds id := by
  induction more using List.reverseRecOn with
  | nil => simpa using hgone
  | append_singleton more e ih =>
      rw [← List.append_assoc] at hfresh ⊢
      rw [arrivals_append, List.mem_append, not_or] at hstays
      have hbefore := nodup_arrivals_of_concat hfresh
      intro hid
      rw [run_concat] at hid
      rcases (run_moves s d hfresh).holds (sound_run s d hbefore) hid with hid | rfl
      · exact ih hbefore hstays.1 hid
      · exact hstays.2 (mem_arrivals.2 (by simp))

/-- Whoever has disconnected may do so once more, whatever has happened since, and nothing comes of
it. -/
theorem disconnect_again (s : Settings) (d : Draws) {es more : List Event} {id : ConnectionId}
    (hfresh : (arrivals (es ++ .command (.disconnect id) :: more)).Nodup)
    (hholds : ((Hall.new s d).run es).1.Holds id) :
    let h := ((Hall.new s d).run (es ++ .command (.disconnect id) :: more)).1
    h.step (.command (.disconnect id)) = (h, []) := by
  intro h
  rw [List.append_cons] at hfresh
  have hbefore := nodup_arrivals_of_isPrefix
    ((List.prefix_append es _).trans (List.prefix_append _ more)) hfresh
  have hs := sound_run s d hbefore
  have hgone : ¬ ((Hall.new s d).run (es ++ [.command (.disconnect id)])).1.Holds id := by
    rw [run_concat, step_holds_iff hs (fun _ he => by cases he) (by simp) id]
    rintro (he | ⟨-, hkept⟩)
    · cases he
    · exact hkept ((Disconnected.of_disconnect hs id).release_mem hholds)
  have hstays : id ∉ arrivals more := by
    have harrived := mem_arrivals_of_holds hbefore hholds
    rw [arrivals_append, List.nodup_append] at hfresh
    refine fun hid => hfresh.2.2 id ?_ id hid rfl
    rw [arrivals_append]
    exact List.mem_append_left _ harrived
  have hactor : (Command.disconnect id).actor? = some id := rfl
  refine handle_of_stranger hactor ?_
  have hlater := not_holds_run_append s d hfresh hgone hstays
  rwa [← List.append_cons] at hlater

/-- In every run in which no connection is made twice, until the hall is shut, and whatever the
settings are: when a member of a lobby disconnects, the match in the lobby is broken off if one is
running, and its seat goes to the first peer in the queue that listens, past those that have stopped
listening and are let go.  The other members hear of it exactly if a match was running, and are
ready no more exactly then; those behind the heir hear their new places exactly if the queue has
got shorter; nobody else hears anything, and nothing else changes.  However the run goes on, another
disconnect of the same connection comes to nothing. -/
theorem handedOver_disconnect (s : Settings) (d : Draws) (es : List Event)
    (hfresh : (arrivals es).Nodup) (hopen : .command .shutDown ∉ es) {n i : Nat} {l : Lobby}
    {p : Peer} (hl : ((Hall.new s d).run es).1.lobbies[n]? = some l)
    (hp : l.seats[i]? = some (some p)) :
    HandedOver ((Hall.new s d).run es).1 n i l p
      (((Hall.new s d).run es).1.step (.command (.disconnect p.id))).1
      (((Hall.new s d).run es).1.step (.command (.disconnect p.id))).2 ∧
    ∀ more, (arrivals (es ++ .command (.disconnect p.id) :: more)).Nodup →
      let h := ((Hall.new s d).run (es ++ .command (.disconnect p.id) :: more)).1
      h.step (.command (.disconnect p.id)) = (h, []) := by
  have hs := sound_run s d hfresh
  have hmember : p.id ∈ l.members.map Peer.id := List.mem_map_of_mem (Lobby.mem_of_seat hp)
  have hseats := hs.seats_of_mem hl hmember
  rw [settings_run s d hfresh] at hseats
  refine ⟨(conserves_run_of_seats hseats d hfresh hopen).handedOver hs hl hp, ?_⟩
  exact fun more hmore => disconnect_again s d hmore
    (Or.inl ⟨n, hs.index_eq hl (Lobby.mem_of_seat hp)⟩)

/-- The first player of a running match disconnects.  The first one in the queue has hung up, so
that the second one gets the seat, and the third one moves up.  When the first player disconnects
once more, after somebody else has come, nothing happens. -/
theorem handedOver_of_brokenOff :
    let s : Settings := { Settings.default with maxLobbies := 1 }
    let es : List Event :=
      [.command (.connect ⟨1⟩), .command (.connect ⟨2⟩), .command (.connect ⟨3⟩),
        .command (.connect ⟨4⟩), .command (.connect ⟨5⟩), .command (.ready ⟨1⟩),
        .command (.ready ⟨2⟩), .hangUp ⟨3⟩]
    let later : List Event := es ++ [.command (.disconnect ⟨1⟩), .command (.connect ⟨6⟩)]
    let h := ((Hall.new s []).run es).1
    let h' := ((Hall.new s []).run later).1
    (arrivals es).Nodup ∧ .command .shutDown ∉ es ∧ (arrivals later).Nodup ∧
      h.takers = [Peer.new ⟨4⟩, Peer.new ⟨5⟩] ∧
      (∃ l p, h.lobbies[0]? = some l ∧ l.seats[0]? = some (some p) ∧ p.id = ⟨1⟩ ∧
        l.isPlaying = true ∧
        HandedOver h 0 0 l p (h.step (.command (.disconnect p.id))).1
          (h.step (.command (.disconnect p.id))).2) ∧
      h'.step (.command (.disconnect ⟨1⟩)) = (h', []) := by
  intro s es later h h'
  have hfresh : (arrivals es).Nodup := by decide
  have hopen : .command .shutDown ∉ es := by decide
  have hlater : (arrivals later).Nodup := by decide
  have htakers : h.takers = [Peer.new ⟨4⟩, Peer.new ⟨5⟩] := by decide +kernel
  obtain ⟨l, hl, hplaying, hseat⟩ : ∃ l ∈ h.lobbies[0]?, l.isPlaying = true ∧
      l.seats[0]? = some (some ⟨⟨1⟩, 1, true, true⟩) := by decide +kernel
  have hhanded := handedOver_disconnect s [] es hfresh hopen hl hseat
  exact ⟨hfresh, hopen, hlater, htakers, ⟨l, _, hl, hseat, rfl, hplaying, hhanded.1⟩,
    hhanded.2 [.command (.connect ⟨6⟩)] hlater⟩

end Hall

end FourInRow
