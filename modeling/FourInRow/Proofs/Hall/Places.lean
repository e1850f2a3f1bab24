import FourInRow.Proofs.Hall.Mail
import FourInRow.Proofs.Lobby.Advance

/-!
# Places in the queue

Whoever waits is told a place, again and again as the queue moves on.  The places that the
listening peers were last told should be different, and are as long as every place in the queue is
told whenever somebody has been let go from it.  A review of a long queue does not always do so:
it lets peers go and tells nobody.  This module says exactly when two waiting peers are told the
same place.

Main results:

- Theorem `Retold.of_step`: what a step without a newcomer does to the places.
- Theorem `Retold.placesDistinct`: it keeps different places different.
- Theorem `placesDistinct_run_iff`: two peers are told the same place exactly if somebody queues up
  at a place that another one was last told, and only after a silent review.
-/

namespace FourInRow

/-- The place in the queue that a message tells. -/
def Message.place? : Message → Option UInt64
  | .inQueue position => some position
  | _ => none

namespace Hall

/-- The places that a connection is told, in order. -/
def placesTold (effects : List Effect) (id : ConnectionId) : List UInt64 :=
  (messagesTo effects id).filterMap Message.place?

/-- The place that a connection was last told. -/
def told (effects : List Effect) (id : ConnectionId) : Option UInt64 :=
  ((messagesTo effects id).filterMap Message.place?).getLast?

/-- The connections that wait and listen, in the order of the queue. -/
def waiting (h : Hall) : List ConnectionId :=
  (h.queue.filter fun p => p.listening).map Peer.id

/-- Were all who wait and listen told different places? -/
def PlacesDistinct (h : Hall) (effects : List Effect) : Prop := (h.waiting.map (told effects)).Nodup

instance (h : Hall) (effects : List Effect) : Decidable (h.PlacesDistinct effects) :=
  inferInstanceAs (Decidable (List.Nodup _))

/-! ## What is told -/

@[simp] theorem placesTold_append (effects effects' : List Effect) (id : ConnectionId) :
    placesTold (effects ++ effects') id = placesTold effects id ++ placesTold effects' id := by
  simp [placesTold]

/-- Mail about places tells nothing but places. -/
theorem messagesTo_eq_places {mail : Mail} (h : mail.OfKinds [.inQueue]) (id : ConnectionId) :
    mail.messagesTo id = (placesTold (sends mail) id).map .inQueue := by
  have hall : ∀ m ∈ mail.messagesTo id, ∃ position, m = .inQueue position := by
    intro m hm
    have hkind := h.kind_mem hm
    cases m with
    | inQueue position => exact ⟨position, rfl⟩
    | _ => simp [Message.kind] at hkind
  rw [placesTold, messagesTo_sends]
  generalize mail.messagesTo id = ms at hall ⊢
  induction ms with
  | nil => rfl
  | cons m ms ih =>
      rcases hall m List.mem_cons_self with ⟨position, rfl⟩
      have hrest := ih fun m' hm' => hall m' (List.mem_cons_of_mem _ hm')
      exact congrArg (Message.inQueue position :: ·) hrest

theorem placesTold_eq_nil_iff {effects : List Effect} {id : ConnectionId} :
    placesTold effects id = [] ↔ told effects id = none :=
  List.getLast?_eq_none_iff.symm

theorem told_append (effects effects' : List Effect) (id : ConnectionId) :
    told (effects ++ effects') id = (told effects' id).or (told effects id) := by
  rw [told, messagesTo_append, List.filterMap_append, List.getLast?_append]
  rfl

/-- Effects that tell a connection no place leave it with what it was told before. -/
theorem told_append_of_none {effects effects' : List Effect} {id : ConnectionId}
    (h : told effects' id = none) : told (effects ++ effects') id = told effects id := by
  rw [told_append, h, Option.none_or]

/-- Mail of other kinds tells nobody a place. -/
theorem told_sends_of_kinds {kinds : List Wire.Kind} {mail : Mail} (h : mail.OfKinds kinds)
    (hkinds : .inQueue ∉ kinds) (id : ConnectionId) : told (sends mail) id = none := by
  rw [told, messagesTo_sends, List.getLast?_eq_none_iff, List.filterMap_eq_nil_iff]
  intro m hm
  have hkind := h.kind_ne hkinds hm
  cases m with
  | inQueue position => exact absurd rfl hkind
  | _ => rfl

theorem told_release (id id' : ConnectionId) : told [.release id'] id = none := rfl

theorem told_releases (ps : List Peer) (id : ConnectionId) :
    told (ps.map fun p => .release p.id) id = none := by
  rw [told, messagesTo_releases]
  rfl

/-- A peer that listens is told its place in the queue. -/
theorem placesTold_queued (p : Peer) (position : UInt64) (id : ConnectionId) :
    placesTold (sends (p.queued position)) id =
      if p.listening = true ∧ p.id = id then [position] else [] := by
  by_cases hlistening : p.listening = true <;> by_cases hid : p.id = id <;>
    simp [placesTold, Peer.queued, Peer.tell, Mail.messagesTo, Message.place?, hlistening, hid]

theorem told_queued (p : Peer) (position : UInt64) (id : ConnectionId) :
    told (sends (p.queued position)) id =
      if p.listening = true ∧ p.id = id then some position else none := by
  change (placesTold _ id).getLast? = _
  rw [placesTold_queued]
  split <;> rfl

/-- When all places are told, nobody hears of one but those who wait. -/
theorem placesTold_places_of_notMem {queue : List Peer} {id : ConnectionId}
    (hout : id ∉ queue.map Peer.id) (start : Nat) :
    placesTold (sends ((queue.zipIdx start).flatMap fun e =>
      e.1.queued (UInt64.ofNat (e.2 + 1)))) id = [] := by
  rw [placesTold, messagesTo_sends, Mail.messagesTo_eq_nil]
  · rfl
  · intro e he heq
    rcases List.mem_flatMap.1 he with ⟨⟨q, j⟩, hq, heq'⟩
    have hid := Peer.tell_addressed (fun _ => .inQueue (UInt64.ofNat (j + 1))) q e heq'
    have hmem := List.fst_mem_of_mem_zipIdx hq
    exact hout (List.mem_map.2 ⟨q, hmem, hid.symm.trans heq⟩)

/-- When all places are told, a listening peer hears its own, and nothing else. -/
theorem placesTold_places {queue : List Peer} (hnodup : (queue.map Peer.id).Nodup) {i : Nat}
    {p : Peer} (hp : queue[i]? = some p) (start : Nat) :
    placesTold (sends ((queue.zipIdx start).flatMap fun e =>
      e.1.queued (UInt64.ofNat (e.2 + 1)))) p.id =
        if p.listening = true then [UInt64.ofNat (start + i + 1)] else [] := by
  induction queue generalizing i start with
  | nil => simp at hp
  | cons q queue ih =>
      rw [List.map_cons, List.nodup_cons] at hnodup
      have hsends : ∀ mail mail' : Mail, sends (mail ++ mail') = sends mail ++ sends mail' :=
        fun mail mail' => List.map_append
      rw [List.zipIdx_cons, List.flatMap_cons, hsends, placesTold_append, placesTold_queued]
      cases i with
      | zero =>
          obtain rfl : q = p := by simpa using hp
          rw [placesTold_places_of_notMem hnodup.1, List.append_nil]
          simp
      | succ i =>
          have hp' : queue[i]? = some p := by simpa using hp
          have hne : q.id ≠ p.id := fun heq =>
            hnodup.1 (heq ▸ List.mem_map_of_mem (List.mem_of_getElem? hp'))
          have hplace : start + 1 + i + 1 = start + (i + 1) + 1 := by omega
          rw [ih hnodup.2 hp' (start + 1), if_neg fun h => hne h.2, List.nil_append, hplace]

theorem Sound.placesTold_announceQueue {h : Hall} (hs : h.Sound) {i : Nat} {p : Peer}
    (hp : h.queue[i]? = some p) :
    placesTold (sends h.announceQueue.2) p.id =
      if p.listening = true then [UInt64.ofNat (i + 1)] else [] := by
  have hplaces := placesTold_places hs.queue_nodup hp 0
  rwa [Nat.zero_add] at hplaces

/-- When all places are told, the peer at index `i` hears that its place is `i + 1`. -/
theorem Sound.told_announceQueue {h : Hall} (hs : h.Sound) {i : Nat} {p : Peer}
    (hp : h.queue[i]? = some p) (hlistening : p.listening = true) :
    told (sends h.announceQueue.2) p.id = some (UInt64.ofNat (i + 1)) := by
  change (placesTold _ p.id).getLast? = _
  rw [hs.placesTold_announceQueue hp, if_pos hlistening]
  rfl

/-! ## What a step does to the places -/

/-- Would a review let somebody go and tell nobody, although others wait? -/
def PrunesSilently (h : Hall) : Prop :=
  (∃ p ∈ h.queue, p.listening = false) ∧ longQueue ≤ h.waiting.length ∧
    (h.waiting.length - h.announced) + (h.announced - h.waiting.length) < largeChange

/-- Are all places told when an event leaves the queue of the second hall?  In a review they are if
this queue is short or its length has changed much, and otherwise whenever somebody has been taken
out of the queue. -/
def Announces (h : Hall) (e : Event) (h' : Hall) : Prop :=
  if e = .review then
    h'.queue.length < longQueue ∨
      largeChange ≤ (h'.queue.length - h.announced) + (h.announced - h'.queue.length)
  else h'.queue.length < h.queue.length

instance (h : Hall) (e : Event) (h' : Hall) : Decidable (h.Announces e h') :=
  inferInstanceAs (Decidable (ite _ _ _))

theorem announces_review_iff {h h' : Hall} : h.Announces .review h' ↔
    h'.queue.length < longQueue ∨
      largeChange ≤ (h'.queue.length - h.announced) + (h.announced - h'.queue.length) := by
  rw [Announces, if_pos rfl]

theorem announces_iff_of_ne {h h' : Hall} {e : Event} (he : e ≠ .review) :
    h.Announces e h' ↔ h'.queue.length < h.queue.length := by
  rw [Announces, if_neg he]

theorem not_announces_of_queue_eq {h h' : Hall} {e : Event} (he : e ≠ .review)
    (hqueue : h'.queue = h.queue) : ¬ h.Announces e h' := by
  rw [announces_iff_of_ne he, hqueue]
  exact lt_irrefl _

theorem length_waiting (h : Hall) :
    (h.queue.filter fun p => p.listening).length = h.waiting.length :=
  (List.length_map _).symm

/-- What becomes of the queue and its places in a step without a newcomer. -/
inductive Retold (h : Hall) (e : Event) : Hall → List Effect → Prop
  /-- The queue stays as it is, and that is no occasion to tell any place. -/
  | unchanged {h' : Hall} {effects : List Effect} (hqueue : h'.queue = h.queue)
      (hquiet : ∀ id, told effects id = none) (hsilent : ¬ h.Announces e h') :
      Retold h e h' effects
  /-- In the end all places are told, and none before. -/
  | announced {h' : Hall} {effects : List Effect} (hs : h'.Sound)
      (hle : h'.queue.length ≤ h.queue.length) (hquiet : ∀ id, told effects id = none)
      (hannounces : h.Announces e h') :
      Retold h e h'.announceQueue.1 (effects ++ sends h'.announceQueue.2)
  /-- Somebody stops listening. -/
  | hungUp (id : ConnectionId) (he : e = .hangUp id) : Retold h e (h.hangUp id) []
  /-- Nobody waits any more. -/
  | emptied {h' : Hall} {effects : List Effect} (hqueue : h'.queue = [])
      (hquiet : ∀ id, told effects id = none) : Retold h e h' effects
  /-- Peers are let go, and nobody is told. -/
  | pruned {effects : List Effect} (he : e = .review) (hprunes : h.PrunesSilently)
      (hquiet : ∀ id, told effects id = none) :
      Retold h e { h with queue := h.queue.filter fun p => p.listening } effects

/-- Filling up a lobby takes peers from the front of the queue, or does nothing. -/
theorem seatFrom_suffix (n : Nat) (queue : List Peer) (h : Hall) :
    (seatFrom n h queue).2.1 = queue ∧ (seatFrom n h queue).2.2 = [] ∨
      (seatFrom n h queue).2.1.length < queue.length := by
  induction queue generalizing h with
  | nil => exact Or.inl ⟨rfl, rfl⟩
  | cons p rest ih =>
      have hshort : ∀ k : Hall, (seatFrom n k rest).2.1.length < (p :: rest).length := by
        intro k
        rcases ih k with ⟨hsame, -⟩ | hlt
        · simp [hsame]
        · simp only [List.length_cons]
          omega
      unfold seatFrom
      by_cases hfree : h.hasFreeSeat n = true
      · by_cases hlistening : p.listening = true
        · rw [if_pos hfree, if_pos hlistening]
          cases h.place n p with
          | none => exact Or.inl ⟨rfl, rfl⟩
          | some r => exact Or.inr (hshort r.1)
        · rw [if_pos hfree, if_neg hlistening]
          exact Or.inr (hshort h)
      · rw [if_neg hfree]
        exact Or.inl ⟨rfl, rfl⟩

/-- Filling up a lobby tells nobody a place. -/
theorem told_seatFrom (n : Nat) (queue : List Peer) (h : Hall) (id : ConnectionId) :
    told (seatFrom n h queue).2.2 id = none := by
  induction queue generalizing h with
  | nil => rfl
  | cons p rest ih =>
      unfold seatFrom
      by_cases hfree : h.hasFreeSeat n = true
      · by_cases hlistening : p.listening = true
        · rw [if_pos hfree, if_pos hlistening]
          cases hplace : h.place n p with
          | none => rfl
          | some r =>
              rcases r with ⟨h', mail⟩
              rcases place_eq_some_iff.1 hplace with ⟨l, player, l', -, hseat, -⟩
              change told (sends mail ++ (seatFrom n h' rest).2.2) id = none
              rw [told_append_of_none (ih h')]
              exact told_sends_of_kinds (Lobby.ofKinds_seat hseat) (by decide) id
        · rw [if_pos hfree, if_neg hlistening]
          change told ([.release p.id] ++ (seatFrom n h rest).2.2) id = none
          rw [told_append_of_none (ih h), told_release]
      · rw [if_neg hfree]
        rfl

/-- Shutting the hall tells nobody a place. -/
theorem told_shutDown (h : Hall) (id : ConnectionId) : told h.shutDown.2 id = none := by
  have hclose : told (closeAll h.lobbies).2 id = none := by
    induction h.lobbies with
    | nil => rfl
    | cons l ls ih =>
        change told (sends l.close.2.2 ++ _ ++ (closeAll ls).2) id = none
        rw [told_append_of_none ih, told_append_of_none (told_releases _ id)]
        exact told_sends_of_kinds (Lobby.ofKinds_close l) (by decide) id
  change told ((closeAll h.lobbies).2 ++ _) id = none
  rw [told_append_of_none (told_releases _ id), hclose]

/-- When a lobby is filled up the queue stays as it is, or all places in it are told. -/
theorem Retold.backfill (h : Hall) {h' : Hall} (hs : h'.Sound) (hqueue : h'.queue = h.queue)
    {e : Event} (he : e ≠ .review) {effects : List Effect}
    (hquiet : ∀ id, told effects id = none) (n : Nat) :
    Retold h e (h'.backfill n).1 (effects ++ (h'.backfill n).2) := by
  have hsound := hs.moves (seatFrom_moves e n h'.queue h')
  unfold Hall.backfill
  rcases seatFrom_suffix n h'.queue h' with ⟨hsame, hnothing⟩ | hlt
  · simp only [hsame, hnothing, if_true, List.append_nil]
    exact .unchanged hqueue hquiet (not_announces_of_queue_eq he hqueue)
  · have hshorter := hlt
    rw [hqueue] at hshorter
    simp only [hlt.ne, if_false, ← List.append_assoc]
    refine .announced hsound ?_ (fun id => ?_) ((announces_iff_of_ne he).2 ?_)
    · rw [hqueue]
      exact hshorter.le
    · rw [told_append_of_none (told_seatFrom n h'.queue h' id), hquiet id]
    · rw [hqueue]
      exact hshorter

theorem Retold.reviewQueue {h : Hall} (hs : h.Sound) :
    Retold h .review h.reviewQueue.1 h.reviewQueue.2 := by
  have hquiet := told_releases (h.queue.filter fun p => !p.listening)
  simp only [Hall.reviewQueue]
  split
  · next hempty => exact .emptied (List.length_eq_zero_iff.1 hempty) hquiet
  · split
    · next hoccasion =>
        exact .announced (hs.withQueue List.filter_sublist) (List.length_filter_le _ _)
          hquiet (announces_review_iff.2 hoccasion)
    · next hshort =>
        by_cases hdead : ∃ p ∈ h.queue, p.listening = false
        · refine .pruned rfl ⟨hdead, ?_⟩ hquiet
          rw [← h.length_waiting]
          omega
        · refine .unchanged (List.filter_eq_self.2 fun p hp => ?_) hquiet
            (mt announces_review_iff.1 hshort)
          exact Bool.not_eq_false _ ▸ fun hp' => hdead ⟨p, hp, hp'⟩

theorem Retold.readied {h h' : Hall} {id : ConnectionId} {mail : Mail} {e : Event}
    (he : e ≠ .review) (hreadied : Readied h id h' mail) : Retold h e h' (sends mail) := by
  cases hreadied with
  | unseated => exact .unchanged rfl (fun _ => rfl) (not_announces_of_queue_eq he rfl)
  | seated hl hreadied =>
      exact .unchanged rfl (told_sends_of_kinds hreadied.ofKinds (by decide))
        (not_announces_of_queue_eq he rfl)

theorem Retold.turned {h h' : Hall} {id : ConnectionId} {column : UInt8} {effects : List Effect}
    {e : Event} (he : e ≠ .review) (hs : h.Sound) (hturned : Turned h id column h' effects) :
    Retold h e h' effects := by
  cases hturned with
  | unseated => exact .unchanged rfl (fun _ => rfl) (not_announces_of_queue_eq he rfl)
  | seated hl hturned =>
      exact .backfill h (hs.move (.turned rfl hl hturned)) rfl he
        (told_sends_of_kinds hturned.ofKinds (by decide)) _

theorem Retold.disconnected {h h' : Hall} {id : ConnectionId} {effects : List Effect} {e : Event}
    (he : e ≠ .review) (hs : h.Sound) (hdisconnected : Disconnected h id h' effects) :
    Retold h e h' effects := by
  cases hdisconnected with
  | stranger => exact .unchanged rfl (fun _ => rfl) (not_announces_of_queue_eq he rfl)
  | @left n l l' p mail hl hleft =>
      refine .backfill h (hs.left hl hleft) rfl he (fun i => ?_) n
      rw [told_append_of_none (told_release i id)]
      exact told_sends_of_kinds hleft.ofKinds (by decide) i
  | @withdrawn before after p hid hqueue =>
      have hsub := removed_sublist hqueue
      have hshorter : (before ++ after).length < h.queue.length := by
        rw [hqueue]
        simp
      rw [← List.singleton_append]
      exact .announced (hs.withQueue hsub) hsub.length_le (fun i => told_release i id)
        ((announces_iff_of_ne he).2 hshorter)

/-- A step without a newcomer comes to one of the outcomes of `Retold`. -/
theorem Retold.of_step {h : Hall} (hs : h.Sound) {e : Event}
    (he : ∀ id, e ≠ .command (.connect id)) : Retold h e (h.step e).1 (h.step e).2 := by
  cases e with
  | review => exact .reviewQueue hs
  | hangUp id => exact .hungUp id rfl
  | command c =>
      cases c with
      | connect id => exact absurd rfl (he id)
      | shutDown => exact .emptied rfl (told_shutDown h)
      | ready id => exact .readied Event.noConfusion (.of_ready h id)
      | turn id column => exact .turned Event.noConfusion hs (.of_turn hs id column)
      | disconnect id => exact .disconnected Event.noConfusion hs (.of_disconnect hs id)

/-! ## Different places -/

/-- Different places stay different where nobody is told a place and nobody starts to wait. -/
theorem PlacesDistinct.of_sublist {h h' : Hall} {before effects : List Effect}
    (hd : h.PlacesDistinct before) (hsub : h'.waiting.Sublist h.waiting)
    (hquiet : ∀ id, told effects id = none) : h'.PlacesDistinct (before ++ effects) := by
  have hsame : told (before ++ effects) = told before :=
    funext fun id => told_append_of_none (hquiet id)
  rw [PlacesDistinct, hsame]
  exact hd.sublist (hsub.map _)

theorem waiting_sublist (h : Hall) : h.waiting.Sublist (h.queue.map Peer.id) :=
  List.filter_sublist.map Peer.id

/-- Nobody starts to wait by hanging up. -/
theorem waiting_hangUp_sublist (h : Hall) (id : ConnectionId) :
    (h.hangUp id).waiting.Sublist h.waiting := by
  have hwaiting : (h.hangUp id).waiting =
      (h.queue.filter fun p => p.listening && p.id ≠ id).map Peer.id := by
    unfold waiting hangUp
    induction h.queue with
    | nil => rfl
    | cons p queue ih =>
        by_cases hid : p.id = id
        · simpa [hid, Peer.hangUp] using ih
        · cases hlistening : p.listening <;> simpa [hid, hlistening] using ih
  rw [hwaiting]
  refine List.Sublist.map Peer.id (List.monotone_filter_right _ fun p hp => ?_)
  exact (Bool.and_eq_true_iff.1 hp).1

/-- Places that are told all at once are different. -/
theorem Sound.placesDistinct_announceQueue {h : Hall} (hs : h.Sound)
    (hroom : h.queue.length < 2 ^ 64) (before : List Effect) :
    h.announceQueue.1.PlacesDistinct (before ++ sends h.announceQueue.2) := by
  have hplace : ∀ id ∈ h.waiting, ∃ i p, i < h.queue.length ∧ h.queue[i]? = some p ∧ p.id = id ∧
      told (before ++ sends h.announceQueue.2) id = some (UInt64.ofNat (i + 1)) := by
    intro id hid
    rcases List.mem_map.1 hid with ⟨p, hp, rfl⟩
    rcases List.mem_filter.1 hp with ⟨hmem, hlistening⟩
    rcases List.getElem?_of_mem hmem with ⟨i, hi⟩
    refine ⟨i, p, (List.getElem?_eq_some_iff.1 hi).1, hi, rfl, ?_⟩
    rw [told_append, hs.told_announceQueue hi hlistening, Option.some_or]
  refine List.Nodup.map_on ?_ (hs.queue_nodup.sublist h.waiting_sublist)
  intro id hid id' hid' heq
  rcases hplace id hid with ⟨i, p, hi, hp, rfl, htold⟩
  rcases hplace id' hid' with ⟨j, q, hj, hq, rfl, htold'⟩
  rw [htold, htold', Option.some.injEq] at heq
  have hnat := congrArg UInt64.toNat heq
  rw [UInt64.toNat_ofNat_of_lt' (by simp only [UInt64.size]; omega),
    UInt64.toNat_ofNat_of_lt' (by simp only [UInt64.size]; omega)] at hnat
  have hij : i = j := by omega
  subst hij
  rw [hp] at hq
  rw [Option.some.inj hq]

/-- A step without a newcomer keeps different places different. -/
theorem Retold.placesDistinct {h h' : Hall} {e : Event} {effects before : List Effect}
    (hretold : Retold h e h' effects) (hroom : h.queue.length < 2 ^ 64)
    (hd : h.PlacesDistinct before) : h'.PlacesDistinct (before ++ effects) := by
  cases hretold with
  | unchanged hqueue hquiet =>
      refine hd.of_sublist ?_ hquiet
      rw [waiting, hqueue]
      exact List.Sublist.refl _
  | @announced h' effects hs hle =>
      rw [← List.append_assoc]
      exact hs.placesDistinct_announceQueue (hle.trans_lt hroom) (before ++ effects)
  | hungUp id => exact hd.of_sublist (h.waiting_hangUp_sublist id) fun _ => rfl
  | emptied hqueue =>
      rw [PlacesDistinct, waiting, hqueue]
      exact List.nodup_nil
  | pruned he hprunes hquiet =>
      refine hd.of_sublist ?_ hquiet
      simp only [waiting, List.filter_filter, Bool.and_self]
      exact List.Sublist.refl _

/-- Does a newcomer queue up at a place that somebody who waits was last told? -/
def Clashes (h : Hall) (effects : List Effect) (id : ConnectionId) : Prop :=
  id ∈ (h.connect id).1.waiting ∧
    some (UInt64.ofNat (h.queue.length + 1)) ∈ h.waiting.map (told effects)

/-- Where somebody is seated on arrival the queue stays as it is. -/
theorem Grown.queue_eq {h h' : Hall} (hgrown : Grown h h') : h'.queue = h.queue := by
  cases hgrown <;> rfl

theorem mem_waiting_holds {h : Hall} {id : ConnectionId} (hid : id ∈ h.waiting) : h.Holds id :=
  Or.inr (h.waiting_sublist.subset hid)

theorem waiting_enqueue_new (h : Hall) (id : ConnectionId) :
    (h.enqueue (Peer.new id)).1.waiting = h.waiting ++ [id] := by
  simp [waiting, Peer.new]

/-- A newcomer that queues up is told its place, and nobody else is told anything. -/
theorem Grown.told_enqueue {h h' : Hall} (hgrown : Grown h h') (id i : ConnectionId) :
    told (sends (h'.enqueue (Peer.new id)).2) i =
      if id = i then some (UInt64.ofNat (h.queue.length + 1)) else none := by
  have hlength : (h'.queue ++ [Peer.new id]).length = h.queue.length + 1 := by
    rw [hgrown.queue_eq, List.length_append, List.length_singleton]
  rw [enqueue, hlength, told_queued]
  simp [Peer.new]

/-- A newcomer leaves different places different exactly if it does not clash with anybody. -/
theorem Connected.placesDistinct_iff {h : Hall} {id : ConnectionId} {before : List Effect}
    (hconnected : Connected h id (h.connect id).1 (h.connect id).2) (hnew : ¬ h.Holds id)
    (hd : h.PlacesDistinct before) :
    (h.connect id).1.PlacesDistinct (before ++ sends (h.connect id).2) ↔
      ¬ h.Clashes before id := by
  unfold Clashes
  have hnot : id ∉ h.waiting := fun hid => hnew (mem_waiting_holds hid)
  generalize (h.connect id).1 = h', (h.connect id).2 = mail at hconnected ⊢
  cases hconnected with
  | @seated k n l l' player mail hgrown hl hseat =>
      have hwaiting : waiting { k.setLobby n l' with index := k.index.insert id n } =
          h.waiting := by
        rw [waiting, waiting, ← hgrown.queue_eq]
        rfl
      rw [hwaiting]
      refine ⟨fun _ hclash => hnot hclash.1, fun _ => hd.of_sublist ?_ ?_⟩
      · rw [hwaiting]
      · exact told_sends_of_kinds (Lobby.ofKinds_seat hseat) (by decide)
  | @queued k hgrown =>
      have hwaiting : (k.enqueue (Peer.new id)).1.waiting = h.waiting ++ [id] := by
        rw [waiting_enqueue_new, waiting, waiting, hgrown.queue_eq]
      have hothers : h.waiting.map (told (before ++ sends (k.enqueue (Peer.new id)).2)) =
          h.waiting.map (told before) := by
        refine List.map_congr_left fun i hi => told_append_of_none ?_
        rw [hgrown.told_enqueue, if_neg]
        rintro rfl
        exact hnot hi
      rw [PlacesDistinct, hwaiting, List.map_append, hothers, List.map_singleton, told_append,
        hgrown.told_enqueue, if_pos rfl, Option.some_or, List.nodup_append]
      constructor
      · rintro ⟨-, -, hdisjoint⟩ ⟨-, hclash⟩
        exact hdisjoint _ hclash _ (List.mem_singleton_self _) rfl
      · intro hclash
        refine ⟨hd, List.nodup_singleton _, ?_⟩
        rintro place hplace _ hlast rfl
        rw [List.mem_singleton] at hlast
        subst hlast
        exact hclash ⟨by simp, hplace⟩

/-! ## Right places -/

/-- Was everybody who waits and listens last told the place where it stands? -/
def PlacesExact (h : Hall) (effects : List Effect) : Prop :=
  ∀ (i : Nat) (p : Peer), h.queue[i]? = some p → p.listening = true →
    told effects p.id = some (UInt64.ofNat (i + 1))

/-- Right places stay right unless a review lets peers go silently. -/
theorem Retold.placesExact {h h' : Hall} {e : Event} {effects before : List Effect}
    (hretold : Retold h e h' effects) (hloud : e = .review → ¬ h.PrunesSilently)
    (hexact : h.PlacesExact before) : h'.PlacesExact (before ++ effects) := by
  intro i p hp hlistening
  cases hretold with
  | unchanged hqueue hquiet =>
      rw [hqueue] at hp
      rw [told_append_of_none (hquiet p.id)]
      exact hexact i p hp hlistening
  | @announced h' effects hs hle =>
      rw [← List.append_assoc, told_append, hs.told_announceQueue hp hlistening, Option.some_or]
  | hungUp id =>
      change (h.queue.map _)[i]? = some p at hp
      rw [List.getElem?_map] at hp
      rcases Option.map_eq_some_iff.1 hp with ⟨q, hq, hqp⟩
      split at hqp
      · rw [← hqp] at hlistening
        cases hlistening
      · subst hqp
        rw [List.append_nil]
        exact hexact i q hq hlistening
  | emptied hqueue =>
      rw [hqueue] at hp
      cases hp
  | pruned he hprunes => exact absurd hprunes (hloud he)

/-- A newcomer is told the place where it stands. -/
theorem Connected.placesExact {h h' : Hall} {id : ConnectionId} {mail : Mail}
    {before : List Effect} (hconnected : Connected h id h' mail) (hnew : ¬ h.Holds id)
    (hexact : h.PlacesExact before) : h'.PlacesExact (before ++ sends mail) := by
  intro i p hp hlistening
  cases hconnected with
  | @seated k n l l' player mail hgrown hl hseat =>
      change k.queue[i]? = some p at hp
      rw [hgrown.queue_eq] at hp
      rw [told_append_of_none (told_sends_of_kinds (Lobby.ofKinds_seat hseat) (by decide) p.id)]
      exact hexact i p hp hlistening
  | @queued k hgrown =>
      rw [queue_enqueue, hgrown.queue_eq] at hp
      rw [told_append, hgrown.told_enqueue]
      by_cases hi : i < h.queue.length
      · rw [List.getElem?_append_left hi] at hp
        have hne : id ≠ p.id := by
          rintro rfl
          exact hnew (Or.inr (List.mem_map_of_mem (List.mem_of_getElem? hp)))
        rw [if_neg hne, Option.none_or]
        exact hexact i p hp hlistening
      · have hlast := (List.getElem?_eq_some_iff.1 hp).1
        rw [List.length_append, List.length_singleton] at hlast
        have hi : i = h.queue.length := by omega
        subst hi
        rw [List.getElem?_append_right le_rfl, Nat.sub_self, List.getElem?_cons_zero] at hp
        have hid : id = p.id := congrArg Peer.id (Option.some.inj hp)
        rw [if_pos hid, Option.some_or]

/-! ## Runs -/

/-- Who waits has connected, so there are no more places than connections. -/
theorem length_queue_le (s : Settings) (d : Draws) {es : List Event}
    (hfresh : (arrivals es).Nodup) :
    ((Hall.new s d).run es).1.queue.length ≤ (arrivals es).length := by
  have hle := ((sound_run s d hfresh).queue_nodup.subperm fun id hid =>
    mem_arrivals_of_holds hfresh (Or.inr hid)).length_le
  rwa [List.length_map] at hle

theorem length_arrivals_le_of_isPrefix {es es' : List Event} (hpre : es <+: es') :
    (arrivals es).length ≤ (arrivals es').length :=
  (hpre.sublist.filterMap _).length_le

/-- In a run with fewer connections than a machine word counts the queue never gets longer. -/
theorem length_queue_lt (s : Settings) (d : Draws) {es : List Event}
    (hfresh : (arrivals es).Nodup) (hshort : (arrivals es).length < 2 ^ 64) {before : List Event}
    (hpre : before <+: es) : ((Hall.new s d).run before).1.queue.length < 2 ^ 64 := by
  have hqueue := length_queue_le s d (nodup_arrivals_of_isPrefix hpre hfresh)
  exact (hqueue.trans (length_arrivals_le_of_isPrefix hpre)).trans_lt hshort

/-- One more event keeps different places different, unless it brings somebody who clashes. -/
theorem placesDistinct_concat {s : Settings} {d : Draws} {es : List Event} {e : Event}
    (hfresh : (arrivals (es ++ [e])).Nodup)
    (hroom : ((Hall.new s d).run es).1.queue.length < 2 ^ 64)
    (hd : ((Hall.new s d).run es).1.PlacesDistinct ((Hall.new s d).run es).2) :
    ((Hall.new s d).run (es ++ [e])).1.PlacesDistinct ((Hall.new s d).run (es ++ [e])).2 ↔
      ∀ id, e = .command (.connect id) →
        ¬ ((Hall.new s d).run es).1.Clashes ((Hall.new s d).run es).2 id := by
  have hpre := List.prefix_append es [e]
  have hbefore := nodup_arrivals_of_isPrefix hpre hfresh
  have hs := sound_run s d hbefore
  rw [run_concat]
  by_cases he : ∃ id, e = .command (.connect id)
  · rcases he with ⟨id, rfl⟩
    have hiff := (Connected.of_connect hs id).placesDistinct_iff
      (not_holds_of_connect hfresh rfl) hd
    refine hiff.trans ⟨fun hclash i hi => ?_, fun hclash => hclash id rfl⟩
    cases hi
    exact hclash
  · have hold : ∀ id, e ≠ .command (.connect id) := fun id heq => he ⟨id, heq⟩
    refine iff_of_true ?_ fun id heq => absurd heq (hold id)
    exact (Retold.of_step hs hold).placesDistinct hroom hd

/-- As long as no review lets peers go silently, everybody was last told where it stands. -/
theorem placesExact_run (s : Settings) (d : Draws) {es : List Event}
    (hfresh : (arrivals es).Nodup)
    (hloud : ∀ before, before ++ [.review] <+: es →
      ¬ ((Hall.new s d).run before).1.PrunesSilently) :
    ((Hall.new s d).run es).1.PlacesExact ((Hall.new s d).run es).2 := by
  induction es using List.reverseRecOn with
  | nil =>
      intro i p hp
      cases hp
  | append_singleton es e ih =>
      have hpre := List.prefix_append es [e]
      have hbefore := nodup_arrivals_of_isPrefix hpre hfresh
      have hs := sound_run s d hbefore
      have hexact := ih hbefore fun before h => hloud before (h.trans hpre)
      rw [run_concat]
      by_cases he : ∃ id, e = .command (.connect id)
      · rcases he with ⟨id, rfl⟩
        exact (Connected.of_connect hs id).placesExact (not_holds_of_connect hfresh rfl) hexact
      · refine (Retold.of_step hs fun id heq => he ⟨id, heq⟩).placesExact ?_ hexact
        rintro rfl
        exact hloud es (List.prefix_refl _)

/-- In a run in which no connection is made twice, the listening peers in the queue were always
last told different places exactly if nobody ever queues up at a place that another one was last
told.  That takes a review that lets peers go silently: without one everybody was last told the
place where it stands.  The length of the queue has to fit into a machine word, as places do. -/
theorem placesDistinct_run_iff (s : Settings) (d : Draws) (es : List Event)
    (hfresh : (arrivals es).Nodup)
    (hroom : ∀ before, before <+: es → ((Hall.new s d).run before).1.queue.length < 2 ^ 64) :
    ((∀ before, before <+: es →
        ((Hall.new s d).run before).1.PlacesDistinct ((Hall.new s d).run before).2) ↔
      ∀ before id, before ++ [.command (.connect id)] <+: es →
        ¬ ((Hall.new s d).run before).1.Clashes ((Hall.new s d).run before).2 id) ∧
    ∀ before, before <+: es →
      (∀ earlier, earlier ++ [.review] <+: before →
        ¬ ((Hall.new s d).run earlier).1.PrunesSilently) →
      ((Hall.new s d).run before).1.PlacesExact ((Hall.new s d).run before).2 := by
  have hone : ∀ before e, before ++ [e] <+: es →
      ((Hall.new s d).run before).1.PlacesDistinct ((Hall.new s d).run before).2 →
      (((Hall.new s d).run (before ++ [e])).1.PlacesDistinct
          ((Hall.new s d).run (before ++ [e])).2 ↔
        ∀ id, e = .command (.connect id) →
          ¬ ((Hall.new s d).run before).1.Clashes ((Hall.new s d).run before).2 id) := by
    intro before e hpre hd
    exact placesDistinct_concat (nodup_arrivals_of_isPrefix hpre hfresh)
      (hroom before ((List.prefix_append _ _).trans hpre)) hd
  refine ⟨⟨fun hdistinct before id hpre => ?_, fun hclash before => ?_⟩, ?_⟩
  · have hd := hdistinct before ((List.prefix_append _ _).trans hpre)
    exact (hone before _ hpre hd).1 (hdistinct _ hpre) id rfl
  · induction before using List.reverseRecOn with
    | nil => exact fun _ => List.nodup_nil
    | append_singleton before e ih =>
        intro hpre
        have hd := ih ((List.prefix_append _ _).trans hpre)
        refine (hone before e hpre hd).2 ?_
        rintro id rfl
        exact hclash before id hpre
  · intro before hpre hloud
    exact placesExact_run s d (nodup_arrivals_of_isPrefix hpre hfresh) hloud

/-- Two connections are seated and eleven queue up.  After a review has told all places the first
one in the queue hangs up, the next review lets it go silently, and one more connection queues
up. -/
def silentReview : List Event :=
  (List.range 13).map (fun i => .command (.connect (.ofNat i))) ++
    [.review, .hangUp (.ofNat 2), .review, .command (.connect (.ofNat 13))]

/-- A hall with valid settings can leave two listening peers with the same place. -/
theorem not_placesDistinct_silentReview :
    let s := { Settings.default with maxLobbies := 1 }
    s.check = .ok () ∧ (arrivals silentReview).Nodup ∧
      ¬ ((Hall.new s []).run silentReview).1.PlacesDistinct
        ((Hall.new s []).run silentReview).2 :=
  ⟨rfl, by decide +kernel, by decide +kernel⟩

/-- There somebody queues up at a place that another one was last told. -/
theorem exists_clashes_silentReview :
    let h := Hall.new { Settings.default with maxLobbies := 1 } []
    (arrivals silentReview).Nodup ∧
      (∀ before, before <+: silentReview → (h.run before).1.queue.length < 2 ^ 64) ∧
      ∃ before id, before ++ [.command (.connect id)] <+: silentReview ∧
        (h.run before).1.Clashes (h.run before).2 id := by
  intro h
  have hfresh : (arrivals silentReview).Nodup := by decide +kernel
  have hroom : ∀ before, before <+: silentReview → (h.run before).1.queue.length < 2 ^ 64 :=
    fun before hpre => length_queue_lt _ [] hfresh (by decide +kernel) hpre
  refine ⟨hfresh, hroom, ?_⟩
  by_contra hnone
  have hdistinct := (placesDistinct_run_iff { Settings.default with maxLobbies := 1 } []
    silentReview hfresh hroom).1.2 fun before id hpre hclash =>
      hnone ⟨before, id, hpre, hclash⟩
  exact absurd (hdistinct silentReview (List.prefix_refl _)) (by decide +kernel)

end Hall

end FourInRow
