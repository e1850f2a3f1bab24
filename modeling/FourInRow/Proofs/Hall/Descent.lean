import FourInRow.Proofs.Hall.Admission
import FourInRow.Proofs.Hall.Places

/-!
# Moving up in the queue

Whoever waits only ever moves towards the front of the queue: newcomers line up at its end, and
whoever leaves it lets those behind move up.  So the places that a connection is handed never get
larger, and whatever it was handed last, its place is not further back.  How far the two may differ
depends on the reviews; wherever all places are told again they agree.

A peer that has stopped listening is still handed its place, as long as it waits, though it does not
hear of it.  So there are two logs of places: those that are handed out, and those that are heard.

Main results:

- Theorem `placesTold_step`: whoever listens hears the place that it is handed, and nobody else.
- Theorem `waitsBehind_step`: in a step nobody falls back.
- Theorem `Honest.step`: a step keeps a connection at the last place of its log or before it.
- Theorem `placesDescend_run`: places only move down, and no place is too good.
-/

namespace FourInRow

namespace Hall

/-! ## Places -/

/-- Does a connection wait, with so many others before it?  Then its place is one more. -/
def WaitsBehind (h : Hall) (id : ConnectionId) (n : Nat) : Prop :=
  (h.queue.map Peer.id)[n]? = some id

theorem waitsBehind_iff {h : Hall} {id : ConnectionId} {n : Nat} :
    h.WaitsBehind id n ↔ ∃ p, h.queue[n]? = some p ∧ p.id = id := by
  rw [WaitsBehind, List.getElem?_map, Option.map_eq_some_iff]

theorem WaitsBehind.lt_length {h : Hall} {id : ConnectionId} {n : Nat}
    (hwaits : h.WaitsBehind id n) : n < h.queue.length := by
  simpa using (List.getElem?_eq_some_iff.1 hwaits).1

theorem WaitsBehind.holds {h : Hall} {id : ConnectionId} {n : Nat}
    (hwaits : h.WaitsBehind id n) : h.Holds id :=
  Or.inr (List.mem_of_getElem? hwaits)

/-- A connection has one place. -/
theorem Sound.waitsBehind_unique {h : Hall} (hs : h.Sound) {id : ConnectionId} {n m : Nat}
    (hn : h.WaitsBehind id n) (hm : h.WaitsBehind id m) : n = m :=
  (List.getElem?_inj (List.getElem?_eq_some_iff.1 hn).1 hs.queue_nodup).1
    (Eq.trans hn (Eq.symm hm))

/-- When a queue only loses peers those that stay do not fall back. -/
theorem WaitsBehind.of_sublist {h h' : Hall} {id : ConnectionId} {n : Nat}
    (hwaits : h'.WaitsBehind id n)
    (hsub : (h'.queue.map Peer.id).Sublist (h.queue.map Peer.id)) :
    ∃ m, n ≤ m ∧ h.WaitsBehind id m := by
  rcases List.sublist_iff_exists_orderEmbedding_getElem?_eq.1 hsub with ⟨f, hf⟩
  exact ⟨f n, f.strictMono.le_apply, (hf n).symm.trans hwaits⟩

/-- The place at which a connection waits, counted from 1. -/
def position? (h : Hall) (id : ConnectionId) : Option UInt64 :=
  if id ∈ h.queue.map Peer.id then
    some (UInt64.ofNat ((h.queue.map Peer.id).idxOf id + 1))
  else none

theorem WaitsBehind.position?_eq {h : Hall} {id : ConnectionId} {n : Nat}
    (hwaits : h.WaitsBehind id n) (hs : h.Sound) :
    h.position? id = some (UInt64.ofNat (n + 1)) := by
  rcases List.getElem?_eq_some_iff.1 hwaits with ⟨hn, hget⟩
  have hindex : (h.queue.map Peer.id).idxOf id = n := by
    rw [← hget]
    exact hs.queue_nodup.idxOf_getElem n hn
  rw [position?, if_pos (List.mem_of_getElem? hwaits), hindex]

theorem position?_eq_none {h : Hall} {id : ConnectionId} (hout : id ∉ h.queue.map Peer.id) :
    h.position? id = none :=
  if_neg hout

theorem exists_waitsBehind {h : Hall} {id : ConnectionId} {position : UInt64}
    (hposition : h.position? id = some position) :
    ∃ n, position = UInt64.ofNat (n + 1) ∧ h.WaitsBehind id n := by
  unfold position? at hposition
  split at hposition
  · next hmem =>
      refine ⟨_, (Option.some.inj hposition).symm, ?_⟩
      rw [WaitsBehind, List.getElem?_eq_getElem (List.idxOf_lt_length_iff.2 hmem),
        List.getElem_idxOf]
  · cases hposition

/-- A peer in the queue is one that waits and listens if it listens. -/
theorem Sound.mem_waiting_iff {h : Hall} (hs : h.Sound) {n : Nat} {p : Peer}
    (hp : h.queue[n]? = some p) : p.id ∈ h.waiting ↔ p.listening = true := by
  have hqueue := List.mem_of_getElem? hp
  constructor
  · intro hid
    rcases List.mem_map.1 hid with ⟨q, hq, heq⟩
    rcases List.mem_filter.1 hq with ⟨hmem, hlistening⟩
    rwa [List.inj_on_of_nodup_map hs.queue_nodup hmem hqueue heq] at hlistening
  · exact fun hlistening => List.mem_map_of_mem (List.mem_filter.2 ⟨hqueue, hlistening⟩)

theorem mem_queue_of_waiting {h : Hall} {id : ConnectionId} (hid : id ∈ h.waiting) :
    id ∈ h.queue.map Peer.id :=
  h.waiting_sublist.subset hid

/-! ## Handing out places -/

/-- The places that a connection is handed in a step, whether it listens or not: its own if it has
just lined up, or if all places are told. -/
def handedBy (h : Hall) (e : Event) (id : ConnectionId) : List UInt64 :=
  if e = .command (.connect id) ∨ h.Announces e (h.step e).1 then
    ((h.step e).1.position? id).toList
  else []

/-- The places that a connection is handed in a run, in order. -/
def handed (h : Hall) : List Event → ConnectionId → List UInt64
  | [], _ => []
  | e :: es, id => h.handedBy e id ++ (h.step e).1.handed es id

theorem handed_concat (h : Hall) (es : List Event) (e : Event) (id : ConnectionId) :
    h.handed (es ++ [e]) id = h.handed es id ++ (h.run es).1.handedBy e id := by
  induction es generalizing h with
  | nil => simp [handed, run]
  | cons e' es ih => simp [handed, run, ih]

/-! ## Hearing places -/

/-- When all places are told, those who wait and listen hear their own. -/
theorem Sound.placesTold_all {h : Hall} (hs : h.Sound) (id : ConnectionId) :
    placesTold (sends h.announceQueue.2) id =
      if id ∈ h.waiting then (h.position? id).toList else [] := by
  by_cases hid : id ∈ h.queue.map Peer.id
  · rcases List.getElem?_of_mem hid with ⟨n, hn⟩
    rcases waitsBehind_iff.1 hn with ⟨p, hp, rfl⟩
    rw [hs.placesTold_announceQueue hp, WaitsBehind.position?_eq hn hs]
    simp only [hs.mem_waiting_iff hp, Option.toList_some]
  · rw [if_neg fun hmem => hid (mem_queue_of_waiting hmem)]
    exact placesTold_places_of_notMem hid 0

/-- Without a newcomer all places are told in a step, or none. -/
theorem Retold.placesTold_eq {h h' : Hall} {e : Event} {effects : List Effect}
    (hretold : Retold h e h' effects) (id : ConnectionId) :
    placesTold effects id =
      if h.Announces e h' then placesTold (sends h'.announceQueue.2) id else [] := by
  cases hretold with
  | unchanged hqueue hquiet hsilent =>
      rw [if_neg hsilent]
      exact placesTold_eq_nil_iff.2 (hquiet id)
  | @announced h' effects hs hle hquiet hannounces =>
      have hoccasion : h.Announces e h'.announceQueue.1 := hannounces
      rw [if_pos hoccasion, placesTold_append, placesTold_eq_nil_iff.2 (hquiet id)]
      rfl
  | hungUp i he =>
      have hlength : (h.hangUp i).queue.length = h.queue.length := List.length_map _
      subst he
      rw [if_neg]
      · rfl
      · rw [announces_iff_of_ne Event.noConfusion, hlength]
        exact lt_irrefl _
  | emptied hqueue hquiet =>
      -- there is nobody whom a place could be told
      have hnobody : placesTold (sends h'.announceQueue.2) id = [] := by
        rw [announceQueue, hqueue]
        rfl
      rw [hnobody, ite_self]
      exact placesTold_eq_nil_iff.2 (hquiet id)
  | pruned he hprunes hquiet =>
      subst he
      rw [if_neg]
      · exact placesTold_eq_nil_iff.2 (hquiet id)
      · rw [announces_review_iff, h.length_waiting]
        have hlong := hprunes.2
        omega

/-- A newcomer that gets no seat lines up at the end, and is told its place. -/
theorem Connected.lines_up {h h' : Hall} {id : ConnectionId} {mail : Mail}
    (hconnected : Connected h id h' mail) :
    h'.queue = h.queue ∧ (∀ i, placesTold (sends mail) i = []) ∨
      h'.queue = h.queue ++ [Peer.new id] ∧ ∀ i, placesTold (sends mail) i =
        if id = i then [UInt64.ofNat (h.queue.length + 1)] else [] := by
  cases hconnected with
  | seated hgrown hl hseat =>
      refine Or.inl ⟨hgrown.queue_eq, fun i => placesTold_eq_nil_iff.2 ?_⟩
      exact told_sends_of_kinds (Lobby.ofKinds_seat hseat) (by decide) i
  | queued hgrown =>
      refine Or.inr ⟨by rw [queue_enqueue, hgrown.queue_eq], fun i => ?_⟩
      rw [enqueue, placesTold_queued, hgrown.queue_eq]
      simp [Peer.new]

/-- A newcomer is the only one that is handed a place when it connects. -/
theorem Sound.handedBy_connect {h : Hall} (hs : h.Sound) (i id : ConnectionId) :
    h.handedBy (.command (.connect i)) id =
      if i = id then ((h.connect i).1.position? id).toList else [] := by
  have hstep : (h.step (.command (.connect i))).1 = (h.connect i).1 := rfl
  have hsilent : ¬ h.Announces (.command (.connect i)) (h.connect i).1 := by
    rw [announces_iff_of_ne Event.noConfusion, not_lt]
    rcases (Connected.of_connect hs i).lines_up with ⟨hqueue, -⟩ | ⟨hqueue, -⟩
    · rw [hqueue]
    · simp [hqueue]
  simp only [handedBy, hstep, hsilent, or_false, Event.command.injEq, Command.connect.injEq]

/-- When somebody connects it hears the place that it is handed, if it has to wait, and nobody else
hears of any. -/
theorem Sound.placesTold_connect {h : Hall} (hs : h.Sound) {i : ConnectionId}
    (hs' : (h.connect i).1.Sound) (hnew : ¬ h.Holds i) (id : ConnectionId) :
    placesTold (sends (h.connect i).2) id =
      if id ∈ (h.connect i).1.waiting then h.handedBy (.command (.connect i)) id else [] := by
  rw [hs.handedBy_connect]
  by_cases heq : i = id
  · subst heq
    rw [if_pos rfl]
    rcases (Connected.of_connect hs i).lines_up with ⟨hqueue, hquiet⟩ | ⟨hqueue, hplace⟩
    · -- the newcomer has a seat, and no place in the queue
      have hout : i ∉ (h.connect i).1.queue.map Peer.id := by
        rw [hqueue]
        exact fun hmem => hnew (Or.inr hmem)
      rw [hquiet, position?_eq_none hout, Option.toList_none, ite_self]
    · have hwaits : (h.connect i).1.WaitsBehind i h.queue.length := by
        simp [WaitsBehind, hqueue, Peer.new]
      have hlistens : i ∈ (h.connect i).1.waiting := by simp [waiting, hqueue, Peer.new]
      rw [hplace, if_pos rfl, if_pos hlistens, hwaits.position?_eq hs', Option.toList_some]
  · rw [if_neg heq, ite_self]
    rcases (Connected.of_connect hs i).lines_up with ⟨-, hquiet⟩ | ⟨-, hplace⟩
    · exact hquiet id
    · rw [hplace, if_neg heq]

/-- Whoever waits and listens hears the place that it is handed, and nobody else hears of any. -/
theorem placesTold_step {h : Hall} (hs : h.Sound) {e : Event}
    (hnew : ∀ id, e = .command (.connect id) → ¬ h.Holds id) (id : ConnectionId) :
    placesTold (h.step e).2 id = if id ∈ (h.step e).1.waiting then h.handedBy e id else [] := by
  have hs' := hs.moves (step_moves hs hnew)
  by_cases he : ∃ i, e = .command (.connect i)
  · rcases he with ⟨i, rfl⟩
    exact hs.placesTold_connect hs' (hnew i rfl) id
  · have hold : ∀ i, e ≠ .command (.connect i) := fun i heq => he ⟨i, heq⟩
    rw [(Retold.of_step hs hold).placesTold_eq, hs'.placesTold_all, handedBy]
    simp only [hold, false_or]
    split <;> simp

/-! ## One step -/

/-- Without a newcomer a move lets the queue only lose peers. -/
theorem Move.queue_sublist {e : Event} {h h' : Hall} {effects : List Effect}
    (hmove : Move e h effects h') (he : ∀ id, e ≠ .command (.connect id)) :
    (h'.queue.map Peer.id).Sublist (h.queue.map Peer.id) := by
  cases hmove with
  | queuedUp he' => exact absurd he' (he _)
  | @promoted p rest n l l' player mail hqueue =>
      rw [hqueue]
      exact List.sublist_cons_self p.id (rest.map Peer.id)
  | dropped hqueue => exact (removed_sublist hqueue).map Peer.id
  | withdrawn he' hqueue => exact (removed_sublist hqueue).map Peer.id
  | shut => exact List.nil_sublist _
  | hungUp => rw [map_id_queue_hangUp]
  | _ => exact List.Sublist.refl _

/-- Without a newcomer the queue only loses peers. -/
theorem Moves.queue_sublist {e : Event} {h h' : Hall} {effects : List Effect}
    (hmoves : Moves e h effects h') (he : ∀ id, e ≠ .command (.connect id)) :
    (h'.queue.map Peer.id).Sublist (h.queue.map Peer.id) := by
  induction hmoves with
  | refl => exact List.Sublist.refl _
  | step hmove _ ih => exact ih.trans (hmove.queue_sublist he)

/-- In a step nobody falls back.  Only whoever has just lined up did not wait before, and it
listens. -/
theorem waitsBehind_step {h : Hall} (hs : h.Sound) {e : Event}
    (hnew : ∀ id, e = .command (.connect id) → ¬ h.Holds id) {id : ConnectionId} {n : Nat}
    (hwaits : (h.step e).1.WaitsBehind id n) :
    (∃ m, n ≤ m ∧ h.WaitsBehind id m) ∨
      e = .command (.connect id) ∧ id ∈ (h.step e).1.waiting := by
  by_cases he : ∃ i, e = .command (.connect i)
  · rcases he with ⟨i, rfl⟩
    change (h.connect i).1.WaitsBehind id n at hwaits
    rcases (Connected.of_connect hs i).lines_up with ⟨hqueue, -⟩ | ⟨hqueue, -⟩
    · rw [WaitsBehind, hqueue] at hwaits
      exact Or.inl ⟨n, le_rfl, hwaits⟩
    · rw [WaitsBehind, hqueue, List.map_append] at hwaits
      by_cases hn : n < (h.queue.map Peer.id).length
      · rw [List.getElem?_append_left hn] at hwaits
        exact Or.inl ⟨n, le_rfl, hwaits⟩
      · rw [List.getElem?_append_right (not_lt.1 hn)] at hwaits
        obtain rfl : id = i := List.mem_singleton.1 (List.mem_of_getElem? hwaits)
        refine Or.inr ⟨rfl, ?_⟩
        change id ∈ (h.connect id).1.waiting
        simp [waiting, hqueue, Peer.new]
  · have hold : ∀ i, e ≠ .command (.connect i) := fun i heq => he ⟨i, heq⟩
    exact Or.inl (hwaits.of_sublist ((step_moves hs hnew).queue_sublist hold))

/-- What a step does to the place of a connection, and to a log of its places. -/
structure Shifted (h : Hall) (e : Event) (id : ConnectionId) (h' : Hall) (places : List UInt64) :
    Prop where
  /-- If there is a new place on the log, then one, and it is where the connection stands. -/
  at_place : places = [] ∨ ∃ n, places = [UInt64.ofNat (n + 1)] ∧ h'.WaitsBehind id n
  /-- If the connection waits, then it did so before and has not fallen back, or it has just
  lined up and its place is on the log. -/
  down : ∀ n, h'.WaitsBehind id n →
    (∃ m, n ≤ m ∧ h.WaitsBehind id m) ∨
      e = .command (.connect id) ∧ places = [UInt64.ofNat (n + 1)]

/-- The places that are handed out keep up with the queue. -/
theorem shifted_handed {h : Hall} (hs : h.Sound) {e : Event}
    (hnew : ∀ id, e = .command (.connect id) → ¬ h.Holds id) (id : ConnectionId) :
    Shifted h e id (h.step e).1 (h.handedBy e id) := by
  have hs' := hs.moves (step_moves hs hnew)
  constructor
  · unfold handedBy
    split
    · cases hposition : (h.step e).1.position? id with
      | none => exact Or.inl rfl
      | some position =>
          rcases exists_waitsBehind hposition with ⟨n, rfl, hwaits⟩
          exact Or.inr ⟨n, rfl, hwaits⟩
    · exact Or.inl rfl
  · intro n hwaits
    rcases waitsBehind_step hs hnew hwaits with hold | ⟨he, -⟩
    · exact Or.inl hold
    · refine Or.inr ⟨he, ?_⟩
      rw [handedBy, if_pos (Or.inl he), hwaits.position?_eq hs', Option.toList_some]

/-- So do the places that are heard. -/
theorem shifted_told {h : Hall} (hs : h.Sound) {e : Event}
    (hnew : ∀ id, e = .command (.connect id) → ¬ h.Holds id) (id : ConnectionId) :
    Shifted h e id (h.step e).1 (placesTold (h.step e).2 id) := by
  have hhanded := shifted_handed hs hnew id
  rw [placesTold_step hs hnew]
  split
  · exact hhanded
  · next hdeaf =>
      refine ⟨Or.inl rfl, fun n hwaits => ?_⟩
      rcases waitsBehind_step hs hnew hwaits with hold | ⟨-, hlistens⟩
      · exact Or.inl hold
      · exact absurd hlistens hdeaf

/-! ## Logs of places -/

/-- The number of a place in the queue fits a machine word if the length of the queue does. -/
theorem WaitsBehind.toNat_place {h : Hall} {id : ConnectionId} {n : Nat}
    (hwaits : h.WaitsBehind id n) (hroom : h.queue.length < 2 ^ 64) :
    (UInt64.ofNat (n + 1)).toNat = n + 1 := by
  have hlt := hwaits.lt_length
  exact UInt64.toNat_ofNat_of_lt' (by simp only [UInt64.size]; omega)

/-- Were the places on the log of a connection never too good, and did they never get larger? -/
structure Honest (h : Hall) (id : ConnectionId) (log : List UInt64) : Prop where
  descending : log.Pairwise fun k k' => k' ≤ k
  le_last : ∀ n, h.WaitsBehind id n →
    ∃ position, log.getLast? = some position ∧ n + 1 ≤ position.toNat

/-- Of places that never get larger the last one is the least. -/
theorem le_of_descending {places : List UInt64} (hdescending : places.Pairwise fun k k' => k' ≤ k)
    {last : UInt64} (hlast : places.getLast? = some last) {k : UInt64} (hk : k ∈ places) :
    last ≤ k := by
  rcases List.getLast?_eq_some_iff.1 hlast with ⟨earlier, rfl⟩
  rcases List.mem_append.1 hk with hold | hnew
  · exact (List.pairwise_append.1 hdescending).2.2 k hold last (List.mem_singleton_self last)
  · rw [List.mem_singleton.1 hnew]
    exact UInt64.le_refl last

/-- A step keeps a connection at the last place of its log or before it. -/
theorem Honest.step {h h' : Hall} {e : Event} {id : ConnectionId} {log places : List UInt64}
    (hh : h.Honest id log) (hs : h'.Sound) (hroom : h'.queue.length < 2 ^ 64)
    (hnew : e = .command (.connect id) → log = [])
    (hshifted : Shifted h e id h' places) : h'.Honest id (log ++ places) := by
  constructor
  · rcases hshifted.at_place with hquiet | ⟨n, hplace, hwaits⟩
    · rw [hquiet, List.append_nil]
      exact hh.descending
    · rw [hplace]
      refine List.pairwise_append.2 ⟨hh.descending, List.pairwise_singleton .., ?_⟩
      intro k hk k' hk'
      rw [List.mem_singleton.1 hk', UInt64.le_iff_toNat_le, hwaits.toNat_place hroom]
      rcases hshifted.down n hwaits with ⟨m, hle, hm⟩ | ⟨he, -⟩
      · -- it stood at this place or behind it, and no better one was on the log
        rcases hh.le_last m hm with ⟨position, hlast, hposition⟩
        have hleast := UInt64.le_iff_toNat_le.1 (le_of_descending hh.descending hlast hk)
        omega
      · rw [hnew he] at hk
        cases hk
  · intro n hwaits
    have hnow : places = [UInt64.ofNat (n + 1)] →
        ∃ position, (log ++ places).getLast? = some position ∧ n + 1 ≤ position.toNat := by
      rintro rfl
      exact ⟨_, List.getLast?_concat, (hwaits.toNat_place hroom).ge⟩
    rcases hshifted.down n hwaits with ⟨m, hle, hm⟩ | ⟨-, hplace⟩
    · rcases hshifted.at_place with rfl | ⟨k, hplace, hk⟩
      · rcases hh.le_last m hm with ⟨position, hlast, hposition⟩
        exact ⟨position, by rwa [List.append_nil], by omega⟩
      · rw [hs.waitsBehind_unique hk hwaits] at hplace
        exact hnow hplace
    · exact hnow hplace

/-! ## Runs -/

section Runs

variable (s : Settings) (d : Draws)

/-- As a run goes on nobody falls back. -/
theorem waitsBehind_le {es later : List Event} (hfresh : (arrivals later).Nodup)
    (hpre : es <+: later) {id : ConnectionId} {n m : Nat}
    (hn : ((Hall.new s d).run es).1.WaitsBehind id n)
    (hm : ((Hall.new s d).run later).1.WaitsBehind id m) : m ≤ n := by
  induction later using List.reverseRecOn generalizing m with
  | nil =>
      cases hm
  | append_singleton later e ih =>
      rcases List.prefix_concat_iff.1 hpre with rfl | hpre'
      · exact ((sound_run s d hfresh).waitsBehind_unique hm hn).le
      · have hbefore := nodup_arrivals_of_concat hfresh
        rw [run_concat] at hm
        rcases waitsBehind_step (sound_run s d hbefore)
          (fun _ he => not_holds_of_connect hfresh he) hm with ⟨k, hle, hk⟩ | ⟨rfl, -⟩
        · exact hle.trans (ih hbefore hpre' hk)
        · -- whoever has waited cannot connect once more
          have harrived := mem_arrivals_of_holds
            (nodup_arrivals_of_isPrefix hpre' hbefore) hn.holds
          exact absurd ((hpre'.sublist.filterMap _).subset harrived)
            (notMem_arrivals_of_concat hfresh)

/-- Does a log keep up with the places of the connections, step by step? -/
structure Logs (log : List Event → ConnectionId → List UInt64) : Prop where
  nil : ∀ id, log [] id = []
  concat : ∀ es e, (arrivals (es ++ [e])).Nodup → ∀ id, ∃ places,
    log (es ++ [e]) id = log es id ++ places ∧
      Shifted ((Hall.new s d).run es).1 e id ((Hall.new s d).run (es ++ [e])).1 places

theorem logs_handed : Logs s d (Hall.new s d).handed where
  nil _ := rfl
  concat es e hfresh id := by
    refine ⟨_, handed_concat _ es e id, ?_⟩
    rw [run_concat]
    exact shifted_handed (sound_run s d (nodup_arrivals_of_concat hfresh))
      (fun _ he => not_holds_of_connect hfresh he) id

theorem logs_told : Logs s d fun es => placesTold ((Hall.new s d).run es).2 where
  nil _ := rfl
  concat es e hfresh id := by
    rw [run_concat]
    refine ⟨_, placesTold_append _ _ id, ?_⟩
    exact shifted_told (sound_run s d (nodup_arrivals_of_concat hfresh))
      (fun _ he => not_holds_of_connect hfresh he) id

variable {s d} {log : List Event → ConnectionId → List UInt64}

/-- There is no place on the log of a connection before it has connected. -/
theorem Logs.eq_nil (hlog : Logs s d log) {es : List Event} (hfresh : (arrivals es).Nodup)
    {id : ConnectionId} (hnew : id ∉ arrivals es) : log es id = [] := by
  induction es using List.reverseRecOn with
  | nil => exact hlog.nil id
  | append_singleton es e ih =>
      have hbefore := nodup_arrivals_of_concat hfresh
      rcases hlog.concat es e hfresh id with ⟨places, hplaces, hshifted⟩
      rcases hshifted.at_place with rfl | ⟨n, -, hwaits⟩
      · rw [arrivals_append, List.mem_append, not_or] at hnew
        rw [hplaces, ih hbefore hnew.1, List.append_nil]
      · exact absurd (mem_arrivals_of_holds hfresh hwaits.holds) hnew

/-- In a run no place is too good, and no place gets larger. -/
theorem Logs.honest (hlog : Logs s d log) {es : List Event} (hfresh : (arrivals es).Nodup)
    (hroom : ∀ before, before <+: es → ((Hall.new s d).run before).1.queue.length < 2 ^ 64)
    (id : ConnectionId) : ((Hall.new s d).run es).1.Honest id (log es id) := by
  induction es using List.reverseRecOn with
  | nil =>
      rw [hlog.nil]
      exact ⟨List.Pairwise.nil, fun n hwaits => by cases hwaits⟩
  | append_singleton es e ih =>
      have hpre := List.prefix_append es [e]
      have hbefore := nodup_arrivals_of_concat hfresh
      have hhonest := ih hbefore fun before h => hroom before (h.trans hpre)
      rcases hlog.concat es e hfresh id with ⟨places, hplaces, hshifted⟩
      rw [hplaces]
      refine hhonest.step (sound_run s d hfresh) (hroom _ (List.prefix_refl _)) ?_ hshifted
      rintro rfl
      exact hlog.eq_nil hbefore (notMem_arrivals_of_concat hfresh)

end Runs

/-- Does a log of places descend along a run?  Whenever all places are told they are on the logs of
those in the queue whom this reaches. -/
structure Descends (h : Hall) (es : List Event) (log : List Event → ConnectionId → List UInt64)
    (reaches : Peer → Prop) : Prop where
  /-- In the beginning no place is on the log. -/
  starts : ∀ id, log [] id = []
  /-- Whatever place a step adds is the one where the connection then stands. -/
  at_place : ∀ before e id, before ++ [e] <+: es → log (before ++ [e]) id = log before id ∨
    ∃ position n, log (before ++ [e]) id = log before id ++ [position] ∧
      position.toNat = n + 1 ∧ (h.run (before ++ [e])).1.WaitsBehind id n
  /-- The places on a log never get larger. -/
  descending : ∀ id, (log es id).Pairwise fun k k' => k' ≤ k
  /-- Whoever waits has a place on its log, and stands at the last one or before it. -/
  le_last : ∀ before id n, before <+: es → (h.run before).1.WaitsBehind id n →
    ∃ position, (log before id).getLast? = some position ∧ n + 1 ≤ position.toNat
  /-- After a disconnect that makes the queue shorter, the last place is where it stands. -/
  exact_of_disconnect : ∀ before id, before ++ [.command (.disconnect id)] <+: es →
    (h.run (before ++ [.command (.disconnect id)])).1.queue.length <
      (h.run before).1.queue.length →
    ∀ n p, (h.run (before ++ [.command (.disconnect id)])).1.queue[n]? = some p → reaches p →
      ∃ position, (log (before ++ [.command (.disconnect id)]) p.id).getLast? = some position ∧
        position.toNat = n + 1
  /-- So it is after a review that leaves a short queue. -/
  exact_of_review : ∀ before, before ++ [.review] <+: es →
    (h.run (before ++ [.review])).1.queue.length < longQueue →
    ∀ n p, (h.run (before ++ [.review])).1.queue[n]? = some p → reaches p →
      ∃ position, (log (before ++ [.review]) p.id).getLast? = some position ∧
        position.toNat = n + 1

/-- A log that keeps up with the places descends, as far as it reaches those in the queue whenever
all places are told. -/
theorem Logs.descends {s : Settings} {d : Draws} {log : List Event → ConnectionId → List UInt64}
    (hlog : Logs s d log) {es : List Event} (hfresh : (arrivals es).Nodup)
    (hroom : ∀ before, before <+: es → ((Hall.new s d).run before).1.queue.length < 2 ^ 64)
    {reaches : Peer → Prop}
    (hreaches : ∀ before e n p, before ++ [e] <+: es →
      ((Hall.new s d).run before).1.Announces e ((Hall.new s d).run (before ++ [e])).1 →
      ((Hall.new s d).run (before ++ [e])).1.queue[n]? = some p → reaches p →
      (log (before ++ [e]) p.id).getLast? = some (UInt64.ofNat (n + 1))) :
    Descends (Hall.new s d) es log reaches := by
  have hfresh' := fun before (hpre : before <+: es) => nodup_arrivals_of_isPrefix hpre hfresh
  have hexact : ∀ before e, before ++ [e] <+: es →
      ((Hall.new s d).run before).1.Announces e ((Hall.new s d).run (before ++ [e])).1 →
      ∀ n p, ((Hall.new s d).run (before ++ [e])).1.queue[n]? = some p → reaches p →
        ∃ position, (log (before ++ [e]) p.id).getLast? = some position ∧
          position.toNat = n + 1 := by
    intro before e hpre hannounces n p hp hreach
    have hwaits := waitsBehind_iff.2 ⟨p, hp, rfl⟩
    exact ⟨_, hreaches before e n p hpre hannounces hp hreach, hwaits.toNat_place (hroom _ hpre)⟩
  have hhonest := fun before (hpre : before <+: es) =>
    hlog.honest (hfresh' before hpre) fun before' hpre' => hroom before' (hpre'.trans hpre)
  refine
    { starts := hlog.nil
      at_place := fun before e id hpre => ?_
      descending := fun id => (hhonest es (List.prefix_refl _) id).descending
      le_last := fun before id n hpre hwaits => (hhonest before hpre id).le_last n hwaits
      exact_of_disconnect := fun before id hpre hshorter => hexact before _ hpre ?_
      exact_of_review := fun before hpre hshort => hexact before _ hpre ?_ }
  · rcases hlog.concat before e (hfresh' _ hpre) id with ⟨places, hplaces, hshifted⟩
    rcases hshifted.at_place with rfl | ⟨n, rfl, hwaits⟩
    · exact Or.inl (hplaces.trans (List.append_nil _))
    · exact Or.inr ⟨_, n, hplaces, hwaits.toNat_place (hroom _ hpre), hwaits⟩
  · exact (announces_iff_of_ne Event.noConfusion).2 hshorter
  · exact announces_review_iff.2 (Or.inl hshort)

/-- What the connections of a run are handed and told about their places in the queue. -/
structure PlacesDescend (h : Hall) (es : List Event) : Prop where
  /-- Nobody falls back. -/
  down : ∀ before later id n m, before <+: later → later <+: es →
    (h.run before).1.WaitsBehind id n → (h.run later).1.WaitsBehind id m → m ≤ n
  /-- What is sent to those who wait and listen is what they are handed, and nobody else is sent
  a place. -/
  told_eq : ∀ before e id, before ++ [e] <+: es → placesTold ((h.run before).1.step e).2 id =
    if id ∈ (h.run (before ++ [e])).1.waiting then (h.run before).1.handedBy e id else []
  /-- The places that are handed out descend, for everybody in the queue. -/
  handed : Descends h es h.handed fun _ => True
  /-- So do those that are heard, which reach everybody who listens. -/
  told : Descends h es (fun before => placesTold (h.run before).2) fun p => p.listening = true

/-- In a run in which no connection is made twice nobody falls back in the queue, and nobody is
handed too good a place: every place is the one where the connection stands, the places never get
larger, and as long as the connection waits it stands at the last one or before it.  After every
disconnect that takes somebody out of the queue, and after every review that leaves a short one, it
stands at the last one.  All that is true as well of the places that are heard, by those who listen.
The length of the queue has to fit into a machine word, as places do. -/
theorem placesDescend_run (s : Settings) (d : Draws) (es : List Event)
    (hfresh : (arrivals es).Nodup)
    (hroom : ∀ before, before <+: es → ((Hall.new s d).run before).1.queue.length < 2 ^ 64) :
    PlacesDescend (Hall.new s d) es := by
  have hfresh' := fun before (hpre : before <+: es) => nodup_arrivals_of_isPrefix hpre hfresh
  have htold : ∀ before e id, before ++ [e] <+: es →
      placesTold (((Hall.new s d).run before).1.step e).2 id =
        if id ∈ ((Hall.new s d).run (before ++ [e])).1.waiting then
          ((Hall.new s d).run before).1.handedBy e id
        else [] := by
    intro before e id hpre
    have hnext := hfresh' _ hpre
    rw [run_concat]
    exact placesTold_step (sound_run s d (nodup_arrivals_of_concat hnext))
      (fun _ he => not_holds_of_connect hnext he) id
  have hhanded : ∀ before e n p, before ++ [e] <+: es →
      ((Hall.new s d).run before).1.Announces e ((Hall.new s d).run (before ++ [e])).1 →
      ((Hall.new s d).run (before ++ [e])).1.queue[n]? = some p →
      ((Hall.new s d).run before).1.handedBy e p.id = [UInt64.ofNat (n + 1)] := by
    intro before e n p hpre hannounces hp
    have hs := sound_run s d (hfresh' _ hpre)
    have hwaits := waitsBehind_iff.2 ⟨p, hp, rfl⟩
    rw [run_concat] at hs hwaits hannounces
    rw [handedBy, if_pos (Or.inr hannounces), hwaits.position?_eq hs, Option.toList_some]
  refine
    { down := fun before later id n m hpre hpre' =>
        waitsBehind_le s d (hfresh' later hpre') hpre
      told_eq := htold
      handed := (logs_handed s d).descends hfresh hroom fun before e n p hpre hannounces hp _ => ?_
      told := (logs_told s d).descends hfresh hroom
        fun before e n p hpre hannounces hp hlistening => ?_ }
  · rw [handed_concat, hhanded before e n p hpre hannounces hp, List.getLast?_concat]
  · have hlistens := ((sound_run s d (hfresh' _ hpre)).mem_waiting_iff hp).2 hlistening
    have hnow := htold before e p.id hpre
    rw [if_pos hlistens, hhanded before e n p hpre hannounces hp] at hnow
    rw [run_concat, placesTold_append, hnow, List.getLast?_concat]

/-- Two connections are seated and three queue up.  The second one in the queue hangs up, the first
one gets the seat that becomes free, and a review lets the second one go. -/
def shrinkingQueue : List Event :=
  [.command (.connect ⟨1⟩), .command (.connect ⟨2⟩), .command (.connect ⟨3⟩),
    .command (.connect ⟨4⟩), .command (.connect ⟨5⟩), .hangUp ⟨4⟩, .command (.disconnect ⟨1⟩),
    .review]

/-- There the last one in the queue moves up twice, and hears of it.  The one that has hung up is
handed its new place, but does not hear of it. -/
theorem placesDescend_shrinkingQueue :
    let s := { Settings.default with maxLobbies := 1 }
    let h := Hall.new s []
    s.check = .ok () ∧ (arrivals shrinkingQueue).Nodup ∧
      (∀ before, before <+: shrinkingQueue → (h.run before).1.queue.length < 2 ^ 64) ∧
      placesTold (h.run shrinkingQueue).2 ⟨5⟩ = [3, 2, 1] ∧
      h.handed shrinkingQueue ⟨4⟩ = [2, 1] ∧ placesTold (h.run shrinkingQueue).2 ⟨4⟩ = [2] ∧
      PlacesDescend h shrinkingQueue := by
  intro s h
  have hfresh : (arrivals shrinkingQueue).Nodup := by decide
  have hroom : ∀ before, before <+: shrinkingQueue →
      ((Hall.new s []).run before).1.queue.length < 2 ^ 64 :=
    fun before hpre => length_queue_lt s [] hfresh (by decide) hpre
  exact ⟨rfl, hfresh, hroom, by decide +kernel, by decide +kernel, by decide +kernel,
    placesDescend_run s [] _ hfresh hroom⟩

end Hall

end FourInRow
