import FourInRow.Proofs.Hall.Step

/-!
# Whom a hall holds

A connection is handed from the queue to a seat, and the index is kept beside both.  This module
shows that no connection is lost or held twice on the way: after every run a hall holds the
connections that have been made, without those that have been disconnected since and those that
were let go from the queue because nobody listened any more.

Main results:

- Theorem `step_holds_iff`: whom a hall holds after a step.
- Theorem `listening_queue_iff`: a waiting peer listens until its connection hangs up.
- Theorem `accounts_run`: seats, queue and index agree on the connections of a run.
-/

namespace FourInRow

namespace Hall

/-! ## Who is let go -/

theorem release_notMem_sends (id : ConnectionId) (mail : Mail) : .release id ∉ sends mail := by
  simp [sends]

/-- Nobody is let go and held all the same. -/
theorem Move.not_released {e : Event} {h h' : Hall} {effects : List Effect} (hs : h.Sound)
    (hmove : Move e h effects h') {id : ConnectionId} (hid : h'.Holds id) :
    .release id ∉ effects := by
  cases hmove with
  | opened => simp
  | forgotten => simp
  | hungUp => simp
  | dropped hqueue hdead =>
      have hne := ((hs.holds_removed hqueue id).1 hid).1
      simp [hne]
  | withdrawn he hqueue =>
      have hne := ((hs.holds_removed hqueue id).1 hid).1
      simp [hne]
  | @left i n l l' p mail he hl hleft =>
      have hne := ((hs.holds_left hl hleft id).1 hid).1
      simp [hne, release_notMem_sends]
  | shut => exact absurd hid (not_holds_shutDown h id)
  | _ => exact release_notMem_sends id _

/-- Whoever is held stays held unless it is let go. -/
theorem Move.holds_of_not_released {e : Event} {h h' : Hall} {effects : List Effect}
    (hs : h.Sound) (hmove : Move e h effects h') (hopen : e ≠ .command .shutDown)
    {id : ConnectionId} (hid : h.Holds id) (hkept : .release id ∉ effects) : h'.Holds id := by
  cases hmove with
  | welcomed => exact (holds_seated h _ _ _ id).2 (Or.inr hid)
  | queuedUp => exact (holds_enqueue h _ id).2 (Or.inr hid)
  | promoted hqueue => exact (holds_promoted hqueue _ _ id).2 hid
  | dropped hqueue =>
      exact (hs.holds_removed hqueue id).2 ⟨fun heq => hkept (by simp [heq]), hid⟩
  | withdrawn he hqueue =>
      exact (hs.holds_removed hqueue id).2 ⟨fun heq => hkept (by simp [heq]), hid⟩
  | left he hl hleft =>
      exact (hs.holds_left hl hleft id).2 ⟨fun heq => hkept (by simp [heq]), hid⟩
  | shut he => exact absurd he hopen
  | hungUp => exact (holds_hangUp h _ id).2 hid
  | _ => exact hid

theorem Moves.not_released {e : Event} {h h' : Hall} {effects : List Effect} (hs : h.Sound)
    (hmoves : Moves e h effects h') {id : ConnectionId} (hid : h'.Holds id)
    (hold : e ≠ .command (.connect id)) : .release id ∉ effects := by
  induction hmoves with
  | refl => simp
  | step hmove hrest ih =>
      rw [List.mem_append, not_or]
      have hs' := hs.move hmove
      exact ⟨hmove.not_released hs ((hrest.holds hs' hid).resolve_right hold), ih hs' hid⟩

theorem Moves.holds_of_not_released {e : Event} {h h' : Hall} {effects : List Effect}
    (hs : h.Sound) (hmoves : Moves e h effects h') (hopen : e ≠ .command .shutDown)
    {id : ConnectionId} (hid : h.Holds id) (hkept : .release id ∉ effects) : h'.Holds id := by
  induction hmoves with
  | refl => exact hid
  | step hmove _ ih =>
      rw [List.mem_append, not_or] at hkept
      exact ih (hs.move hmove) (hmove.holds_of_not_released hs hopen hid hkept.1) hkept.2

/-- After a step a hall holds the newcomer, and whomever it held before and has not let go. -/
theorem step_holds_iff {h : Hall} (hs : h.Sound) {e : Event}
    (hnew : ∀ id, e = .command (.connect id) → ¬ h.Holds id)
    (hopen : e ≠ .command .shutDown) (id : ConnectionId) :
    (h.step e).1.Holds id ↔
      e = .command (.connect id) ∨ h.Holds id ∧ .release id ∉ (h.step e).2 := by
  have hmoves := step_moves hs hnew
  constructor
  · intro hid
    by_cases he : e = .command (.connect id)
    · exact Or.inl he
    · exact Or.inr ⟨(hmoves.holds hs hid).resolve_right he, hmoves.not_released hs hid he⟩
  · rintro (rfl | ⟨hid, hkept⟩)
    · exact (Connected.of_connect hs id).holds
    · exact hmoves.holds_of_not_released hs hopen hid hkept

/-! ## Why somebody is let go -/

/-- Nobody enters the queue but newcomers. -/
theorem Move.mem_queue {e : Event} {h h' : Hall} {effects : List Effect}
    (hmove : Move e h effects h') (he : ∀ id, e ≠ .hangUp id) {p : Peer} (hp : p ∈ h'.queue) :
    p ∈ h.queue ∨ e = .command (.connect p.id) ∧ p.listening = true := by
  cases hmove with
  | queuedUp he' hnew =>
      rcases List.mem_append.1 hp with hold | hlast
      · exact Or.inl hold
      · cases List.mem_singleton.1 hlast
        exact Or.inr ⟨he', rfl⟩
  | @promoted p' rest n l l' player mail hqueue hlistening hl hseat =>
      rw [hqueue]
      exact Or.inl (List.mem_cons_of_mem p' hp)
  | dropped hqueue => exact Or.inl ((removed_sublist hqueue).subset hp)
  | withdrawn he' hqueue => exact Or.inl ((removed_sublist hqueue).subset hp)
  | shut => cases hp
  | hungUp he' => exact absurd he' (he _)
  | _ => exact Or.inl hp

theorem Moves.mem_queue {e : Event} {h h' : Hall} {effects : List Effect}
    (hmoves : Moves e h effects h') (he : ∀ id, e ≠ .hangUp id) {p : Peer} (hp : p ∈ h'.queue) :
    p ∈ h.queue ∨ e = .command (.connect p.id) ∧ p.listening = true := by
  induction hmoves with
  | refl => exact Or.inl hp
  | step hmove _ ih =>
      rcases ih hp with hp' | hnew
      · exact hmove.mem_queue he hp'
      · exact Or.inr hnew

/-- A connection is let go by its own wish, or out of the queue when nobody listens. -/
theorem Moves.released {e : Event} {h h' : Hall} {effects : List Effect}
    (hmoves : Moves e h effects h') (he : ∀ id, e ≠ .hangUp id)
    (hopen : e ≠ .command .shutDown) {id : ConnectionId} (hid : .release id ∈ effects) :
    e = .command (.disconnect id) ∨ ∃ p ∈ h.queue, p.id = id ∧ p.listening = false := by
  induction hmoves with
  | refl => cases hid
  | @step h h' h'' effects effects' hmove hrest ih =>
      rcases List.mem_append.1 hid with hfirst | hrest
      · cases hmove with
        | opened => cases hfirst
        | forgotten => cases hfirst
        | hungUp => cases hfirst
        | @dropped before after p hqueue hdead =>
            cases List.mem_singleton.1 hfirst
            exact Or.inr ⟨p, by rw [hqueue]; simp, rfl, hdead⟩
        | withdrawn he' =>
            cases List.mem_singleton.1 hfirst
            exact Or.inl he'
        | @left i n l l' p mail he' hl hleft =>
            rcases List.mem_append.1 hfirst with hmail | hlast
            · exact absurd hmail (release_notMem_sends id mail)
            · cases List.mem_singleton.1 hlast
              exact Or.inl he'
        | shut he' => exact absurd he' hopen
        | _ => exact absurd hfirst (release_notMem_sends id _)
      · rcases ih hrest with hleft | ⟨p, hp, hpid, hdead⟩
        · exact Or.inl hleft
        · rcases hmove.mem_queue he hp with hp' | ⟨-, hlistening⟩
          · exact Or.inr ⟨p, hp', hpid, hdead⟩
          · rw [hlistening] at hdead
            cases hdead

/-- A step lets go of a connection by its own wish, or out of the queue when nobody listens. -/
theorem step_released {h : Hall} (hs : h.Sound) {e : Event}
    (hnew : ∀ id, e = .command (.connect id) → ¬ h.Holds id)
    (hopen : e ≠ .command .shutDown) {id : ConnectionId}
    (hid : .release id ∈ (h.step e).2) :
    e = .command (.disconnect id) ∨ ∃ p ∈ h.queue, p.id = id ∧ p.listening = false := by
  by_cases he : ∃ i, e = .hangUp i
  · rcases he with ⟨i, rfl⟩
    cases hid
  · exact (step_moves hs hnew).released (fun i hi => he ⟨i, hi⟩) hopen hid

/-- Whoever disconnects is let go. -/
theorem Disconnected.release_mem {h h' : Hall} {id : ConnectionId} {effects : List Effect}
    (hdisconnected : Disconnected h id h' effects) (hid : h.Holds id) :
    .release id ∈ effects := by
  cases hdisconnected with
  | stranger hstranger => exact absurd hid hstranger
  | left => simp
  | withdrawn => exact List.mem_cons_self

/-! ## Before and after -/

/-- Did an event happen in a run, and another one after it? -/
def InOrder (e e' : Event) (es : List Event) : Prop := [e, e'].Sublist es

theorem InOrder.mem_left {e e' : Event} {es : List Event} (h : InOrder e e' es) : e ∈ es :=
  h.subset List.mem_cons_self

theorem inOrder_concat {e e' : Event} {es : List Event} {last : Event} :
    InOrder e e' (es ++ [last]) ↔ InOrder e e' es ∨ e ∈ es ∧ last = e' := by
  constructor
  · intro h
    rcases List.sublist_append_iff.1 h with ⟨first, rest, hsplit, hfirst, hrest⟩
    rcases List.sublist_singleton.1 hrest with rfl | rfl
    · rw [List.append_nil] at hsplit
      subst hsplit
      exact Or.inl hfirst
    · have hsplit : [e] ++ [e'] = first ++ [last] := hsplit
      rcases List.append_inj' hsplit rfl with ⟨rfl, hlast⟩
      exact Or.inr ⟨hfirst.subset List.mem_cons_self, by simpa using hlast.symm⟩
  · rintro (h | ⟨hmem, rfl⟩)
    · exact h.trans (List.sublist_append_left es [last])
    · exact (List.singleton_sublist.2 hmem).append (List.Sublist.refl [last])

/-- Before a connection is made nothing can have happened after it. -/
theorem not_inOrder_of_new {es : List Event} {id : ConnectionId} (hnew : id ∉ arrivals es)
    (e : Event) : ¬ InOrder (.command (.connect id)) e es :=
  fun h => hnew (mem_arrivals.2 h.mem_left)

/-- A waiting peer listens until its connection hangs up. -/
theorem listening_queue_iff (s : Settings) (d : Draws) {es : List Event}
    (hfresh : (arrivals es).Nodup) {p : Peer} (hp : p ∈ ((Hall.new s d).run es).1.queue) :
    p.listening = false ↔ InOrder (.command (.connect p.id)) (.hangUp p.id) es := by
  induction es using List.reverseRecOn generalizing p with
  | nil => cases hp
  | append_singleton es e ih =>
      have hbefore := nodup_arrivals_of_concat hfresh
      have hmoves := run_moves s d hfresh
      rw [run_concat] at hp
      rw [inOrder_concat]
      by_cases he : ∃ i, e = .hangUp i
      · rcases he with ⟨i, rfl⟩
        rcases List.mem_map.1 hp with ⟨q, hq, rfl⟩
        have harrived : Event.command (.connect q.id) ∈ es :=
          mem_arrivals.1 (mem_arrivals_of_holds hbefore (Or.inr (List.mem_map_of_mem hq)))
        by_cases hqi : q.id = i
        · subst hqi
          simp [Peer.hangUp, harrived]
        · rw [if_neg hqi, ih hbefore hq]
          simp [Ne.symm hqi]
      · rcases hmoves.mem_queue (fun i hi => he ⟨i, hi⟩) hp with hold | ⟨rfl, hlistening⟩
        · rw [ih hbefore hold]
          have hne : e ≠ .hangUp p.id := fun heq => he ⟨p.id, heq⟩
          simp [hne]
        · have hnew := notMem_arrivals_of_concat hfresh
          simp [hlistening, not_inOrder_of_new hnew]

/-! ## The account of a run -/

/-- Was a connection let go from the queue, some time in a run, after it had hung up? -/
def Dropped (h : Hall) (es : List Event) (id : ConnectionId) : Prop :=
  ∃ before e, before ++ [e] <+: es ∧ e ≠ .command (.disconnect id) ∧
    InOrder (.command (.connect id)) (.hangUp id) before ∧
    id ∈ (h.run before).1.queue.map Peer.id ∧ .release id ∈ ((h.run before).1.step e).2

theorem dropped_concat {h : Hall} {es : List Event} {e : Event} {id : ConnectionId} :
    Dropped h (es ++ [e]) id ↔ Dropped h es id ∨
      e ≠ .command (.disconnect id) ∧ InOrder (.command (.connect id)) (.hangUp id) es ∧
        id ∈ (h.run es).1.queue.map Peer.id ∧ .release id ∈ ((h.run es).1.step e).2 := by
  constructor
  · rintro ⟨before, e', hpre, hdropped⟩
    rcases List.prefix_concat_iff.1 hpre with heq | hpre
    · rcases List.append_inj' heq rfl with ⟨rfl, hlast⟩
      cases hlast
      exact Or.inr hdropped
    · exact Or.inl ⟨before, e', hpre, hdropped⟩
  · rintro (⟨before, e', hpre, hdropped⟩ | hdropped)
    · exact ⟨before, e', hpre.trans (List.prefix_append es [e]), hdropped⟩
    · exact ⟨es, e, List.prefix_refl _, hdropped⟩

theorem Dropped.mem_arrivals {h : Hall} {es : List Event} {id : ConnectionId}
    (hdropped : Dropped h es id) : id ∈ arrivals es := by
  rcases hdropped with ⟨before, e, hpre, -, horder, -⟩
  have hmem : Event.command (.connect id) ∈ before ++ [e] := List.mem_append_left _ horder.mem_left
  exact Hall.mem_arrivals.2 (hpre.subset hmem)

/-- Whoever is held is let go by a step exactly if it disconnects or is dropped. -/
theorem release_mem_step_iff {s : Settings} {d : Draws} {es : List Event} {e : Event}
    (hfresh : (arrivals (es ++ [e])).Nodup) (hopen : e ≠ .command .shutDown)
    {id : ConnectionId} (hid : ((Hall.new s d).run es).1.Holds id) :
    .release id ∈ (((Hall.new s d).run es).1.step e).2 ↔
      e = .command (.disconnect id) ∨ e ≠ .command (.disconnect id) ∧
        InOrder (.command (.connect id)) (.hangUp id) es ∧
        id ∈ ((Hall.new s d).run es).1.queue.map Peer.id ∧
        .release id ∈ (((Hall.new s d).run es).1.step e).2 := by
  have hbefore := nodup_arrivals_of_concat hfresh
  have hs := sound_run s d hbefore
  constructor
  · intro hrelease
    by_cases he : e = .command (.disconnect id)
    · exact Or.inl he
    · obtain ⟨p, hp, rfl, hdead⟩ := (step_released hs
        (fun i hi => not_holds_of_connect hfresh hi) hopen hrelease).resolve_left he
      exact Or.inr ⟨he, (listening_queue_iff s d hbefore hp).1 hdead,
        List.mem_map_of_mem hp, hrelease⟩
  · rintro (rfl | ⟨-, -, -, hrelease⟩)
    · exact (Disconnected.of_disconnect hs id).release_mem hid
    · exact hrelease

/-- A hall holds the connections that have been made and neither disconnected since nor dropped. -/
theorem holds_run_iff (s : Settings) (d : Draws) {es : List Event} (hfresh : (arrivals es).Nodup)
    (hopen : .command .shutDown ∉ es) (id : ConnectionId) :
    ((Hall.new s d).run es).1.Holds id ↔ id ∈ arrivals es ∧
      ¬ InOrder (.command (.connect id)) (.command (.disconnect id)) es ∧
      ¬ Dropped (Hall.new s d) es id := by
  induction es using List.reverseRecOn with
  | nil =>
      have hnobody : ¬ ((Hall.new s d).run []).1.Holds id := not_holds_new s d id
      simp [hnobody, arrivals]
  | append_singleton es e ih =>
      have hbefore := nodup_arrivals_of_concat hfresh
      have hopen' : e ≠ .command .shutDown := by
        rintro rfl
        exact hopen (by simp)
      have ih := ih hbefore fun hmem => hopen (List.mem_append_left _ hmem)
      have hstep := step_holds_iff (sound_run s d hbefore)
        (fun i hi => not_holds_of_connect hfresh hi) hopen' id
      rw [run_concat, hstep, inOrder_concat, dropped_concat]
      by_cases he : e = .command (.connect id)
      · -- whoever has just come has neither left nor been dropped
        subst he
        have hnew := notMem_arrivals_of_concat hfresh
        have hmem : id ∈ arrivals (es ++ [.command (.connect id)]) := mem_arrivals.2 (by simp)
        have hdropped : ¬ Dropped (Hall.new s d) es id := fun h => hnew h.mem_arrivals
        simp [hmem, not_inOrder_of_new hnew, hdropped]
      · have harrivals : id ∈ arrivals (es ++ [e]) ↔ id ∈ arrivals es := by
          simp [mem_arrivals, Ne.symm he]
        by_cases hid : ((Hall.new s d).run es).1.Holds id
        · rcases ih.1 hid with ⟨harrived, hstays, hkept⟩
          have hmem := mem_arrivals.1 harrived
          have hrelease := release_mem_step_iff hfresh hopen' hid
          simp only [he, false_or, hid, true_and, harrivals, harrived, hstays, hkept, hmem]
          exact (not_congr hrelease).trans not_or
        · have hgone : ¬ (id ∈ arrivals es ∧
              ¬ InOrder (.command (.connect id)) (.command (.disconnect id)) es ∧
              ¬ Dropped (Hall.new s d) es id) := fun h => hid (ih.2 h)
          rw [harrivals]
          refine iff_of_false ?_ ?_
          · rintro (hconnect | ⟨hholds, -⟩)
            · exact he hconnect
            · exact hid hholds
          · rintro ⟨harrived, hstays, hkept⟩
            exact hgone ⟨harrived, fun h => hstays (Or.inl h), fun h => hkept (Or.inl h)⟩

/-- What seats, queue and index of a hall say about the connections of a run. -/
structure Accounts (h : Hall) (es : List Event) : Prop where
  /-- No connection is held twice. -/
  nodup : ((h.run es).1.held.map Peer.id).Nodup
  /-- The index tells exactly who sits in which lobby. -/
  index_iff : ∀ id n, (h.run es).1.index.find? id = some n ↔
    ∃ (l : Lobby) (i : Nat) (p : Peer), (h.run es).1.lobbies[n]? = some l ∧
      l.seats[i]? = some (some p) ∧ p.id = id
  /-- The lobbies are numbered in order. -/
  number_eq : ∀ (n : Nat) (l : Lobby), (h.run es).1.lobbies[n]? = some l → l.number = n
  /-- Whoever waits has neither a number nor said ready. -/
  queue_plain : ∀ p ∈ (h.run es).1.queue, p.player = nobody ∧ p.ready = false
  /-- Whoever sits bears the number of its seat. -/
  player_eq : ∀ (n : Nat) (l : Lobby) (i : Nat) (p : Peer), (h.run es).1.lobbies[n]? = some l →
    l.seats[i]? = some (some p) → p.player.toNat = i + 1
  /-- Those are held that have connected and neither disconnected since nor been dropped. -/
  held_iff : ∀ id, id ∈ (h.run es).1.held.map Peer.id ↔ id ∈ arrivals es ∧
    ¬ InOrder (.command (.connect id)) (.command (.disconnect id)) es ∧ ¬ Dropped h es id

/-- In every run in which no connection is made twice, until it is shut, a hall holds exactly the
connections that have been made, without those that have been disconnected since and those that
have been dropped from the queue; each of them once; and seats, queue and index agree on where
they are. -/
theorem accounts_run (s : Settings) (d : Draws) (es : List Event) (hfresh : (arrivals es).Nodup)
    (hopen : .command .shutDown ∉ es) : Accounts (Hall.new s d) es := by
  have hs := sound_run s d hfresh
  constructor
  · exact hs.nodup_held
  · intro id n
    rw [hs.index_iff]
    constructor
    · rintro ⟨l, hl, hid⟩
      rcases List.mem_map.1 hid with ⟨p, hp, rfl⟩
      rcases Lobby.exists_seat_of_mem hp with ⟨i, hi⟩
      exact ⟨l, i, p, hl, hi, rfl⟩
    · rintro ⟨l, i, p, hl, hi, rfl⟩
      exact ⟨l, hl, List.mem_map_of_mem (Lobby.mem_of_seat hi)⟩
  · exact fun n l hl => (hs.lodges n l hl).number_eq
  · exact hs.queue_plain
  · intro n l i p hl hi
    have hlodges := hs.lodges n l hl
    exact hlodges.numbered.toNat_player hlodges.sound hi
  · intro id
    rw [hs.mem_held_iff, holds_run_iff s d hfresh hopen]

/-- Two connections find seats, a third one waits, hangs up, and is dropped when a seat becomes
free. -/
theorem accounts_of_dropped :
    let es : List Event :=
      [.command (.connect ⟨1⟩), .command (.connect ⟨2⟩), .command (.connect ⟨3⟩), .hangUp ⟨3⟩,
        .command (.disconnect ⟨1⟩)]
    let h := Hall.new { Settings.default with maxLobbies := 1 } []
    (arrivals es).Nodup ∧ .command .shutDown ∉ es ∧
      (h.run es).1.held.map Peer.id = [⟨2⟩] ∧ Accounts h es :=
  ⟨by decide, by decide, by decide +kernel, accounts_run _ _ _ (by decide) (by decide)⟩

end Hall

end FourInRow
