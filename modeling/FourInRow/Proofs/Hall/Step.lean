import FourInRow.Proofs.Hall.Move

/-!
# Steps and runs of a hall

Whatever a hall does about an event is made up of the moves of `Hall.Move`.  So a property that
every move keeps holds after every run in which no connection is made twice.

Main results:

- Theorems `Connected.of_connect`, `Disconnected.of_disconnect`, `Readied.of_ready` and
  `Turned.of_turn`: what the commands come to.
- Theorem `step_moves`: a step of a sound hall is a sequence of moves.
- Theorem `sound_run`: a hall is sound after every run.
- Theorem `mem_arrivals_of_holds`: whoever is held has connected.
-/

namespace FourInRow

namespace Hall

/-! ## Seating and filling up -/

/-- Somebody is seated exactly if the lobby exists and gives a seat. -/
theorem place_eq_some_iff {h h' : Hall} {n : Nat} {p : Peer} {mail : Mail} :
    h.place n p = some (h', mail) ↔ ∃ l player l',
      h.lobbies[n]? = some l ∧ l.seat p = some (player, l', mail) ∧
        h' = { h.setLobby n l' with index := h.index.insert p.id n } := by
  unfold place
  cases hl : h.lobbies[n]? with
  | none => simp
  | some l =>
      simp only [Option.some.injEq, exists_and_left, exists_eq_left']
      cases hseat : l.seat p with
      | none => simp
      | some r =>
          rcases r with ⟨player, l', mail'⟩
          simp only [Option.some.injEq, Prod.mk.injEq]
          constructor
          · rintro ⟨rfl, rfl⟩
            exact ⟨player, l', ⟨rfl, rfl, rfl⟩, rfl⟩
          · rintro ⟨player', k, ⟨rfl, rfl, rfl⟩, rfl⟩
            exact ⟨rfl, rfl⟩

/-- Whoever is given a seat out of the queue is promoted. -/
theorem seatFrom_moves (e : Event) (n : Nat) (queue : List Peer) (h : Hall) :
    Moves e { h with queue := queue } (seatFrom n h queue).2.2
      { (seatFrom n h queue).1 with queue := (seatFrom n h queue).2.1 } := by
  induction queue generalizing h with
  | nil => exact .refl _
  | cons p rest ih =>
      unfold seatFrom
      by_cases hfree : h.hasFreeSeat n = true
      · by_cases hlistening : p.listening = true
        · rw [if_pos hfree, if_pos hlistening]
          cases hplace : h.place n p with
          | none => exact .refl _
          | some r =>
              rcases r with ⟨h', mail⟩
              rcases place_eq_some_iff.1 hplace with ⟨l, player, l', hl, hseat, rfl⟩
              have hpromote : Move e { h with queue := p :: rest } (sends mail)
                  { h.setLobby n l' with index := h.index.insert p.id n, queue := rest } :=
                .promoted rfl hlistening hl hseat
              exact .step hpromote (ih { h.setLobby n l' with index := h.index.insert p.id n })
        · rw [if_pos hfree, if_neg hlistening]
          have hdrop : Move e { h with queue := p :: rest } [.release p.id]
              { h with queue := [] ++ rest } :=
            .dropped rfl (Bool.eq_false_iff.2 hlistening)
          exact .step hdrop (ih h)
      · rw [if_neg hfree]
        exact .refl _

theorem backfill_moves (e : Event) (h : Hall) (n : Nat) :
    Moves e h (h.backfill n).2 (h.backfill n).1 := by
  have hseat := seatFrom_moves e n h.queue h
  unfold backfill
  by_cases hsame : (seatFrom n h h.queue).2.1.length = h.queue.length
  · simp only [hsame, if_true]
    exact hseat
  · simp only [hsame, if_false]
    exact hseat.trans (Move.moves .announced)

/-- Peers that have stopped listening are dropped one after another. -/
theorem prune_moves (e : Event) (queue kept : List Peer) (h : Hall) :
    Moves e { h with queue := kept ++ queue }
      ((queue.filter fun p => !p.listening).map fun p => .release p.id)
      { h with queue := kept ++ queue.filter fun p => p.listening } := by
  induction queue generalizing kept with
  | nil => exact .refl _
  | cons p queue ih =>
      by_cases hlistening : p.listening = true
      · have := ih (kept ++ [p])
        simpa [hlistening] using this
      · have hdead := Bool.eq_false_iff.2 hlistening
        have hdrop : Move e { h with queue := kept ++ p :: queue } [.release p.id]
            { h with queue := kept ++ queue } := .dropped rfl hdead
        simpa [hdead] using Moves.step hdrop (ih kept)

theorem reviewQueue_moves (e : Event) (h : Hall) :
    Moves e h h.reviewQueue.2 h.reviewQueue.1 := by
  have hprune := prune_moves e h.queue [] h
  simp only [List.nil_append] at hprune
  simp only [reviewQueue]
  split
  · next hempty =>
      have hforget : Move e { h with queue := h.queue.filter fun p => p.listening } []
          { h with queue := h.queue.filter fun p => p.listening, announced := 0 } :=
        .forgotten (List.length_eq_zero_iff.1 hempty)
      simpa using hprune.trans hforget.moves
  · split
    · exact hprune.trans (Move.moves .announced)
    · exact hprune

/-! ## Events -/

/-- A lobby with a free seat seats a newcomer. -/
theorem exists_place {h : Hall} (hs : h.Sound) {n : Nat} {l : Lobby}
    (hl : h.lobbies[n]? = some l) (hfree : l.hasFreeSeat = true) (p : Peer) :
    ∃ h' mail, h.place n p = some (h', mail) := by
  rcases (hs.lodges n l hl).sound.exists_seat hfree p with ⟨player, l', mail, hseat⟩
  exact ⟨_, mail, place_eq_some_iff.2 ⟨l, player, l', hl, hseat, rfl⟩⟩

/-- A lobby that is opened is fresh. -/
theorem openLobby_eq_some_iff {h h' : Hall} {n : Nat} :
    h.openLobby = some (h', n) ↔ h.lobbies.length < h.settings.maxLobbies.toNat ∧
      n = h.lobbies.length ∧
        h' = { h with lobbies := h.lobbies ++ [freshLobby h.settings h.lobbies.length] } := by
  unfold openLobby
  by_cases hroom : h.lobbies.length < h.settings.maxLobbies.toNat
  · simp only [hroom, if_true, Option.some.injEq, Prod.mk.injEq, true_and]
    constructor
    · rintro ⟨rfl, rfl⟩
      exact ⟨rfl, rfl⟩
    · rintro ⟨rfl, rfl⟩
      exact ⟨rfl, rfl⟩
  · simp [hroom]

/-- The first lobby with a free seat exists and has one. -/
theorem getElem?_of_findIdx?_hasFreeSeat {ls : List Lobby} {n : Nat}
    (h : ls.findIdx? Lobby.hasFreeSeat = some n) :
    ∃ l, ls[n]? = some l ∧ l.hasFreeSeat = true := by
  rcases List.findIdx?_eq_some_iff_getElem.1 h with ⟨hn, hfree, -⟩
  exact ⟨ls[n], List.getElem?_eq_getElem hn, hfree⟩

/-- The halls from which a newcomer may be admitted: the hall itself, or with one lobby more. -/
inductive Grown (h : Hall) : Hall → Prop
  | same : Grown h h
  | opened (hroom : h.lobbies.length < h.settings.maxLobbies.toNat) :
      Grown h { h with lobbies := h.lobbies ++ [freshLobby h.settings h.lobbies.length] }

/-- The outcomes of connecting. -/
inductive Connected (h : Hall) (id : ConnectionId) : Hall → Mail → Prop
  /-- The newcomer gets a seat. -/
  | seated {h' : Hall} {n : Nat} {l l' : Lobby} {player : Player} {mail : Mail}
      (hgrown : Grown h h') (hl : h'.lobbies[n]? = some l)
      (hseat : l.seat (Peer.new id) = some (player, l', mail)) :
      Connected h id { h'.setLobby n l' with index := h'.index.insert id n } mail
  /-- The newcomer is put at the end of the queue. -/
  | queued {h' : Hall} (hgrown : Grown h h') :
      Connected h id (h'.enqueue (Peer.new id)).1 (h'.enqueue (Peer.new id)).2

/-- Connecting comes to one of the outcomes of `Connected`. -/
theorem Connected.of_connect {h : Hall} (hs : h.Sound) (id : ConnectionId) :
    Connected h id (h.connect id).1 (h.connect id).2 := by
  unfold connect
  cases hfind : h.lobbies.findIdx? Lobby.hasFreeSeat with
  | some n =>
      rcases getElem?_of_findIdx?_hasFreeSeat hfind with ⟨l, hl, hfree⟩
      rcases exists_place hs hl hfree (Peer.new id) with ⟨h', mail, hplace⟩
      rcases place_eq_some_iff.1 hplace with ⟨l, player, l', hl, hseat, rfl⟩
      simp only [hplace]
      exact .seated .same hl hseat
  | none =>
      simp only
      cases hopen : h.openLobby with
      | none =>
          simp only
          exact .queued .same
      | some r =>
          rcases r with ⟨h', n⟩
          rcases openLobby_eq_some_iff.1 hopen with ⟨hroom, -, rfl⟩
          simp only
          -- where the fresh lobby has no seats at all the newcomer has to queue up
          cases hplace : place _ n (Peer.new id) with
          | none =>
              simp only
              exact .queued (.opened hroom)
          | some r =>
              rcases r with ⟨h'', mail⟩
              rcases place_eq_some_iff.1 hplace with ⟨l, player, l', hl, hseat, rfl⟩
              exact .seated (.opened hroom) hl hseat

theorem Grown.moves {h h' : Hall} (hgrown : Grown h h') (e : Event) : Moves e h [] h' := by
  cases hgrown with
  | same => exact .refl h
  | opened hroom => exact Move.moves (.opened hroom)

/-- A new lobby holds nobody. -/
theorem Grown.holds_iff {h h' : Hall} (hgrown : Grown h h') (id : ConnectionId) :
    h'.Holds id ↔ h.Holds id := by
  cases hgrown with
  | same => exact Iff.rfl
  | opened => exact Iff.rfl

theorem Connected.moves {h h' : Hall} {id : ConnectionId} {mail : Mail}
    (hconnected : Connected h id h' mail) (hnew : ¬ h.Holds id) :
    Moves (.command (.connect id)) h (sends mail) h' := by
  cases hconnected with
  | seated hgrown hl hseat =>
      rw [← hgrown.holds_iff] at hnew
      simpa using (hgrown.moves _).trans (Move.moves (.welcomed rfl hnew hl hseat))
  | queued hgrown =>
      rw [← hgrown.holds_iff] at hnew
      simpa using (hgrown.moves _).trans (Move.moves (.queuedUp rfl hnew))

/-- Whoever connects is held. -/
theorem Connected.holds {h h' : Hall} {id : ConnectionId} {mail : Mail}
    (hconnected : Connected h id h' mail) : h'.Holds id := by
  cases hconnected with
  | seated => exact (holds_seated _ _ _ id id).2 (Or.inl rfl)
  | queued => exact (holds_enqueue _ _ id).2 (Or.inl rfl)

/-- The outcomes of disconnecting. -/
inductive Disconnected (h : Hall) (id : ConnectionId) : Hall → List Effect → Prop
  /-- The hall does not hold the connection. -/
  | stranger (hid : ¬ h.Holds id) : Disconnected h id h []
  /-- A seat is left, and given to the queue. -/
  | left {n : Nat} {l l' : Lobby} {p : Peer} {mail : Mail} (hl : h.lobbies[n]? = some l)
      (hleft : Lobby.Left l id p l' mail) :
      Disconnected h id ({ h.setLobby n l' with index := h.index.remove id }.backfill n).1
        (sends mail ++ [.release id] ++
          ({ h.setLobby n l' with index := h.index.remove id }.backfill n).2)
  /-- A place in the queue is left, and the others hear of it. -/
  | withdrawn {before after : List Peer} {p : Peer} (hid : p.id = id)
      (hqueue : h.queue = before ++ p :: after) :
      Disconnected h id { h with queue := before ++ after }.announceQueue.1
        (.release id :: sends { h with queue := before ++ after }.announceQueue.2)

/-- Disconnecting comes to one of the outcomes of `Disconnected`. -/
theorem Disconnected.of_disconnect {h : Hall} (hs : h.Sound) (id : ConnectionId) :
    Disconnected h id (h.disconnect id).1 (h.disconnect id).2 := by
  unfold disconnect
  cases hfind : h.index.find? id with
  | some n =>
      rcases (hs.index_iff id n).1 hfind with ⟨l, hl, hmem⟩
      rcases Lobby.exists_leave hmem with ⟨p, l', mail, hleave⟩
      have hbind : (h.lobbies[n]?.bind fun l => l.leave id) = some (p, l', mail) := by
        rw [hl]
        exact hleave
      have hleft := Disconnected.left hl (Lobby.Left.of_leave hleave)
      rw [List.append_assoc, List.singleton_append] at hleft
      simp only [hbind]
      exact hleft
  | none =>
      cases hqueue : h.queue.find? fun p => p.id = id with
      | none =>
          refine .stranger ?_
          rintro (⟨n, hn⟩ | hmem)
          · rw [hfind] at hn
            cases hn
          · rcases List.mem_map.1 hmem with ⟨p, hp, heq⟩
            have := List.find?_eq_none.1 hqueue p hp
            simp [heq] at this
      | some p =>
          have hmem := List.mem_of_find?_eq_some hqueue
          have hid : decide (p.id = id) = true :=
            List.find?_some (p := fun q : Peer => decide (q.id = id)) hqueue
          obtain ⟨q, before, after, -, hq, hsplit, herase⟩ :=
            List.exists_of_eraseP (p := fun q : Peer => decide (q.id = id)) hmem hid
          simp only [herase]
          exact .withdrawn (of_decide_eq_true hq) hsplit

theorem Disconnected.moves {h h' : Hall} {id : ConnectionId} {effects : List Effect}
    (hdisconnected : Disconnected h id h' effects) :
    Moves (.command (.disconnect id)) h effects h' := by
  cases hdisconnected with
  | stranger => exact .refl h
  | left hl hleft => exact .step (.left rfl hl hleft) (backfill_moves _ _ _)
  | withdrawn hid hqueue =>
      subst hid
      exact Moves.step (.withdrawn rfl hqueue) (Move.moves .announced)

/-- The outcomes of saying ready. -/
inductive Readied (h : Hall) (id : ConnectionId) : Hall → Mail → Prop
  /-- The connection has no seat. -/
  | unseated : Readied h id h []
  /-- The connection has a seat in a lobby. -/
  | seated {n : Nat} {l l' : Lobby} {d : Draws} {mail : Mail} (hl : h.lobbies[n]? = some l)
      (hreadied : Lobby.Readied l h.draws id l' d mail) :
      Readied h id { h.setLobby n l' with draws := d } mail

/-- Saying ready comes to one of the outcomes of `Readied`. -/
theorem Readied.of_ready (h : Hall) (id : ConnectionId) :
    Readied h id (h.ready id).1 (h.ready id).2 := by
  unfold ready
  cases h.index.find? id with
  | none => exact .unseated
  | some n =>
      simp only
      cases hl : h.lobbies[n]? with
      | none => exact .unseated
      | some l => exact .seated hl (.of_ready l h.draws id)

theorem Readied.moves {h h' : Hall} {id : ConnectionId} {mail : Mail}
    (hreadied : Readied h id h' mail) : Moves (.command (.ready id)) h (sends mail) h' := by
  cases hreadied with
  | unseated => exact .refl h
  | seated hl hreadied => exact Move.moves (.readied rfl hl hreadied)

/-- The outcomes of taking a turn. -/
inductive Turned (h : Hall) (id : ConnectionId) (column : UInt8) : Hall → List Effect → Prop
  /-- The connection has no seat. -/
  | unseated : Turned h id column h []
  /-- The connection has a seat in a lobby, which is filled up afterwards. -/
  | seated {n : Nat} {l l' : Lobby} {mail : Mail} (hl : h.lobbies[n]? = some l)
      (hturned : Lobby.Turned l id column l' mail) :
      Turned h id column ((h.setLobby n l').backfill n).1
        (sends mail ++ ((h.setLobby n l').backfill n).2)

/-- Taking a turn comes to one of the outcomes of `Turned`. -/
theorem Turned.of_turn {h : Hall} (hs : h.Sound) (id : ConnectionId) (column : UInt8) :
    Turned h id column (h.turn id column).1 (h.turn id column).2 := by
  unfold turn
  cases hfind : h.index.find? id with
  | none => exact .unseated
  | some n =>
      rcases (hs.index_iff id n).1 hfind with ⟨l, hl, -⟩
      simp only [hl]
      exact .seated hl (.of_turn (hs.lodges n l hl).sound id column)

theorem Turned.moves {h h' : Hall} {id : ConnectionId} {column : UInt8} {effects : List Effect}
    (hturned : Turned h id column h' effects) :
    Moves (.command (.turn id column)) h effects h' := by
  cases hturned with
  | unseated => exact .refl h
  | seated hl hturned => exact .step (.turned rfl hl hturned) (backfill_moves _ _ _)

/-- A step of a sound hall is a sequence of moves, as long as a newcomer is really new. -/
theorem step_moves {h : Hall} (hs : h.Sound) {e : Event}
    (hnew : ∀ id, e = .command (.connect id) → ¬ h.Holds id) :
    Moves e h (h.step e).2 (h.step e).1 := by
  cases e with
  | command c =>
      cases c with
      | connect id => exact (Connected.of_connect hs id).moves (hnew id rfl)
      | disconnect id => exact (Disconnected.of_disconnect hs id).moves
      | ready id => exact (Readied.of_ready h id).moves
      | turn id column => exact (Turned.of_turn hs id column).moves
      | shutDown => exact Move.moves (.shut rfl)
  | hangUp id => exact Move.moves (.hungUp rfl)
  | review => exact reviewQueue_moves .review h

/-! ## Runs -/

/-- The connections that are made in a run, in order. -/
def arrivals (es : List Event) : List ConnectionId :=
  es.filterMap fun e =>
    match e with
    | .command (.connect id) => some id
    | _ => none

theorem mem_arrivals {es : List Event} {id : ConnectionId} :
    id ∈ arrivals es ↔ Event.command (.connect id) ∈ es := by
  rw [arrivals, List.mem_filterMap]
  constructor
  · rintro ⟨e, he, hid⟩
    split at hid
    · cases hid
      exact he
    · cases hid
  · intro he
    exact ⟨_, he, rfl⟩

theorem arrivals_append (es es' : List Event) :
    arrivals (es ++ es') = arrivals es ++ arrivals es' :=
  List.filterMap_append

theorem nodup_arrivals_of_isPrefix {es es' : List Event} (hpre : es <+: es')
    (hfresh : (arrivals es').Nodup) : (arrivals es).Nodup :=
  hfresh.sublist (hpre.sublist.filterMap _)

theorem nodup_arrivals_of_concat {es : List Event} {e : Event}
    (hfresh : (arrivals (es ++ [e])).Nodup) : (arrivals es).Nodup :=
  nodup_arrivals_of_isPrefix (List.prefix_append es [e]) hfresh

/-- The connection that is made by the last event was not made before. -/
theorem notMem_arrivals_of_concat {es : List Event} {id : ConnectionId}
    (hfresh : (arrivals (es ++ [.command (.connect id)])).Nodup) : id ∉ arrivals es := by
  rw [arrivals_append, List.nodup_append] at hfresh
  exact fun hid => hfresh.2.2 id hid id (mem_arrivals.2 (by simp)) rfl

/-- The last event of a run comes upon the hall that the others leave behind. -/
theorem run_concat (h : Hall) (es : List Event) (e : Event) :
    h.run (es ++ [e]) =
      (((h.run es).1.step e).1, (h.run es).2 ++ ((h.run es).1.step e).2) := by
  rw [run_append]
  simp [run]

/-- Somebody is held after a move only if it was before, or is the newcomer. -/
theorem Move.holds {e : Event} {h h' : Hall} {effects : List Effect} (hs : h.Sound)
    (hmove : Move e h effects h') {id : ConnectionId} (hid : h'.Holds id) :
    h.Holds id ∨ e = .command (.connect id) := by
  cases hmove with
  | welcomed he =>
      rcases (holds_seated h _ _ _ id).1 hid with rfl | hold
      · exact Or.inr he
      · exact Or.inl hold
  | queuedUp he =>
      rcases (holds_enqueue h _ id).1 hid with rfl | hold
      · exact Or.inr he
      · exact Or.inl hold
  | promoted hqueue => exact Or.inl ((holds_promoted hqueue _ _ id).1 hid)
  | dropped hqueue => exact Or.inl ((hs.holds_removed hqueue id).1 hid).2
  | withdrawn he hqueue => exact Or.inl ((hs.holds_removed hqueue id).1 hid).2
  | left he hl hleft => exact Or.inl ((hs.holds_left hl hleft id).1 hid).2
  | shut => exact absurd hid (not_holds_shutDown h id)
  | hungUp => exact Or.inl ((holds_hangUp h _ id).1 hid)
  | _ => exact Or.inl hid

theorem Moves.holds {e : Event} {h h' : Hall} {effects : List Effect} (hs : h.Sound)
    (hmoves : Moves e h effects h') {id : ConnectionId} (hid : h'.Holds id) :
    h.Holds id ∨ e = .command (.connect id) := by
  induction hmoves with
  | refl => exact Or.inl hid
  | step hmove _ ih =>
      rcases ih (hs.move hmove) hid with hid' | he
      · exact hmove.holds hs hid'
      · exact Or.inr he

/-- What is kept of a run in which no connection is made twice: the hall is sound, and whoever it
holds has connected. -/
theorem sound_and_arrived (s : Settings) (d : Draws) {es : List Event}
    (hfresh : (arrivals es).Nodup) :
    ((Hall.new s d).run es).1.Sound ∧
      ∀ id, ((Hall.new s d).run es).1.Holds id → id ∈ arrivals es := by
  induction es using List.reverseRecOn with
  | nil =>
      exact ⟨sound_new s d, fun id hid => absurd hid (not_holds_new s d id)⟩
  | append_singleton es e ih =>
      rcases ih (nodup_arrivals_of_concat hfresh) with ⟨hs, harrived⟩
      have hmoves := step_moves hs (e := e) (by
        rintro id rfl hid
        exact notMem_arrivals_of_concat hfresh (harrived id hid))
      rw [run_concat]
      refine ⟨hs.moves hmoves, fun id hid => ?_⟩
      rw [arrivals_append, List.mem_append]
      rcases hmoves.holds hs hid with hid | rfl
      · exact Or.inl (harrived id hid)
      · exact Or.inr (mem_arrivals.2 (by simp))

/-- A hall is sound after every run in which no connection is made twice. -/
theorem sound_run (s : Settings) (d : Draws) {es : List Event} (hfresh : (arrivals es).Nodup) :
    ((Hall.new s d).run es).1.Sound :=
  (sound_and_arrived s d hfresh).1

/-- Whoever is held has connected. -/
theorem mem_arrivals_of_holds {s : Settings} {d : Draws} {es : List Event}
    (hfresh : (arrivals es).Nodup) {id : ConnectionId}
    (hid : ((Hall.new s d).run es).1.Holds id) : id ∈ arrivals es :=
  (sound_and_arrived s d hfresh).2 id hid

/-- The last event of a run in which no connection is made twice brings nobody who is held. -/
theorem not_holds_of_connect {s : Settings} {d : Draws} {es : List Event} {e : Event}
    (hfresh : (arrivals (es ++ [e])).Nodup) {id : ConnectionId}
    (he : e = .command (.connect id)) : ¬ ((Hall.new s d).run es).1.Holds id := by
  subst he
  intro hid
  exact notMem_arrivals_of_concat hfresh
    (mem_arrivals_of_holds (nodup_arrivals_of_concat hfresh) hid)

/-- The last step of a run is a sequence of moves. -/
theorem run_moves (s : Settings) (d : Draws) {es : List Event} {e : Event}
    (hfresh : (arrivals (es ++ [e])).Nodup) :
    Moves e ((Hall.new s d).run es).1 (((Hall.new s d).run es).1.step e).2
      (((Hall.new s d).run es).1.step e).1 :=
  step_moves (sound_run s d (nodup_arrivals_of_concat hfresh)) fun _ he =>
    not_holds_of_connect hfresh he

end Hall

end FourInRow
