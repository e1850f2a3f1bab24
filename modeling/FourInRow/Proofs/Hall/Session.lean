import FourInRow.Proofs.Hall.Advance
import FourInRow.Proofs.Lobby.Session

/-!
# What connections hear of a hall

Wherever a hall holds a connection, in the queue or in a lobby, the connection has come as far with
what it hears as that place says.  Moves keep it so, and so what a connection hears in a whole run
comes in order.

Main results:

- Theorem `Move.finds`: a connection hears of a move what brings it to its new place.
- Theorem `sessions_run`: what any connection hears in a run.
-/

namespace FourInRow

namespace Hall

/-- Does a hall find a connection that has come so far where it belongs? -/
structure Finds (h : Hall) (id : ConnectionId) (s : Session) : Prop where
  waiting : id ∈ h.queue.map Peer.id → s = .waiting
  seated : ∀ l ∈ h.lobbies, ∀ p ∈ l.members, p.id = id → l.InStep p s

/-- Lobbies are not removed. -/
theorem Move.length_lobbies_le {e : Event} {h h' : Hall} {effects : List Effect}
    (hmove : Move e h effects h') : h.lobbies.length ≤ h'.lobbies.length := by
  cases hmove with
  | opened => simp
  | shut =>
      change _ ≤ (closeAll h.lobbies).1.length
      rw [closeAll_lobbies, List.length_map]
  | hungUp => simp [Hall.hangUp]
  | _ => simp [setLobby, Hall.enqueue, announceQueue]

/-- A lobby goes on when a hall makes a move. -/
theorem Move.exists_advanced {e : Event} {h h' : Hall} {effects : List Effect} (hs : h.Sound)
    (hmove : Move e h effects h') {n : Nat} {l : Lobby} (hl : h.lobbies[n]? = some l) :
    ∃ l' mail, h'.lobbies[n]? = some l' ∧ Advanced effects l mail l' := by
  have hn := (List.getElem?_eq_some_iff.1 hl).1
  have hl' := List.getElem?_eq_getElem (hn.trans_le hmove.length_lobbies_le)
  rcases hmove.advanced hs hl' with ⟨k, mail, hk, hadvanced⟩ | ⟨hnone, -⟩
  · rw [hl] at hk
    cases hk
    exact ⟨_, mail, hl', hadvanced⟩
  · rw [hl] at hnone
    cases hnone

/-- Whoever has a seat is found there if its lobby finds it in step. -/
theorem Sound.finds_seated {h : Hall} (hs : h.Sound) {n : Nat} {l : Lobby}
    (hl : h.lobbies[n]? = some l) {p : Peer} (hp : p ∈ l.members) {s : Session}
    (hstep : l.InStep p s) : h.Finds p.id s := by
  have hindex := hs.index_eq hl hp
  refine ⟨fun hqueue => ?_, fun k hk q hq hid => ?_⟩
  · rcases List.mem_map.1 hqueue with ⟨q, hq, hid⟩
    rw [← hid, hs.queue_unseated q hq] at hindex
    cases hindex
  · rcases List.getElem?_of_mem hk with ⟨m, hm⟩
    have hmem := List.mem_map_of_mem (f := Peer.id) hp
    obtain rfl := hs.lobby_unique hl hm hmem (hid ▸ List.mem_map_of_mem hq)
    rw [hl] at hm
    cases hm
    rw [List.inj_on_of_nodup_map (hs.lodges n l hl).sound.nodup hq hp hid]
    exact hstep

/-! ## Connections without a seat -/

/-- What can become of a connection without a seat when a hall makes a move. -/
inductive Unseated (h : Hall) (effects : List Effect) (h' : Hall) (id : ConnectionId) : Prop
  /-- The move is about others. -/
  | untouched (hnone : h'.index.find? id = none) (hnothing : messagesTo effects id = [])
  /-- It waits, and may have been told its place. -/
  | placed (hnone : h'.index.find? id = none) (hqueue : id ∈ h.queue.map Peer.id)
      (hplaces : ∀ m ∈ messagesTo effects id, m.kind = .inQueue)
  /-- It has waited and is given a seat. -/
  | seated {n : Nat} {l : Lobby} {p : Peer} (hqueue : id ∈ h.queue.map Peer.id)
      (hl : h'.lobbies[n]? = some l) (hp : p ∈ l.members) (hid : p.id = id)
      (htold : messagesTo effects id = [.connected p.player])
      (hstep : l.InStep p (.between p.player))

section

variable {h h' : Hall} {effects : List Effect} {id : ConnectionId}

/-- Messages that are all for others leave a connection untouched. -/
theorem Unseated.of_others (hnone : h'.index.find? id = none)
    (hothers : ∀ e ∈ mailOf effects, e.1 ≠ id) : Unseated h effects h' id := by
  refine .untouched hnone ?_
  rw [← messagesTo_mailOf, Mail.messagesTo_eq_nil hothers]

/-- So does a move without messages. -/
theorem Unseated.of_silence (hnone : h'.index.find? id = none) (hmail : mailOf effects = []) :
    Unseated h effects h' id := by
  refine .of_others hnone fun e he => ?_
  rw [hmail] at he
  cases he

/-- So do messages that a lobby sends to its members. -/
theorem Unseated.of_members (hs : h.Sound) (hid : h.index.find? id = none)
    (hnone : h'.index.find? id = none) {n : Nat} {l : Lobby} (hl : h.lobbies[n]? = some l)
    {mail : Mail} (hmail : mailOf effects = mail)
    (hmembers : ∀ e ∈ mail, e.1 ∈ l.members.map Peer.id) : Unseated h effects h' id := by
  refine .of_others hnone fun e he heq => ?_
  rw [hmail] at he
  exact hs.not_mem_members hid hl (heq ▸ hmembers e he)

/-- So does a seat that is given to somebody else. -/
theorem Unseated.of_seat (hid : h.index.find? id = none) {p : Peer} (hother : p.id ≠ id)
    {n : Nat} {l l' : Lobby} {player : Player} {mail : Mail}
    (hseat : l.seat p = some (player, l', mail)) (hindex : h'.index = h.index.insert p.id n) :
    Unseated h (sends mail) h' id := by
  refine .of_others ?_ fun e he => ?_
  · rw [hindex, Index.find?_insert, if_neg (Ne.symm hother), hid]
  · rw [mailOf_sends] at he
    rw [Lobby.recipient_of_seat hseat he]
    exact hother

/-- Whoever is at the front of the queue and given a seat is told its number. -/
theorem Unseated.of_front (hs : h.Sound) {p : Peer} (hp : p ∈ h.queue)
    (hlistening : p.listening = true) {n : Nat} {l l' : Lobby} {player : Player} {mail : Mail}
    (hl : h.lobbies[n]? = some l) (hseat : l.seat p = some (player, l', mail))
    (hl' : h'.lobbies[n]? = some l') : Unseated h (sends mail) h' p.id := by
  rcases Lobby.seat_inStep (hs.lodges n l hl).sound hseat (hs.queue_plain p hp).1 hlistening
    with ⟨q, hq, hqid, htold, hstep⟩
  refine .seated (List.mem_map_of_mem hp) hl' hq hqid ?_ hstep
  rw [messagesTo_sends, htold]

/-- Whoever hears of the places in the queue waits, and hears nothing but its own. -/
theorem Unseated.of_announced (hid : h.index.find? id = none) :
    Unseated h (sends h.announceQueue.2) h.announceQueue.1 id := by
  by_cases hqueue : id ∈ h.queue.map Peer.id
  · refine .placed hid hqueue fun m hm => ?_
    rw [messagesTo_sends] at hm
    exact List.mem_singleton.1 ((ofKinds_announceQueue h).kind_mem hm)
  · refine .of_others hid fun e he heq => ?_
    rw [mailOf_sends] at he
    rcases mem_queue_of_announced he with ⟨p, hp, hpid, -⟩
    exact hqueue (heq ▸ hpid ▸ List.mem_map_of_mem hp)

/-- A connection without a seat is touched by a move only if it waits, or connects. -/
theorem Move.unseated {e : Event} (hs : h.Sound) (hmove : Move e h effects h')
    (hid : h.index.find? id = none) (hother : e ≠ .command (.connect id)) :
    Unseated h effects h' id := by
  cases hmove with
  | opened => exact .of_silence hid rfl
  | @welcomed i n l l' player mail he hnew hl hseat =>
      refine .of_seat (p := Peer.new i) (n := n) hid ?_ hseat rfl
      rintro rfl
      exact hother he
  | @queuedUp i he hnew =>
      refine .of_others hid fun e' he' => ?_
      rw [mailOf_sends] at he'
      rw [Peer.tell_addressed (fun _ => .inQueue _) (Peer.new i) e' he']
      rintro rfl
      exact hother he
  | @promoted p rest n l l' player mail hqueue hlistening hl hseat =>
      by_cases hpid : p.id = id
      · subst hpid
        have hp : p ∈ h.queue := by
          rw [hqueue]
          exact List.mem_cons_self
        exact .of_front hs hp hlistening hl hseat ((getElem?_setLobby hl l' n).trans (if_pos rfl))
      · exact .of_seat (n := n) hid hpid hseat rfl
  | dropped => exact .of_silence hid rfl
  | withdrawn => exact .of_silence hid rfl
  | announced => exact .of_announced hid
  | forgotten => exact .of_silence hid rfl
  | @left i n l l' p mail he hl hleft =>
      have hnone : (h.index.remove i).find? id = none := by
        rw [Index.find?_remove, hid, ite_self]
      have hmail : mailOf (sends mail ++ [.release i]) = mail := by
        rw [mailOf_append, mailOf_sends, mailOf_release, List.append_nil]
      exact .of_members hs hid hnone hl hmail fun _ => hleft.recipient_mem
  | readied he hl hreadied =>
      exact .of_members hs hid hid hl (mailOf_sends _) fun _ => hreadied.recipient_mem
  | turned he hl hturned =>
      exact .of_members hs hid hid hl (mailOf_sends _) fun _ => hturned.recipient_mem
  | shut =>
      refine .of_others rfl fun e' he' heq => ?_
      rw [mailOf_shutDown] at he'
      rcases List.mem_flatMap.1 he' with ⟨l, hl, hmem⟩
      rcases List.getElem?_of_mem hl with ⟨n, hn⟩
      exact hs.not_mem_members hid hn (heq ▸ Lobby.recipient_mem_close hmem)
  | hungUp => exact .of_silence hid rfl

end

/-! ## Connections with a seat -/

/-- A member hears of a move what its lobby says, and keeps its seat or is gone. -/
theorem Move.finds_member {e : Event} {h h' : Hall} {effects : List Effect} (hs : h.Sound)
    (hmove : Move e h effects h') {id : ConnectionId} {n : Nat} (hindex : h.index.find? id = some n)
    {s : Session} (hfinds : h.Finds id s) :
    ∃ s', s.Course (messagesTo effects id) s' ∧ h'.Finds id s' := by
  have hs' := hs.move hmove
  rcases (hs.index_iff id n).1 hindex with ⟨l, hl, hmem⟩
  rcases List.mem_map.1 hmem with ⟨p, hp, rfl⟩
  rcases hmove.exists_advanced hs hl with ⟨l', mail, hl', hadvanced⟩
  have hstep := hfinds.seated l (List.mem_of_getElem? hl) p hp rfl
  rcases hadvanced.advances.session (hs.lodges n l hl).sound hp hstep with
    ⟨s', hcourse, hmembers⟩
  refine ⟨s', ?_, fun hqueue => ?_, fun k hk q hq hid => ?_⟩
  · rw [hadvanced.messagesTo_eq (Or.inl hmem)]
    exact hcourse
  · rcases List.mem_map.1 hqueue with ⟨q, hq, hid⟩
    have hnone := hs'.queue_unseated q hq
    rcases hmove.index_eq hs hindex with hsame | hgone
    · rw [← hid, hnone] at hsame
      cases hsame
    · exact absurd (Or.inr hqueue) hgone
  · rcases List.getElem?_of_mem hk with ⟨m, hm⟩
    have hm' := hs'.index_eq hm hq
    rw [hid] at hm'
    rcases hmove.index_eq hs hindex with hsame | hgone
    · rw [hsame] at hm'
      cases hm'
      rw [hl'] at hm
      cases hm
      exact hmembers q hq hid
    · exact absurd (Or.inl ⟨m, hm'⟩) hgone

/-- A connection hears of a move what brings it to its new place, and nothing if it has none. -/
theorem Move.finds {e : Event} {h h' : Hall} {effects : List Effect} (hs : h.Sound)
    (hmove : Move e h effects h') {id : ConnectionId} (hother : e ≠ .command (.connect id))
    {s : Session} (hfinds : h.Finds id s) :
    ∃ s', s.Course (messagesTo effects id) s' ∧ h'.Finds id s' ∧ (¬ h.Holds id → s' = s) := by
  have hs' := hs.move hmove
  cases hindex : h.index.find? id with
  | some n =>
      rcases hmove.finds_member hs hindex hfinds with ⟨s', hcourse, hfinds'⟩
      exact ⟨s', hcourse, hfinds', fun hout => absurd (Or.inl ⟨n, hindex⟩) hout⟩
  | none =>
      have hwaits : id ∈ h'.queue.map Peer.id → s = .waiting := by
        intro hqueue
        rcases hmove.holds hs (Or.inr hqueue) with (⟨n, hn⟩ | hold) | he
        · rw [hindex] at hn
          cases hn
        · exact hfinds.waiting hold
        · exact absurd he hother
      have hnowhere : h'.index.find? id = none → ∀ l ∈ h'.lobbies, ∀ p ∈ l.members, p.id ≠ id := by
        intro hnone l hl p hp hid
        rcases List.getElem?_of_mem hl with ⟨n, hn⟩
        exact hs'.not_mem_members hnone hn (hid ▸ List.mem_map_of_mem hp)
      cases hmove.unseated hs hindex hother with
      | untouched hnone hnothing =>
          refine ⟨s, ?_, ⟨hwaits, fun l hl p hp hid => ?_⟩, fun _ => rfl⟩
          · rw [hnothing]
            exact .nil s
          · exact absurd hid (hnowhere hnone l hl p hp)
      | placed hnone hqueue hplaces =>
          refine ⟨s, ?_, ⟨hwaits, fun l hl p hp hid => ?_⟩, fun _ => rfl⟩
          · rw [hfinds.waiting hqueue]
            exact Session.course_places hplaces
          · exact absurd hid (hnowhere hnone l hl p hp)
      | seated hqueue hl hp hid htold hstep =>
          rw [hfinds.waiting hqueue, htold, ← hid]
          exact ⟨_, (Session.Hears.greeted _).course, hs'.finds_seated hl hp hstep,
            fun hout => absurd (Or.inr (hid ▸ hqueue)) hout⟩

theorem Moves.finds {e : Event} {h h' : Hall} {effects : List Effect} (hs : h.Sound)
    (hmoves : Moves e h effects h') {id : ConnectionId} (hother : e ≠ .command (.connect id))
    {s : Session} (hfinds : h.Finds id s) :
    ∃ s', s.Course (messagesTo effects id) s' ∧ h'.Finds id s' ∧ (¬ h.Holds id → s' = s) := by
  induction hmoves generalizing s with
  | refl => exact ⟨s, .nil s, hfinds, fun _ => rfl⟩
  | step hmove _ ih =>
      rcases hmove.finds hs hother hfinds with ⟨s₁, hcourse, hfinds₁, hsame₁⟩
      rcases ih (hs.move hmove) hfinds₁ with ⟨s', hcourse', hfinds', hsame'⟩
      rw [messagesTo_append]
      refine ⟨s', hcourse.append hcourse', hfinds', fun hout => ?_⟩
      rw [← hsame₁ hout]
      exact hsame' fun hheld => (hmove.holds hs hheld).elim hout hother

/-- Whoever connects is told its number or its place. -/
theorem Sound.finds_connected {h : Hall} (hs : h.Sound) {id : ConnectionId} (hnew : ¬ h.Holds id) :
    ∃ s, Session.Course .waiting (messagesTo (h.step (.command (.connect id))).2 id) s ∧
      (h.step (.command (.connect id))).1.Finds id s := by
  have hs' : (h.connect id).1.Sound := hs.moves ((Connected.of_connect hs id).moves hnew)
  have hconnected := Connected.of_connect hs id
  change ∃ s, Session.Course .waiting (messagesTo (sends (h.connect id).2) id) s ∧
    (h.connect id).1.Finds id s
  rw [messagesTo_sends]
  generalize (h.connect id).1 = h', (h.connect id).2 = mail at hs' hconnected
  cases hconnected with
  | @seated k n l l' player mail hgrown hl hseat =>
      have hk : k.Sound := hs.moves (hgrown.moves .review)
      rcases Lobby.seat_inStep (hk.lodges n l hl).sound hseat rfl rfl with
        ⟨p, hp, hid, htold, hstep⟩
      have hl' : (k.setLobby n l').lobbies[n]? = some l' :=
        (getElem?_setLobby hl l' n).trans (if_pos rfl)
      refine ⟨_, ?_, hid ▸ hs'.finds_seated hl' hp hstep⟩
      change Session.Course .waiting (mail.messagesTo (Peer.new id).id) _
      rw [htold]
      exact (Session.Hears.greeted _).course
  | @queued k hgrown =>
      refine ⟨.waiting, ?_, fun _ => rfl, fun l hl p hp hid => ?_⟩
      · refine Session.course_places fun m hm => ?_
        exact List.mem_singleton.1 ((ofKinds_enqueue k _).kind_mem hm)
      · rcases List.getElem?_of_mem hl with ⟨n, hn⟩
        have hqueue : Peer.new id ∈ (k.enqueue (Peer.new id)).1.queue :=
          List.mem_append_right _ List.mem_cons_self
        have hout : id ∉ l.members.map Peer.id := hs'.not_mem_members_of_queue hqueue hn
        exact absurd (hid ▸ List.mem_map_of_mem hp) hout

/-- What a connection has heard in a run in which no connection is made twice brings it to where
the hall finds it. -/
theorem finds_run (s : Settings) (d : Draws) {es : List Event} (hfresh : (arrivals es).Nodup)
    (id : ConnectionId) :
    ∃ session, Session.Course .waiting (messagesTo ((Hall.new s d).run es).2 id) session ∧
      ((Hall.new s d).run es).1.Finds id session ∧ (id ∉ arrivals es → session = .waiting) := by
  induction es using List.reverseRecOn with
  | nil =>
      exact ⟨.waiting, .nil _, ⟨fun _ => rfl, fun l hl => by cases hl⟩, fun _ => rfl⟩
  | append_singleton es e ih =>
      have hbefore := nodup_arrivals_of_concat hfresh
      rcases ih hbefore with ⟨session, hcourse, hfinds, hstranger⟩
      have hs := sound_run s d hbefore
      rw [run_concat, messagesTo_append]
      by_cases he : e = .command (.connect id)
      · subst he
        obtain rfl := hstranger (notMem_arrivals_of_concat hfresh)
        rcases hs.finds_connected (not_holds_of_connect hfresh rfl) with
          ⟨session', hcourse', hfinds'⟩
        refine ⟨session', hcourse.append hcourse', hfinds', fun hnot => ?_⟩
        exact absurd (mem_arrivals.2 (by simp)) hnot
      · rcases (run_moves s d hfresh).finds hs he hfinds with
          ⟨session', hcourse', hfinds', hsame⟩
        refine ⟨session', hcourse.append hcourse', hfinds', fun hnot => ?_⟩
        rw [arrivals_append, List.mem_append, not_or] at hnot
        rw [hsame fun hheld => hnot.1 (mem_arrivals_of_holds hbefore hheld)]
        exact hstranger hnot.1

/-- In every run in which no connection is made twice, whatever else happens, what the hall says to
a connection begins a word of the language of sessions: places in the queue, a player number, turns
that are refused, and then matches one after another, each with refused turns after it.  The number
is the one that the connection bears as long as it has a seat, and it has been told so. -/
theorem sessions_run (s : Settings) (d : Draws) (es : List Event) (hfresh : (arrivals es).Nodup)
    (id : ConnectionId) :
    let h := ((Hall.new s d).run es).1
    let heard := messagesTo ((Hall.new s d).run es).2 id
    ∃ player, (∃ word ∈ Session.sessions player, heard <+: word) ∧
      (∀ p, .connected p ∈ heard → p = player) ∧
      (∀ l ∈ h.lobbies, ∀ p ∈ l.members, p.id = id →
        p.player = player ∧ .connected player ∈ heard) ∧
      Session.Regular heard := by
  intro h heard
  rcases finds_run s d hfresh id with ⟨session, hcourse, hfinds, -⟩
  have hseated : ∀ l ∈ h.lobbies, ∀ p ∈ l.members, p.id = id → session.Seated p.player :=
    fun l hl p hp hid => (hfinds.seated l hl p hp hid).seated
  obtain ⟨player, hplayer⟩ : ∃ player, session.Of player := by
    cases session with
    | waiting => exact ⟨nobody, trivial⟩
    | between player => exact ⟨player, rfl⟩
    | during player => exact ⟨player, rfl⟩
  have honly : ∀ p, .connected p ∈ heard → p = player := fun p hp =>
    hcourse.eq_of_connected_mem hplayer hp
  refine ⟨player, hcourse.exists_word hplayer, honly, fun l hl p hp hid => ?_, hcourse.regular⟩
  have htold := hcourse.connected_mem (hseated l hl p hp hid)
  rw [← honly p.player htold]
  exact ⟨rfl, htold⟩

/-- A connection plays until the other one leaves, and then takes the turn that it was asked for. -/
theorem sessions_run_of_two :
    let es : List Event :=
      [.command (.connect ⟨1⟩), .command (.connect ⟨2⟩), .command (.ready ⟨1⟩),
        .command (.ready ⟨2⟩), .command (.turn ⟨2⟩ 3), .command (.disconnect ⟨2⟩),
        .command (.turn ⟨1⟩ 3)]
    let heard := messagesTo ((Hall.new Settings.default [5]).run es).2 ⟨1⟩
    (arrivals es).Nodup ∧
      heard = [.connected 1, .gameStart 2 7 6 2, .update 2 3, .turnRequest 1, .gameEnd nobody,
        .turnResult .error 3] ∧
      ∃ word ∈ Session.sessions 1, heard <+: word := by
  intro es heard
  have hfresh : (arrivals es).Nodup := by decide
  have hheard : heard = [.connected 1, .gameStart 2 7 6 2, .update 2 3, .turnRequest 1,
      .gameEnd nobody, .turnResult .error 3] := by decide +kernel
  rcases sessions_run Settings.default [5] es hfresh ⟨1⟩ with ⟨player, hword, honly, -⟩
  have hplayer : 1 = player := by
    refine honly 1 ?_
    change .connected 1 ∈ heard
    rw [hheard]
    exact List.mem_cons_self
  exact ⟨hfresh, hheard, hplayer ▸ hword⟩

end Hall

end FourInRow
