import FourInRow.Proofs.Hall.Mail
import FourInRow.Proofs.Lobby.Standing

/-!
# How connections stand with a hall

A connection that a hall holds waits in the queue or sits in a lobby.  Whatever happens to the hall,
the connection is told only what it may hear, as long as it has said only what was due.

Main results:

- Theorem `Moves.settles`: how a connection fares when lobbies are filled up and the queue is
  reviewed.
- Theorem `Sound.fares`: how it fares when anything happens to the hall.
- Theorem `Sound.answers`: what becomes of a turn that is due.
- Theorem `Moves.silent`: whom the hall does not hold it tells nothing.
-/

namespace FourInRow

/-- The connection that sends a command. -/
def Command.sender? : Command → Option ConnectionId
  | .connect id | .disconnect id | .ready id | .turn id _ => some id
  | .shutDown => none

namespace Hall

/-- How a connection stands with a hall that holds it. -/
inductive Stands (h : Hall) (id : ConnectionId) : Standing → Prop
  /-- It waits in the queue. -/
  | waiting {p : Peer} (hp : p ∈ h.queue) (hid : p.id = id) :
      Stands h id ⟨nobody, none, [], p.listening⟩
  /-- It sits in a lobby. -/
  | seated {n : Nat} {l : Lobby} {p : Peer} {owes : List Due} (hl : h.lobbies[n]? = some l)
      (hp : p ∈ l.members) (hid : p.id = id) (hawaits : l.Awaits p owes) :
      Stands h id (l.standing p owes)

theorem Stands.holds {h : Hall} (hs : h.Sound) {id : ConnectionId} {st : Standing}
    (hst : h.Stands id st) : h.Holds id := by
  cases hst with
  | waiting hp hid => exact Or.inr (hid ▸ List.mem_map_of_mem hp)
  | @seated n l p owes hl hp hid => exact Or.inl ⟨n, hid ▸ hs.index_eq hl hp⟩

/-- Whoever waits has neither a number nor a match, and nothing is due from it. -/
theorem Stands.eq_of_mem_queue {h : Hall} (hs : h.Sound) {p : Peer} (hp : p ∈ h.queue)
    {st : Standing} (hst : h.Stands p.id st) : st = ⟨nobody, none, [], p.listening⟩ := by
  cases hst with
  | @waiting q hq hid => rw [List.inj_on_of_nodup_map hs.queue_nodup hq hp hid]
  | seated hl hq hid =>
      exact absurd (hid ▸ List.mem_map_of_mem hq) (hs.not_mem_members_of_queue hp hl)

/-- One turn is due at most, and nothing is due before it. -/
theorem Stands.turn_notMem_tail {h : Hall} {id : ConnectionId} {st : Standing}
    (hst : h.Stands id st) : .turn ∉ st.owes.tail := by
  cases hst with
  | waiting => exact List.not_mem_nil
  | seated _ _ _ hawaits =>
      cases hawaits with
      | playing =>
          simp only [Lobby.standing]
          split <;> exact List.not_mem_nil
      | ready => exact List.not_mem_nil
      | unready => exact List.not_mem_nil
      | late => simp [Lobby.standing]

/-- Only members owe anything. -/
theorem Stands.exists_seat {h : Hall} {id : ConnectionId} {st : Standing} {due : Due}
    {rest : List Due} (hst : h.Stands id st) (howes : st.owes = due :: rest) :
    ∃ (n : Nat) (l : Lobby) (p : Peer), h.lobbies[n]? = some l ∧ p ∈ l.members ∧ p.id = id ∧
      l.Awaits p (due :: rest) ∧ st = l.standing p (due :: rest) := by
  cases hst with
  | waiting => cases howes
  | @seated n l p owes hl hp hid hawaits =>
      change owes = _ at howes
      subst howes
      exact ⟨n, l, p, hl, hp, hid, hawaits, rfl⟩

/-- The board of the match that a connection takes part in. -/
def boardOf (h : Hall) (id : ConnectionId) : Option Board :=
  ((h.index.find? id).bind fun n => (h.lobbies[n]?).bind Lobby.game?).map Match.board

theorem Stands.boardOf_eq {h : Hall} (hs : h.Sound) {id : ConnectionId} {st : Standing}
    (hst : h.Stands id st) : h.boardOf id = st.board := by
  cases hst with
  | waiting hp hid =>
      rw [boardOf, ← hid, hs.queue_unseated _ hp]
      rfl
  | seated hl hp hid =>
      rw [boardOf, ← hid, hs.index_eq hl hp, Option.bind_some, hl, Option.bind_some]
      rfl

/-! ## Whom nothing happens to -/

/-- Where lobbies and queue hold a connection as before it stands as before. -/
theorem Stands.of_subset {h h' : Hall} {id : ConnectionId} {st : Standing} (hst : h.Stands id st)
    (hlobbies : ∀ (n : Nat) (l : Lobby), h.lobbies[n]? = some l → h'.lobbies[n]? = some l)
    (hqueue : ∀ p ∈ h.queue, p.id = id → p ∈ h'.queue) : h'.Stands id st := by
  cases hst with
  | waiting hp hid => exact .waiting (hqueue _ hp hid) hid
  | seated hl hp hid hawaits => exact .seated (hlobbies _ _ hl) hp hid hawaits

/-- When one lobby changes its members fare as they do there, and the others as before. -/
theorem Stands.setLobby {h h' : Hall} (hs : h.Sound) {id : ConnectionId} {st : Standing}
    (hst : h.Stands id st) {n : Nat} {l l' : Lobby} (hl : h.lobbies[n]? = some l)
    (hlobbies : h'.lobbies = (h.setLobby n l').lobbies)
    (hqueue : ∀ p ∈ h.queue, p.id = id → p ∈ h'.queue) {R : Standing → Standing → Prop}
    (hmember : ∀ p ∈ l.members, p.id = id → ∀ owes, l.Awaits p owes → st = l.standing p owes →
      ∃ p' ∈ l'.members, p'.id = p.id ∧ ∃ owes', l'.Awaits p' owes' ∧
        R (l.standing p owes) (l'.standing p' owes'))
    (hother : id ∉ l.members.map Peer.id → R st st) :
    ∃ st', h'.Stands id st' ∧ R st st' := by
  have hget := fun m => hlobbies ▸ getElem?_setLobby hl l' m
  cases hst with
  | @waiting p hp hid =>
      have hout := hs.not_mem_members_of_queue hp hl
      rw [hid] at hout
      exact ⟨_, .waiting (hqueue p hp hid) hid, hother hout⟩
  | @seated m k p owes hk hp hid hawaits =>
      have hget' := hget m
      by_cases hm : m = n
      · subst hm
        rw [hl] at hk
        cases hk
        rcases hmember p hp hid owes hawaits rfl with ⟨p', hp', hid', owes', hawaits', hR⟩
        rw [if_pos rfl] at hget'
        exact ⟨_, .seated hget' hp' (hid'.trans hid) hawaits', hR⟩
      · have hout : id ∉ l.members.map Peer.id := fun hmem =>
          hm (hs.lobby_unique hk hl (hid ▸ List.mem_map_of_mem hp) hmem)
        rw [if_neg hm, hk] at hget'
        exact ⟨_, .seated hget' hp hid hawaits, hother hout⟩

/-- When somebody else is seated a connection stands as before. -/
theorem Stands.seat {h h' : Hall} (hs : h.Sound) {id : ConnectionId} {st : Standing}
    (hst : h.Stands id st) {n : Nat} {l l' : Lobby} {p : Peer} {player : Player} {mail : Mail}
    (hl : h.lobbies[n]? = some l) (hseat : l.seat p = some (player, l', mail))
    (hlobbies : h'.lobbies = (h.setLobby n l').lobbies)
    (hqueue : ∀ p ∈ h.queue, p.id = id → p ∈ h'.queue) : h'.Stands id st := by
  have hmember : ∀ q ∈ l.members, q.id = id → ∀ owes, l.Awaits q owes → st = l.standing q owes →
      ∃ q' ∈ l'.members, q'.id = q.id ∧ ∃ owes', l'.Awaits q' owes' ∧
        l.standing q owes = l'.standing q' owes' := by
    intro q hq _ owes hawaits _
    rcases Lobby.seat_keeps hseat hq hawaits with ⟨hq', hawaits', hsame⟩
    exact ⟨q, hq', rfl, owes, hawaits', hsame.symm⟩
  rcases hst.setLobby hs hl hlobbies hqueue hmember (fun _ => rfl) with ⟨st', hst', rfl⟩
  exact hst'

/-- When a lobby talks to its members a connection is told something if it is one of them. -/
theorem Stands.follows {h h' : Hall} (hs : h.Sound) {id : ConnectionId} {st : Standing}
    (hst : h.Stands id st) {n : Nat} {l l' : Lobby} (hl : h.lobbies[n]? = some l)
    (hlobbies : h'.lobbies = (h.setLobby n l').lobbies) (hqueue : h'.queue = h.queue)
    {paid : List Due} {mail : Mail} (hmail : ∀ e ∈ mail, e.1 ∈ l.members.map Peer.id)
    (hpaid : id ∉ l.members.map Peer.id → paid = [])
    (hmember : ∀ p ∈ l.members, p.id = id → ∀ owes, l.Awaits p owes → st = l.standing p owes →
      l.Follows l' p owes paid (mail.messagesTo p.id)) :
    ∃ st', h'.Stands id st' ∧ st.Leads paid (mail.messagesTo id) st' := by
  refine hst.setLobby (R := fun s s' => s.Leads paid (mail.messagesTo id) s') hs hl hlobbies
    (fun _ hp _ => hqueue ▸ hp) ?_ fun hout => ?_
  · rintro p hp rfl owes hawaits hsame
    exact hmember p hp rfl owes hawaits hsame
  · rw [Mail.messagesTo_eq_nil_of_notMem hmail hout, hpaid hout]
    exact .refl st

/-- When somebody else leaves the queue a connection stands as before. -/
theorem Stands.removed {h : Hall} {id : ConnectionId} {st : Standing} (hst : h.Stands id st)
    {before after : List Peer} {p : Peer} (hqueue : h.queue = before ++ p :: after)
    (hne : p.id ≠ id) : Stands { h with queue := before ++ after } id st := by
  refine hst.of_subset (fun _ _ hl => hl) fun q hq hid => ?_
  rw [hqueue] at hq
  rcases List.mem_append.1 hq with hq | hq
  · exact List.mem_append_left _ hq
  · rcases List.mem_cons.1 hq with rfl | hq
    · exact absurd hid hne
    · exact List.mem_append_right _ hq

/-! ## Who is told -/

/-- Places are told to those who wait and listen. -/
theorem mem_queue_of_announced {h : Hall} {e : ConnectionId × Message}
    (he : e ∈ h.announceQueue.2) : ∃ p ∈ h.queue, p.id = e.1 ∧ p.listening = true := by
  rcases List.mem_flatMap.1 he with ⟨⟨p, i⟩, hp, hmail⟩
  rcases List.mem_zipIdx hp with ⟨-, -, hget⟩
  refine ⟨p, hget ▸ List.getElem_mem _, ?_⟩
  simp only [Peer.queued, Peer.tell] at hmail
  split at hmail
  · next hlistening =>
      rw [List.mem_singleton.1 hmail]
      exact ⟨rfl, hlistening⟩
  · cases hmail

/-- Whom a lobby of a hall has something to say the hall holds. -/
theorem Sound.holds_of_mem {h : Hall} (hs : h.Sound) {n : Nat} {l : Lobby}
    (hl : h.lobbies[n]? = some l) {id : ConnectionId} (hmem : id ∈ l.members.map Peer.id) :
    h.Holds id :=
  Or.inl ⟨n, (hs.index_iff id n).2 ⟨l, hl, hmem⟩⟩

/-- Whom the hall does not hold it tells nothing. -/
theorem Move.silent {e : Event} {h h' : Hall} {effects : List Effect} (hs : h.Sound)
    (hmove : Move e h effects h') {id : ConnectionId} (hid : ¬ h.Holds id)
    (hnew : e ≠ .command (.connect id)) (hopen : e ≠ .command .shutDown) :
    messagesTo effects id = [] := by
  have hmail : ∀ {mail : Mail}, (∀ e ∈ mail, e.1 ≠ id) → messagesTo (sends mail) id = [] :=
    fun h => (messagesTo_sends _ id).trans (Mail.messagesTo_eq_nil h)
  cases hmove with
  | opened => rfl
  | @welcomed i n l l' player mail he _ hl hseat =>
      refine hmail fun e' he' => ?_
      rw [Lobby.recipient_of_seat hseat he']
      rintro rfl
      exact hnew he
  | @queuedUp i he _ =>
      refine hmail fun e' he' => ?_
      rw [Peer.tell_addressed (fun _ => .inQueue _) (Peer.new i) e' he']
      rintro rfl
      exact hnew he
  | @promoted p rest n l l' player mail hqueue _ hl hseat =>
      refine hmail fun e' he' => ?_
      rw [Lobby.recipient_of_seat hseat he']
      rintro rfl
      refine hid (Or.inr (List.mem_map_of_mem ?_))
      rw [hqueue]
      exact List.mem_cons_self
  | dropped => rfl
  | withdrawn => rfl
  | announced =>
      refine hmail fun e' he' heq => ?_
      rcases mem_queue_of_announced he' with ⟨p, hp, hpid, -⟩
      exact hid (Or.inr (heq ▸ hpid ▸ List.mem_map_of_mem hp))
  | forgotten => rfl
  | left _ hl hleft =>
      rw [messagesTo_append, messagesTo_release, List.append_nil]
      exact hmail fun e' he' heq => hid (hs.holds_of_mem hl (heq ▸ hleft.recipient_mem he'))
  | readied _ hl hreadied =>
      exact hmail fun e' he' heq => hid (hs.holds_of_mem hl (heq ▸ hreadied.recipient_mem he'))
  | turned _ hl hturned =>
      exact hmail fun e' he' heq => hid (hs.holds_of_mem hl (heq ▸ hturned.recipient_mem he'))
  | shut he => exact absurd he hopen
  | hungUp => rfl

theorem Moves.silent {e : Event} {h h' : Hall} {effects : List Effect} (hs : h.Sound)
    (hmoves : Moves e h effects h') {id : ConnectionId} (hid : ¬ h.Holds id)
    (hnew : e ≠ .command (.connect id)) (hopen : e ≠ .command .shutDown) :
    messagesTo effects id = [] ∧ ¬ h'.Holds id := by
  induction hmoves with
  | refl => exact ⟨rfl, hid⟩
  | step hmove _ ih =>
      have hid' := fun hheld => (hmove.holds hs hheld).elim hid hnew
      rcases ih (hs.move hmove) hid' with ⟨hnothing, hout⟩
      rw [messagesTo_append, hmove.silent hs hid hnew hopen, hnothing]
      exact ⟨rfl, hout⟩

/-! ## When nobody does anything -/

/-- A connection is told something that it has not caused, or it is let go of, since it waits and
does not listen any more. -/
inductive Drifts (h' : Hall) (id : ConnectionId) (st : Standing) (told : List Message) : Prop
  | stays {st' : Standing} (hst' : h'.Stands id st') (hsettles : st.Settles told st')
  | released (hgone : ¬ h'.Holds id) (htold : told = []) (hdeaf : st.listening = false)
      (howes : st.owes = [])

theorem Move.settles {h h' : Hall} {effects : List Effect} (hs : h.Sound)
    (hmove : Move .review h effects h') {id : ConnectionId} {st : Standing}
    (hst : h.Stands id st) : h'.Drifts id st (messagesTo effects id) := by
  cases hmove with
  | opened =>
      refine .stays (hst.of_subset (fun n l hl => ?_) fun _ hp _ => hp) (.refl st)
      exact getElem?_opened.2 (Or.inl hl)
  | @promoted p rest n l l' player mail hqueue hlistening hl hseat =>
      rw [messagesTo_sends]
      by_cases hid : p.id = id
      · subst hid
        have hp : p ∈ h.queue := by
          rw [hqueue]
          exact List.mem_cons_self
        obtain rfl := hst.eq_of_mem_queue hs hp
        rcases Lobby.seat_welcomes (hs.lodges n l hl).sound hseat (hs.queue_plain p hp).1 with
          ⟨p', hp', hid', hawaits, hsettles⟩
        have hl' : (h.setLobby n l').lobbies[n]? = some l' :=
          (getElem?_setLobby hl l' n).trans (if_pos rfl)
        exact .stays (.seated hl' hp' hid' hawaits) hsettles
      · rw [Lobby.messagesTo_seat_of_ne hseat hid]
        refine .stays (hst.seat hs hl hseat rfl fun q hq hqid => ?_) (.refl st)
        rw [hqueue] at hq
        rcases List.mem_cons.1 hq with rfl | hq
        · exact absurd hqid hid
        · exact hq
  | @dropped before after p hqueue hdead =>
      by_cases hid : p.id = id
      · subst hid
        have hp : p ∈ h.queue := by
          rw [hqueue]
          exact List.mem_append_right _ List.mem_cons_self
        obtain rfl := hst.eq_of_mem_queue hs hp
        exact .released (fun hheld => ((hs.holds_removed hqueue p.id).1 hheld).1 rfl) rfl hdead rfl
      · exact .stays (hst.removed hqueue hid) (.refl st)
  | announced =>
      rw [messagesTo_sends]
      refine .stays (hst.of_subset (fun _ _ hl => hl) fun _ hp _ => hp) (.of_queued ?_ ?_)
      · exact fun m hm => List.mem_singleton.1 ((ofKinds_announceQueue h).kind_mem hm)
      · intro hdeaf
        refine Mail.messagesTo_eq_nil fun e he heq => ?_
        rcases mem_queue_of_announced he with ⟨p, hp, hpid, hlistening⟩
        obtain rfl := hpid.trans heq
        rw [hst.eq_of_mem_queue hs hp] at hdeaf
        exact absurd (hlistening.symm.trans hdeaf) (by decide)
  | forgotten => exact .stays (hst.of_subset (fun _ _ hl => hl) fun _ hp _ => hp) (.refl st)
  | welcomed he => cases he
  | queuedUp he => cases he
  | withdrawn he => cases he
  | left he => cases he
  | readied he => cases he
  | turned he => cases he
  | shut he => cases he
  | hungUp he => cases he

theorem Moves.settles {h h' : Hall} {effects : List Effect} (hs : h.Sound)
    (hmoves : Moves .review h effects h') {id : ConnectionId} {st : Standing}
    (hst : h.Stands id st) : h'.Drifts id st (messagesTo effects id) := by
  induction hmoves generalizing st with
  | refl => exact .stays hst (.refl st)
  | @step h h₁ h' effects effects' hmove hrest ih =>
      rw [messagesTo_append]
      cases hmove.settles hs hst with
      | stays hst₁ hsettles =>
          cases ih (hs.move hmove) hst₁ with
          | stays hst' hsettles' => exact .stays hst' (hsettles.trans hsettles')
          | released hgone htold hdeaf howes =>
              have hdeaf' := hsettles.leads.listening_eq.symm.trans hdeaf
              rcases hsettles.leads.owes with ⟨due, hdue, -⟩
              rw [howes, List.append_nil] at hdue
              refine .released hgone ?_ hdeaf' (List.append_eq_nil_iff.1 hdue).1
              rw [hsettles.leads.silent hdeaf', htold]
              rfl
      | released hgone htold hdeaf howes =>
          rcases hrest.silent (hs.move hmove) hgone Event.noConfusion Event.noConfusion with
            ⟨hnothing, hout⟩
          refine .released hout ?_ hdeaf howes
          rw [htold, hnothing]
          rfl

/-! ## Events -/

/-- A connection pays something and is told something, or it is let go of, since it waits and does
not listen any more. -/
inductive Fares (h' : Hall) (id : ConnectionId) (st : Standing) (paid : List Due)
    (told : List Message) : Prop
  | stays {st' : Standing} (hst' : h'.Stands id st') (hleads : st.Leads paid told st')
  | released (hgone : ¬ h'.Holds id) (htold : told = []) (hdeaf : st.listening = false)
      (howes : ∃ due, st.owes ++ due = paid)

/-- After what it does itself a connection is told what it has not caused. -/
theorem Drifts.fares {h' : Hall} {id : ConnectionId} {st st₁ : Standing} {paid : List Due}
    {told told' : List Message} (hdrifts : h'.Drifts id st₁ told')
    (hleads : st.Leads paid told st₁) : h'.Fares id st paid (told ++ told') := by
  cases hdrifts with
  | stays hst' hsettles => exact .stays hst' (hleads.trans hsettles)
  | released hgone htold hdeaf howes =>
      have hdeaf' := hleads.listening_eq.symm.trans hdeaf
      refine .released hgone ?_ hdeaf' ?_
      · rw [hleads.silent hdeaf', htold]
        rfl
      · rcases hleads.owes with ⟨due, hdue, -⟩
        rw [howes, List.append_nil] at hdue
        exact ⟨due, hdue⟩

theorem Grown.stands {h h' : Hall} (hgrown : Grown h h') {id : ConnectionId} {st : Standing}
    (hst : h.Stands id st) : h'.Stands id st := by
  cases hgrown with
  | same => exact hst
  | opened =>
      exact hst.of_subset (fun _ _ hl => getElem?_opened.2 (Or.inl hl)) fun _ hp _ => hp

/-- When somebody else connects a connection stands as before and hears nothing. -/
theorem Connected.keeps {h h' : Hall} {i : ConnectionId} {mail : Mail} (hs : h.Sound)
    (hconnected : Connected h i h' mail) {id : ConnectionId} {st : Standing}
    (hst : h.Stands id st) (hne : i ≠ id) : h'.Stands id st ∧ mail.messagesTo id = [] := by
  cases hconnected with
  | @seated k n l l' player mail hgrown hl hseat =>
      have hk : k.Sound := hs.moves (hgrown.moves .review)
      exact ⟨(hgrown.stands hst).seat hk hl hseat rfl fun _ hp _ => hp,
        Lobby.messagesTo_seat_of_ne hseat hne⟩
  | @queued k hgrown =>
      refine ⟨(hgrown.stands hst).of_subset (fun _ _ hl => hl) fun p hp _ => ?_, ?_⟩
      · exact List.mem_append_left _ hp
      · exact Mail.messagesTo_eq_nil fun e he heq =>
          hne ((Peer.tell_addressed (fun _ => .inQueue _) (Peer.new i) e he).symm.trans heq)

/-- A newcomer is told its number or its place. -/
theorem Connected.welcomes {h h' : Hall} {id : ConnectionId} {mail : Mail} (hs : h.Sound)
    (hconnected : Connected h id h' mail) :
    ∃ st, h'.Stands id st ∧ Standing.new.Settles (mail.messagesTo id) st := by
  cases hconnected with
  | @seated k n l l' player mail hgrown hl hseat =>
      have hk : k.Sound := hs.moves (hgrown.moves .review)
      rcases Lobby.seat_welcomes (hk.lodges n l hl).sound hseat rfl with
        ⟨p, hp, hid, hawaits, hsettles⟩
      have hl' : (k.setLobby n l').lobbies[n]? = some l' :=
        (getElem?_setLobby hl l' n).trans (if_pos rfl)
      exact ⟨_, .seated hl' hp hid hawaits, hsettles⟩
  | @queued k hgrown =>
      refine ⟨_, .waiting (p := Peer.new id) ?_ rfl, .of_queued ?_ fun h => by cases h⟩
      · exact List.mem_append_right _ List.mem_cons_self
      · exact fun m hm => List.mem_singleton.1 ((ofKinds_enqueue k _).kind_mem hm)

/-- When somebody else disconnects a connection may lose its match or gain a seat. -/
theorem Disconnected.fares {h h' : Hall} {i : ConnectionId} {effects : List Effect} (hs : h.Sound)
    (hdisconnected : Disconnected h i h' effects) {id : ConnectionId} {st : Standing}
    (hst : h.Stands id st) (hne : id ≠ i) : h'.Fares id st [] (messagesTo effects id) := by
  cases hdisconnected with
  | stranger => exact .stays hst (.refl st)
  | @left n l l' p mail hl hleft =>
      let k : Hall := { h.setLobby n l' with index := h.index.remove i }
      have hmember : ∀ q ∈ l.members, q.id = id → ∀ owes, l.Awaits q owes →
          st = l.standing q owes → l.Follows l' q owes [] (mail.messagesTo q.id) := by
        rintro q hq rfl owes hawaits -
        exact hleft.follows (hs.lodges n l hl).sound hq hne hawaits
      have hk : k.lobbies = (h.setLobby n l').lobbies := rfl
      rcases hst.follows hs hl hk rfl (fun _ he => hleft.recipient_mem he) (fun _ => rfl) hmember
        with ⟨st₁, hst₁, hleads⟩
      have hdrifts := (backfill_moves .review k n).settles (hs.left hl hleft) hst₁
      rw [messagesTo_append, messagesTo_append, messagesTo_sends, messagesTo_release,
        List.append_nil]
      exact hdrifts.fares hleads
  | @withdrawn before after p hid hqueue =>
      have hst₁ := hst.removed hqueue fun hpid => hne (hpid.symm.trans hid)
      have hk := hs.withQueue (removed_sublist hqueue)
      exact (Move.announced.settles hk hst₁).fares (.refl st)

/-- Whoever disconnects is held no more and told nothing. -/
theorem Disconnected.departs {h h' : Hall} {id : ConnectionId} {effects : List Effect}
    (hs : h.Sound) (hdisconnected : Disconnected h id h' effects) :
    messagesTo effects id = [] ∧ ¬ h'.Holds id := by
  cases hdisconnected with
  | stranger hid => exact ⟨rfl, hid⟩
  | @left n l l' p mail hl hleft =>
      let k : Hall := { h.setLobby n l' with index := h.index.remove id }
      have hout : ¬ k.Holds id := fun hheld => ((hs.holds_left hl hleft id).1 hheld).1 rfl
      rcases (backfill_moves .review k n).silent (hs.left hl hleft) hout Event.noConfusion
        Event.noConfusion with ⟨hnothing, hout'⟩
      rw [messagesTo_append, messagesTo_append, messagesTo_sends, messagesTo_release, hnothing,
        Mail.messagesTo_eq_nil fun e he => hleft.recipient_ne he]
      exact ⟨rfl, hout'⟩
  | @withdrawn before after p hid hqueue =>
      have hk := hs.withQueue (removed_sublist hqueue)
      have hout : ¬ Holds { h with queue := before ++ after } id := fun hheld =>
        ((hs.holds_removed hqueue id).1 hheld).1 hid.symm
      exact (Move.announced (e := .review)).moves.silent hk hout Event.noConfusion
        Event.noConfusion

/-- What saying ready does to the hall when it is heard in a lobby. -/
theorem ready_eq_of_find? {h : Hall} {id : ConnectionId} {n : Nat} {l : Lobby}
    (hfind : h.index.find? id = some n) (hl : h.lobbies[n]? = some l) :
    h.ready id = ({ h.setLobby n (l.ready h.draws id).1 with draws := (l.ready h.draws id).2.1 },
      (l.ready h.draws id).2.2) := by
  simp only [ready, hfind, hl]

/-- What taking a turn does to the hall when it is heard in a lobby. -/
theorem turn_eq_of_find? {h : Hall} {id : ConnectionId} {column : UInt8} {n : Nat} {l : Lobby}
    (hfind : h.index.find? id = some n) (hl : h.lobbies[n]? = some l) :
    h.turn id column = (((h.setLobby n (l.turn id column).1).backfill n).1,
      sends (l.turn id column).2 ++ ((h.setLobby n (l.turn id column).1).backfill n).2) := by
  simp only [turn, hfind, hl]

/-- Nothing is due from whoever has no seat. -/
theorem Stands.ne_of_find? {h : Hall} (hs : h.Sound) {id i : ConnectionId} {st : Standing}
    (hst : h.Stands id st) (hfind : h.index.find? i = none) {due : Due}
    (howed : id = i → ∃ rest, st.owes = due :: rest) : id ≠ i := by
  rintro rfl
  rcases howed rfl with ⟨rest, howes⟩
  rcases hst.exists_seat howes with ⟨n, l, p, hl, hp, rfl, -⟩
  rw [hs.index_eq hl hp] at hfind
  cases hfind

/-- When somebody says ready a match may begin. -/
theorem Sound.fares_ready {h : Hall} (hs : h.Sound) {id : ConnectionId} {st : Standing}
    (hst : h.Stands id st) (i : ConnectionId)
    (howed : id = i → ∃ rest, st.owes = .ready :: rest) :
    (h.ready i).1.Fares id st (if id = i then [.ready] else []) ((h.ready i).2.messagesTo id) := by
  cases hfind : h.index.find? i with
  | none =>
      have hsame : h.ready i = (h, []) := by simp only [ready, hfind]
      rw [hsame, if_neg (hst.ne_of_find? hs hfind howed)]
      exact .stays hst (.refl st)
  | some n =>
      rcases (hs.index_iff i n).1 hfind with ⟨l, hl, hmem⟩
      rw [ready_eq_of_find? hfind hl]
      have hreadied := Lobby.Readied.of_ready l h.draws i
      have hmember : ∀ p ∈ l.members, p.id = id → ∀ owes, l.Awaits p owes →
          st = l.standing p owes → l.Follows (l.ready h.draws i).1 p owes
            (if id = i then [.ready] else []) ((l.ready h.draws i).2.2.messagesTo p.id) := by
        rintro p hp rfl owes hawaits rfl
        exact hreadied.follows (hs.lodges n l hl).sound hp hawaits howed
      have hpaid : id ∉ l.members.map Peer.id → (if id = i then [Due.ready] else []) = [] := by
        intro hout
        rw [if_neg]
        rintro rfl
        exact hout hmem
      rcases hst.follows hs hl rfl rfl (fun _ he => hreadied.recipient_mem he) hpaid hmember with
        ⟨st', hst', hleads⟩
      exact .stays (hst'.of_subset (fun _ _ hl => hl) fun _ hp _ => hp) hleads

/-- When somebody takes a turn a match goes on or ends. -/
theorem Sound.fares_turn {h : Hall} (hs : h.Sound) {id : ConnectionId} {st : Standing}
    (hst : h.Stands id st) (i : ConnectionId) (column : UInt8)
    (howed : id = i → ∃ rest, st.owes = .turn :: rest)
    (hfits : id = i → ∀ board, st.board = some board → column ∈ board.openColumns) :
    (h.turn i column).1.Fares id st (if id = i then [.turn] else [])
      (messagesTo (h.turn i column).2 id) := by
  cases hfind : h.index.find? i with
  | none =>
      have hsame : h.turn i column = (h, []) := by simp only [turn, hfind]
      rw [hsame, if_neg (hst.ne_of_find? hs hfind howed)]
      exact .stays hst (.refl st)
  | some n =>
      rcases (hs.index_iff i n).1 hfind with ⟨l, hl, hmem⟩
      have hlodges := hs.lodges n l hl
      have hturned := Lobby.Turned.of_turn hlodges.sound i column
      have hmember : ∀ p ∈ l.members, p.id = id → ∀ owes, l.Awaits p owes →
          st = l.standing p owes → l.Follows (l.turn i column).1 p owes
            (if id = i then [.turn] else []) ((l.turn i column).2.messagesTo p.id) := by
        rintro p hp rfl owes hawaits rfl
        refine hturned.follows hlodges.sound hlodges.numbered hp hawaits howed ?_
        intro hid game accepting hphase
        refine hfits hid game.board ?_
        rw [Lobby.standing_of_playing hphase]
      have hpaid : id ∉ l.members.map Peer.id → (if id = i then [Due.turn] else []) = [] := by
        intro hout
        rw [if_neg]
        rintro rfl
        exact hout hmem
      let k := h.setLobby n (l.turn i column).1
      have hlobbies : k.lobbies = (h.setLobby n (l.turn i column).1).lobbies := rfl
      rcases hst.follows hs hl hlobbies rfl (fun _ he => hturned.recipient_mem he) hpaid hmember
        with ⟨st₁, hst₁, hleads⟩
      have hk : k.Sound := hs.move (.turned (e := .command (.turn i column)) rfl hl hturned)
      have hdrifts := (backfill_moves .review k n).settles hk hst₁
      rw [turn_eq_of_find? hfind hl, messagesTo_append, messagesTo_sends]
      exact hdrifts.fares hleads

/-- Is an event neither the doing of a connection nor that somebody hangs up or the hall is shut? -/
structure Event.Foreign (e : Event) (id : ConnectionId) : Prop where
  sender_ne : ∀ command, e = .command command → ∃ i ≠ id, command.sender? = some i
  ne_hangUp : ∀ i, e ≠ .hangUp i

theorem Event.Foreign.ne_command {e : Event} {id : ConnectionId} (h : e.Foreign id)
    {command : Command} (hsender : command.sender? = some id) : e ≠ .command command := by
  rintro rfl
  rcases h.sender_ne command rfl with ⟨i, hne, hsender'⟩
  rw [hsender] at hsender'
  exact hne (Option.some.inj hsender').symm

theorem Event.Foreign.ne_shutDown {e : Event} {id : ConnectionId} (h : e.Foreign id) :
    e ≠ .command .shutDown := by
  rintro rfl
  rcases h.sender_ne _ rfl with ⟨i, -, hsender⟩
  cases hsender

theorem Event.foreign_review (id : ConnectionId) : Event.Foreign .review id :=
  ⟨fun _ => Event.noConfusion, fun _ => Event.noConfusion⟩

/-- How a connection fares when something happens that it has not done itself. -/
theorem Sound.fares {h : Hall} (hs : h.Sound) {id : ConnectionId} {st : Standing}
    (hst : h.Stands id st) {e : Event} (hforeign : e.Foreign id)
    (hnew : ∀ i, e = .command (.connect i) → ¬ h.Holds i) :
    (h.step e).1.Fares id st [] (messagesTo (h.step e).2 id) := by
  cases e with
  | command c =>
      rcases hforeign.sender_ne c rfl with ⟨i, hne, hsender⟩
      cases c with
      | connect j =>
          cases hsender
          rcases (Connected.of_connect hs i).keeps hs hst hne with ⟨hst', hnothing⟩
          change Fares _ id st [] (messagesTo (sends (h.connect i).2) id)
          rw [messagesTo_sends, hnothing]
          exact .stays hst' (.refl st)
      | disconnect j =>
          cases hsender
          exact (Disconnected.of_disconnect hs i).fares hs hst hne.symm
      | ready j =>
          cases hsender
          have hfares := hs.fares_ready hst i fun hid => absurd hid hne.symm
          rw [if_neg hne.symm] at hfares
          change Fares _ id st [] (messagesTo (sends (h.ready i).2) id)
          rw [messagesTo_sends]
          exact hfares
      | turn j column =>
          cases hsender
          have hfares := hs.fares_turn hst i column (fun hid => absurd hid hne.symm)
            fun hid => absurd hid hne.symm
          rw [if_neg hne.symm] at hfares
          exact hfares
      | shutDown => cases hsender
  | hangUp i => exact absurd rfl (hforeign.ne_hangUp i)
  | review => exact ((reviewQueue_moves .review h).settles hs hst).fares (.refl st)

/-- What somebody else does leaves the match of a connection alone whose turn is due, or breaks it
off. -/
theorem Sound.boardOf_foreign {h : Hall} (hs : h.Sound) {id : ConnectionId} {st : Standing}
    (hst : h.Stands id st) {rest : List Due} (howes : st.owes = .turn :: rest) {e : Event}
    (hforeign : e.Foreign id) (hnew : ∀ i, e = .command (.connect i) → ¬ h.Holds i) :
    (h.step e).1.boardOf id = h.boardOf id ∨ (h.step e).1.boardOf id = none := by
  have hs' := hs.moves (step_moves hs hnew)
  have hturn : .turn ∈ st.owes := by
    rw [howes]
    exact List.mem_cons_self
  cases hs.fares hst hforeign hnew with
  | stays hst' hleads =>
      rw [hst.boardOf_eq hs, hst'.boardOf_eq hs']
      exact hleads.still rfl hturn
  | released _ _ _ hnothing =>
      rcases hnothing with ⟨due, hnil⟩
      rw [howes] at hnil
      cases hnil

/-- Whoever hangs up stands otherwise as before. -/
theorem Stands.hangUp {h : Hall} {id : ConnectionId} {st : Standing} (hst : h.Stands id st)
    (i : ConnectionId) :
    (h.hangUp i).Stands id { st with listening := st.listening && id ≠ i } := by
  cases hst with
  | @waiting p hp hid =>
      have hp' := List.mem_map_of_mem (f := fun p : Peer => if p.id = i then p.hangUp else p) hp
      by_cases hpi : p.id = i
      · rw [if_pos hpi] at hp'
        have hst' : (h.hangUp i).Stands id _ := .waiting hp' hid
        simpa [← hid, hpi, Peer.hangUp] using hst'
      · rw [if_neg hpi] at hp'
        have hst' : (h.hangUp i).Stands id _ := .waiting hp' hid
        simpa [← hid, hpi] using hst'
  | @seated n l p owes hl hp hid hawaits =>
      rcases hawaits.hangUp hp i with ⟨p', hp', hid', hawaits', hsame⟩
      have hst' : (h.hangUp i).Stands id _ :=
        .seated (getElem?_hangUp.2 ⟨l, hl, rfl⟩) hp' (hid'.trans hid) hawaits'
      rw [hsame, hid] at hst'
      exact hst'

/-- A turn that is due is answered at once and once: it succeeds, unless the match has been broken
off. -/
theorem Sound.answers {h : Hall} (hs : h.Sound) {id : ConnectionId} {st : Standing}
    (hst : h.Stands id st) {rest : List Due} (howes : st.owes = .turn :: rest) {column : UInt8}
    (hfits : ∀ board, st.board = some board → column ∈ board.openColumns)
    (hlistening : st.listening = true) :
    ∃ more, messagesTo (h.turn id column).2 id =
        .turnResult (if st.board.isSome then .success else .error) column :: more ∧
      ∀ m ∈ more, m.kind ≠ .turnResult := by
  rcases hst.exists_seat howes with ⟨n, l, p, hl, hp, rfl, hawaits, rfl⟩
  have hlodges := hs.lodges n l hl
  have hturned := Lobby.Turned.of_turn hlodges.sound p.id column
  have hopen : ∀ game accepting, l.phase = .playing game accepting →
      column ∈ game.board.openColumns := by
    intro game accepting hphase
    refine hfits game.board ?_
    rw [Lobby.standing_of_playing hphase]
  rcases hturned.answers hlodges.sound hlodges.numbered hp hawaits hopen with
    ⟨more, htold, hquiet⟩
  rcases hturned.follows hlodges.sound hlodges.numbered hp hawaits (fun _ => ⟨rest, rfl⟩)
    (fun _ => hopen) with ⟨p', hp', hid', owes', hawaits', -⟩
  let k := h.setLobby n (l.turn p.id column).1
  have hk : k.Sound := hs.move (.turned (e := .command (.turn p.id column)) rfl hl hturned)
  have hl' : k.lobbies[n]? = some (l.turn p.id column).1 :=
    (getElem?_setLobby hl _ n).trans (if_pos rfl)
  have hst' : k.Stands p.id _ := .seated hl' hp' hid' hawaits'
  have hkinds : ∀ m ∈ messagesTo (k.backfill n).2 p.id, m.kind ≠ .turnResult := by
    intro m hm
    cases (backfill_moves .review k n).settles hk hst' with
    | stays _ hsettles =>
        intro hkind
        have hmem := hsettles.kinds m hm
        rw [hkind] at hmem
        revert hmem
        decide
    | released _ hnothing =>
        rw [hnothing] at hm
        cases hm
  refine ⟨more ++ messagesTo (k.backfill n).2 p.id, ?_, fun m hm => ?_⟩
  · rw [turn_eq_of_find? (hs.index_eq hl hp) hl, messagesTo_append, messagesTo_sends, htold,
      Peer.hears, if_pos (show p.listening = true from hlistening), Lobby.outcome,
      Lobby.isPlaying]
    simp [Lobby.standing, k]
  · exact (List.mem_append.1 hm).elim (hquiet m) (hkinds m)

end Hall

end FourInRow
