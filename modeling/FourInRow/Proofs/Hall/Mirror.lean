import FourInRow.Proofs.Hall.Mail
import FourInRow.Proofs.Lobby.Mirror

/-!
# What the clients of a hall see

A client that repeats on a board of its own every piece it is told of always has the board of the
match it takes part in, whatever goes on in the other lobbies and in the queue.

Main results:

- Theorem `Move.mirrored`: every move of a hall is followed by the views of its clients.
- Theorem `mirrored_run`: so is every run.
- Theorem `views_agree`: all members of a lobby have seen the same pieces, those of the match; and
  when they hear of its end, the winner is the one that owns a line on the board they have seen.
-/

namespace FourInRow

/-- The views after some effects. -/
def Views.afterEffects (views : Views) (effects : List Hall.Effect) : Views :=
  fun id => (views id).hearAll (Hall.messagesTo effects id)

namespace Views

@[simp] theorem afterEffects_append (views : Views) (effects effects' : List Hall.Effect) :
    views.afterEffects (effects ++ effects') =
      (views.afterEffects effects).afterEffects effects' := by
  funext id
  simp [afterEffects]

@[simp] theorem afterEffects_sends (views : Views) (mail : Mail) :
    views.afterEffects (Hall.sends mail) = views.after mail := by
  funext id
  simp [afterEffects, after]

@[simp] theorem afterEffects_release (views : Views) (id : ConnectionId) :
    views.afterEffects [.release id] = views := rfl

end Views

namespace Hall

/-- What the clients of a hall make of what they have been told. -/
def views (effects : List Effect) : Views :=
  Views.afterEffects (fun _ => Mirror.new) effects

/-- What the views of the clients have to do with a hall. -/
def Mirrored (h : Hall) (views : Views) : Prop :=
  ∀ (n : Nat) (l : Lobby), h.lobbies[n]? = some l → l.Mirrored views

/-! ## Moves -/

/-- When a lobby talks, the views of the members of the other lobbies stay as they are. -/
theorem Mirrored.setLobby {h : Hall} {views : Views} (hm : h.Mirrored views) {n : Nat}
    {l l' : Lobby} (hl : h.lobbies[n]? = some l) {mail : Mail}
    (hl' : l'.Mirrored (views.after mail))
    (hothers : ∀ m k, m ≠ n → h.lobbies[m]? = some k →
      ∀ e ∈ mail, e.1 ∉ k.members.map Peer.id) :
    (h.setLobby n l').Mirrored (views.after mail) := by
  intro m k hk
  rw [getElem?_setLobby hl] at hk
  by_cases hmn : m = n
  · rw [if_pos hmn] at hk
    cases hk
    exact hl'
  · rw [if_neg hmn] at hk
    refine (hm m k hk).congr fun p hp _ => ?_
    rw [Views.after, Mail.messagesTo_eq_nil fun e he heq => ?_]
    · rfl
    · exact hothers m k hmn hk e he (heq ▸ List.mem_map_of_mem hp)

/-- Mail to the members of a lobby is not for those of another one. -/
theorem Sound.notMem_of_mem {h : Hall} (hs : h.Sound) {n : Nat} {l : Lobby}
    (hl : h.lobbies[n]? = some l) {mail : Mail}
    (hmail : ∀ e ∈ mail, e.1 ∈ l.members.map Peer.id) :
    ∀ m k, m ≠ n → h.lobbies[m]? = some k → ∀ e ∈ mail, e.1 ∉ k.members.map Peer.id := by
  intro m k hmn hk e he hmem
  exact hmn (hs.lobby_unique hk hl hmem (hmail e he))

/-- Somebody without a seat gets one, and sees what the others see. -/
theorem Mirrored.withSeat {h : Hall} {views : Views} (hs : h.Sound) (hm : h.Mirrored views)
    {n : Nat} {l l' : Lobby} {p : Peer} {player : Player} {mail : Mail}
    (hl : h.lobbies[n]? = some l) (hseat : l.seat p = some (player, l', mail))
    (hplayer : p.player = nobody) (hnone : h.index.find? p.id = none) :
    (h.setLobby n l').Mirrored (views.after mail) := by
  refine hm.setLobby hl ?_ fun m k _ hk e he => ?_
  · exact (hm n l hl).seat (hs.lodges n l hl).sound hseat hplayer
      (hs.not_mem_members hnone hl)
  · rw [Lobby.recipient_of_seat hseat he]
    exact hs.not_mem_members hnone hk

/-- A lobby without members shows what there is to see. -/
theorem mirrored_freshLobby (s : Settings) (n : Nat) (views : Views) :
    (freshLobby s n).Mirrored views :=
  Lobby.mirrored_of_members_eq_nil (members_freshLobby s n)
    (fun _ _ hphase => by cases hphase) views

/-- Every move of a hall is followed by the views of its clients. -/
theorem Move.mirrored {e : Event} {h h' : Hall} {effects : List Effect} {views : Views}
    (hs : h.Sound) (hm : h.Mirrored views) (hmove : Move e h effects h') :
    h'.Mirrored (views.afterEffects effects) := by
  cases hmove with
  | opened =>
      intro n l hl
      rcases getElem?_opened.1 hl with hold | ⟨-, rfl⟩
      · exact hm n l hold
      · exact mirrored_freshLobby _ _ views
  | @welcomed id n l l' player mail he hnew hl hseat =>
      rw [Views.afterEffects_sends]
      exact hm.withSeat hs hl hseat rfl (find?_eq_none_of_not_holds hnew)
  | queuedUp =>
      rw [Views.afterEffects_sends, Views.after_of_idle (ofKinds_enqueue h _) (by decide)]
      exact hm
  | @promoted p rest n l l' player mail hqueue hlistening hl hseat =>
      have hp : p ∈ h.queue := by
        rw [hqueue]
        exact List.mem_cons_self
      rw [Views.afterEffects_sends]
      exact hm.withSeat hs hl hseat (hs.queue_plain p hp).1 (hs.queue_unseated p hp)
  | dropped => exact hm
  | withdrawn => exact hm
  | announced =>
      rw [Views.afterEffects_sends, Views.after_of_idle (ofKinds_announceQueue h) (by decide)]
      exact hm
  | forgotten => exact hm
  | @left id n l l' p mail he hl hleft =>
      rw [Views.afterEffects_append, Views.afterEffects_release, Views.afterEffects_sends]
      exact hm.setLobby hl ((hm n l hl).left hleft)
        (hs.notMem_of_mem hl fun e he => hleft.recipient_mem he)
  | @readied id n l l' d mail he hl hreadied =>
      rw [Views.afterEffects_sends]
      exact hm.setLobby hl ((hm n l hl).readied (hs.lodges n l hl).sound hreadied)
        (hs.notMem_of_mem hl fun e he => hreadied.recipient_mem he)
  | @turned id column n l l' mail he hl hturned =>
      rw [Views.afterEffects_sends]
      exact hm.setLobby hl ((hm n l hl).turned (hs.lodges n l hl).sound hturned)
        (hs.notMem_of_mem hl fun e he => hturned.recipient_mem he)
  | shut =>
      intro n l hl
      rcases getElem?_shutDown.1 hl with ⟨k, -, rfl⟩
      exact Lobby.mirrored_of_members_eq_nil k.members_emptied
        (fun _ _ hphase => by cases hphase) _
  | hungUp =>
      intro n l hl
      rcases getElem?_hangUp.1 hl with ⟨k, hk, rfl⟩
      exact (hm n k hk).hangUp _

theorem Moves.mirrored {e : Event} {h h' : Hall} {effects : List Effect} {views : Views}
    (hs : h.Sound) (hm : h.Mirrored views) (hmoves : Moves e h effects h') :
    h'.Mirrored (views.afterEffects effects) := by
  induction hmoves generalizing views with
  | refl => exact hm
  | step hmove _ ih =>
      rw [Views.afterEffects_append]
      exact ih (hs.move hmove) (hmove.mirrored hs hm)

/-- Every run of a hall is followed by the views of its clients. -/
theorem mirrored_run (s : Settings) (d : Draws) {es : List Event} (hfresh : (arrivals es).Nodup) :
    ((Hall.new s d).run es).1.Mirrored (views ((Hall.new s d).run es).2) := by
  induction es using List.reverseRecOn with
  | nil =>
      intro n l hl
      cases hl
  | append_singleton es e ih =>
      have hbefore := nodup_arrivals_of_concat hfresh
      rw [run_concat, views, Views.afterEffects_append]
      exact (run_moves s d hfresh).mirrored (sound_run s d hbefore) (ih hbefore)

/-! ## The end of a match -/

/-- The events that end no match. -/
def Event.Calm : Event → Prop
  | .command (.disconnect _) | .command (.turn ..) | .command .shutDown => False
  | _ => True

theorem kind_ne_of_sends {kinds : List Wire.Kind} {mail : Mail} (h : mail.OfKinds kinds)
    (hkinds : .gameEnd ∉ kinds) (id : ConnectionId) :
    ∀ m ∈ messagesTo (sends mail) id, m.kind ≠ .gameEnd := by
  intro m hm
  rw [messagesTo_sends] at hm
  exact h.kind_ne hkinds hm

/-- Nobody hears of the end of a match in a calm move. -/
theorem Move.kind_ne_gameEnd {e : Event} {h h' : Hall} {effects : List Effect}
    (hmove : Move e h effects h') (hcalm : e.Calm) (id : ConnectionId) :
    ∀ m ∈ messagesTo effects id, m.kind ≠ .gameEnd := by
  have hnothing : ∀ m ∈ ([] : List Message), m.kind ≠ .gameEnd := fun m hm => by cases hm
  cases hmove with
  | welcomed he hnew hl hseat => exact kind_ne_of_sends (Lobby.ofKinds_seat hseat) (by decide) id
  | queuedUp => exact kind_ne_of_sends (ofKinds_enqueue h _) (by decide) id
  | promoted hqueue hlistening hl hseat =>
      exact kind_ne_of_sends (Lobby.ofKinds_seat hseat) (by decide) id
  | announced => exact kind_ne_of_sends (ofKinds_announceQueue h) (by decide) id
  | readied he hl hreadied => exact kind_ne_of_sends hreadied.ofKinds (by decide) id
  | left he =>
      subst he
      cases hcalm
  | turned he =>
      subst he
      cases hcalm
  | shut he =>
      subst he
      cases hcalm
  | _ => exact hnothing

theorem Moves.kind_ne_gameEnd {e : Event} {h h' : Hall} {effects : List Effect}
    (hmoves : Moves e h effects h') (hcalm : e.Calm) (id : ConnectionId) :
    ∀ m ∈ messagesTo effects id, m.kind ≠ .gameEnd := by
  induction hmoves with
  | refl =>
      intro m hm
      cases hm
  | step hmove _ ih =>
      intro m hm
      rw [messagesTo_append, List.mem_append] at hm
      exact hm.elim (hmove.kind_ne_gameEnd hcalm id m) (ih m)

/-- Nobody hears of the end of a match when a lobby is filled up. -/
theorem backfill_kind_ne_gameEnd (h : Hall) (n : Nat) (id : ConnectionId) :
    ∀ m ∈ messagesTo (h.backfill n).2 id, m.kind ≠ .gameEnd :=
  (backfill_moves .review h n).kind_ne_gameEnd trivial id

/-- A match that ends in a lobby, with what everybody hears of it and why it ends. -/
structure Concludes (h : Hall) (e : Event) (views : Views) (effects : List Effect) (l : Lobby)
    (winner : Player) (board : Board) : Prop where
  mem : l ∈ h.lobbies
  playing : l.isPlaying = true
  /-- All members that listen hear of the end, except one that has just left. -/
  ends : l.Ends views (fun p => e ≠ .command (.disconnect p.id)) (messagesTo effects) winner board
  /-- Without a winner the board is full, or a member has left, or the hall is shut. -/
  drawn_or_aborted : winner = nobody → board.isFull = true ∨ e = .command .shutDown ∨
    ∃ p ∈ l.members, e = .command (.disconnect p.id)

/-- Messages from a lobby and from the filling up afterwards. -/
theorem messagesTo_sends_append (mail : Mail) (effects : List Effect) :
    messagesTo (sends mail ++ effects) =
      fun id => mail.messagesTo id ++ messagesTo effects id := by
  funext id
  rw [messagesTo_append, messagesTo_sends]

theorem Turned.concludes {h h' : Hall} {id i : ConnectionId} {column : UInt8}
    {effects : List Effect} {views : Views} {m : Message} (hs : h.Sound) (hm : h.Mirrored views)
    (hturned : Turned h id column h' effects) (hmem : m ∈ messagesTo effects i)
    (hkind : m.kind = .gameEnd) :
    ∃ l winner board, Concludes h (.command (.turn id column)) views effects l winner board ∧
      ∃ p ∈ l.members, p.id = i ∧ p.listening = true := by
  cases hturned with
  | unseated => cases hmem
  | @seated n l l' mail hl hturned =>
      rw [messagesTo_sends_append] at hmem
      have hrest := backfill_kind_ne_gameEnd (h.setLobby n l') n
      have hmail := (List.mem_append.1 hmem).resolve_right fun hmem => hrest i m hmem hkind
      obtain ⟨game, accepting, winner, board, hphase, hmember, hends, hfull⟩ :=
        hturned.ends (hm n l hl) (hs.lodges n l hl).sound hmail hkind
      refine ⟨l, winner, board, ⟨List.mem_of_getElem? hl, ?_, ?_, ?_⟩, hmember⟩
      · exact Lobby.isPlaying_iff.2 ⟨game, accepting, hphase⟩
      · rw [messagesTo_sends_append]
        exact (hends.append_right hrest).mono fun _ _ => trivial
      · exact fun hnobody => Or.inl (hfull hnobody)

theorem Disconnected.concludes {h h' : Hall} {id i : ConnectionId} {effects : List Effect}
    {views : Views} {m : Message} (hs : h.Sound) (hm : h.Mirrored views)
    (hdisconnected : Disconnected h id h' effects) (hmem : m ∈ messagesTo effects i)
    (hkind : m.kind = .gameEnd) :
    ∃ l winner board, Concludes h (.command (.disconnect id)) views effects l winner board ∧
      ∃ p ∈ l.members, p.id = i ∧ p.listening = true ∧ p.id ≠ id := by
  cases hdisconnected with
  | stranger => cases hmem
  | @left n l l' p mail hl hleft =>
      have hrest : ∀ j, ∀ m' ∈ messagesTo ([.release id] ++
          ({ h.setLobby n l' with index := h.index.remove id }.backfill n).2) j,
          m'.kind ≠ .gameEnd := by
        intro j
        rw [messagesTo_append, messagesTo_release, List.nil_append]
        exact backfill_kind_ne_gameEnd _ n j
      rw [List.append_assoc, messagesTo_sends_append] at hmem
      have hmail := (List.mem_append.1 hmem).resolve_right fun hmem => hrest i m hmem hkind
      obtain ⟨game, accepting, hphase, hmember, hends⟩ :=
        hleft.ends (hm n l hl) (hs.lodges n l hl).sound hmail
      refine ⟨l, nobody, game.board, ⟨List.mem_of_getElem? hl, ?_, ?_, ?_⟩, hmember⟩
      · exact Lobby.isPlaying_iff.2 ⟨game, accepting, hphase⟩
      · rw [List.append_assoc, messagesTo_sends_append]
        refine (hends.append_right hrest).mono fun q hne heq => hne ?_
        rw [heq]
      · intro _
        rcases List.mem_map.1 hleft.mem with ⟨q, hq, hid⟩
        exact Or.inr (Or.inr ⟨q, hq, by rw [hid]⟩)
  | @withdrawn before after p hid hqueue =>
      have hquiet := kind_ne_of_sends
        (ofKinds_announceQueue { h with queue := before ++ after }) (by decide) i
      exact absurd hkind (hquiet m hmem)

/-- When the lobbies are closed every lobby talks to its own members. -/
theorem messagesTo_closeAll (ls : List Lobby) (id : ConnectionId) :
    messagesTo (closeAll ls).2 id = ls.flatMap fun l => l.close.2.2.messagesTo id := by
  induction ls with
  | nil => rfl
  | cons l ls ih =>
      simp only [closeAll, messagesTo_append, messagesTo_sends, messagesTo_releases,
        List.append_nil, ih, List.flatMap_cons]

/-- A lobby that closes has nothing to say to those who are not members. -/
theorem messagesTo_close_eq_nil {l : Lobby} {id : ConnectionId}
    (hid : id ∉ l.members.map Peer.id) : l.close.2.2.messagesTo id = [] :=
  Mail.messagesTo_eq_nil_of_notMem (fun _ he => Lobby.recipient_mem_close he) hid

/-- Where no connection sits twice, a member hears what its own lobby says. -/
theorem flatMap_messagesTo_close {ls : List Lobby}
    (hnodup : ((ls.flatMap Lobby.members).map Peer.id).Nodup) {l : Lobby} (hl : l ∈ ls)
    {id : ConnectionId} (hid : id ∈ l.members.map Peer.id) :
    (ls.flatMap fun k => k.close.2.2.messagesTo id) = l.close.2.2.messagesTo id := by
  induction ls with
  | nil => cases hl
  | cons k ls ih =>
      rw [List.flatMap_cons, List.map_append, List.nodup_append] at hnodup
      rcases hnodup with ⟨-, hrest, hdisjoint⟩
      have hmem : ∀ m ∈ ls, id ∈ m.members.map Peer.id →
          id ∈ (ls.flatMap Lobby.members).map Peer.id := by
        intro m hm hidm
        rw [List.map_flatMap]
        exact List.mem_flatMap.2 ⟨m, hm, hidm⟩
      rw [List.flatMap_cons]
      rcases List.mem_cons.1 hl with rfl | hl
      · have hothers : (ls.flatMap fun k => k.close.2.2.messagesTo id) = [] := by
          rw [List.flatMap_eq_nil_iff]
          exact fun m hm => messagesTo_close_eq_nil fun hidm =>
            hdisjoint id hid id (hmem m hm hidm) rfl
        rw [hothers, List.append_nil]
      · rw [messagesTo_close_eq_nil fun hidk => hdisjoint id hidk id (hmem l hl hid) rfl,
          List.nil_append]
        exact ih hrest hl

/-- What everybody hears when the hall is shut. -/
theorem messagesTo_shutDown (h : Hall) (id : ConnectionId) :
    messagesTo h.shutDown.2 id = h.lobbies.flatMap fun l => l.close.2.2.messagesTo id := by
  change messagesTo ((closeAll h.lobbies).2 ++ h.queue.map fun p => .release p.id) id = _
  rw [messagesTo_append, messagesTo_releases, List.append_nil, messagesTo_closeAll]

theorem shutDown_concludes {h : Hall} {views : Views} {i : ConnectionId} {m : Message}
    (hs : h.Sound) (hm : h.Mirrored views) (hmem : m ∈ messagesTo h.shutDown.2 i) :
    ∃ l winner board, Concludes h (.command .shutDown) views h.shutDown.2 l winner board ∧
      ∃ p ∈ l.members, p.id = i ∧ p.listening = true := by
  rw [messagesTo_shutDown] at hmem
  rcases List.mem_flatMap.1 hmem with ⟨l, hl, hmail⟩
  rcases List.getElem?_of_mem hl with ⟨n, hn⟩
  obtain ⟨game, accepting, hphase, hmember, hends⟩ :=
    Lobby.ends_close (hm n l hn) (hs.lodges n l hn).sound hmail
  have hnodup := hs.nodup_held
  rw [held, List.map_append] at hnodup
  refine ⟨l, nobody, game.board, ⟨hl, ?_, ⟨?_, hends.hasLine_iff⟩, ?_⟩, hmember⟩
  · exact Lobby.isPlaying_iff.2 ⟨game, accepting, hphase⟩
  · intro p hp hlistening _
    rw [messagesTo_shutDown, flatMap_messagesTo_close (List.nodup_append.1 hnodup).1 hl
      (List.mem_map_of_mem hp)]
    exact hends.each p hp hlistening trivial
  · exact fun _ => Or.inr (Or.inl rfl)

/-- When somebody hears of the end of a match, a match ends for all its members. -/
theorem concludes_of_gameEnd {h : Hall} {e : Event} {views : Views} {i : ConnectionId} {m : Message}
    (hs : h.Sound) (hm : h.Mirrored views)
    (hnew : ∀ id, e = .command (.connect id) → ¬ h.Holds id)
    (hmem : m ∈ messagesTo (h.step e).2 i) (hkind : m.kind = .gameEnd) :
    ∃ l winner board, Concludes h e views (h.step e).2 l winner board ∧
      ∃ p ∈ l.members, p.id = i ∧ p.listening = true ∧ e ≠ .command (.disconnect p.id) := by
  have hcalm : ¬ e.Calm := fun hcalm =>
    (step_moves hs hnew).kind_ne_gameEnd hcalm i m hmem hkind
  cases e with
  | hangUp => exact absurd trivial hcalm
  | review => exact absurd trivial hcalm
  | command c =>
      cases c with
      | connect => exact absurd trivial hcalm
      | ready => exact absurd trivial hcalm
      | turn id column =>
          obtain ⟨l, winner, board, hl, p, hp, hid, hlistening⟩ :=
            (Turned.of_turn hs id column).concludes hs hm hmem hkind
          exact ⟨l, winner, board, hl, p, hp, hid, hlistening, by simp⟩
      | disconnect id =>
          obtain ⟨l, winner, board, hl, p, hp, hid, hlistening, hne⟩ :=
            (Disconnected.of_disconnect hs id).concludes hs hm hmem hkind
          refine ⟨l, winner, board, hl, p, hp, hid, hlistening, ?_⟩
          rintro ⟨⟩
          exact hne rfl
      | shutDown =>
          obtain ⟨l, winner, board, hl, p, hp, hid, hlistening⟩ :=
            shutDown_concludes hs hm hmem
          exact ⟨l, winner, board, hl, p, hp, hid, hlistening, by simp⟩

/-- In every run in which no connection is made twice, all members of a lobby that listen have
seen the same pieces, and these make up the board of the match.  When somebody hears of the end of
a match, it is that of a lobby, whose members all hear the same; the winner is the one that owns a
line on the board they have seen, and there is none only if the board is full or the match has
been broken off. -/
theorem views_agree (s : Settings) (d : Draws) (es : List Event)
    (hfresh : (arrivals es).Nodup) :
    (∀ (n : Nat) (l : Lobby) (game : Match) (accepting : Bool),
      ((Hall.new s d).run es).1.lobbies[n]? = some l → l.phase = .playing game accepting →
        ∃ moves, ∀ p ∈ l.members, p.listening = true →
          (views ((Hall.new s d).run es).2 p.id).player = p.player ∧
            (views ((Hall.new s d).run es).2 p.id).moves = moves ∧
              (views ((Hall.new s d).run es).2 p.id).board = some game.board) ∧
    ∀ (e : Event) (id : ConnectionId) (before : List Message) (w : Player) (after : List Message),
      (arrivals (es ++ [e])).Nodup →
        messagesTo (((Hall.new s d).run es).1.step e).2 id = before ++ .gameEnd w :: after →
          ∃ l board, Concludes ((Hall.new s d).run es).1 e (views ((Hall.new s d).run es).2)
              (((Hall.new s d).run es).1.step e).2 l w board ∧
            (∃ p ∈ l.members, p.id = id ∧ p.listening = true) ∧
              ((views ((Hall.new s d).run es).2 id).hearAll before).board = some board := by
  have hs := sound_run s d hfresh
  have hm := mirrored_run s d hfresh
  constructor
  · intro n l game accepting hl hphase
    have hmirrored := hm n l hl
    have hshows := hmirrored.shows game accepting hphase
    rcases hmirrored.shows game accepting hphase with ⟨moves, -, hviews⟩
    exact ⟨moves, fun p hp hlistening => ⟨hmirrored.player_eq p hp hlistening,
      (hviews p hp hlistening).2, hshows.board_eq hp hlistening⟩⟩
  · intro e id before w after hfresh' hheard
    have hmem : .gameEnd w ∈ messagesTo (((Hall.new s d).run es).1.step e).2 id := by
      rw [hheard]
      simp
    obtain ⟨l, winner, board, hl, p, hp, rfl, hlistening, hhears⟩ :=
      concludes_of_gameEnd hs hm (fun i hi => not_holds_of_connect hfresh' hi) hmem rfl
    rcases hl.ends.eq_of_heard hp hlistening hhears hheard with ⟨rfl, hboard⟩
    exact ⟨l, board, hl, ⟨p, hp, rfl, hlistening⟩, hboard⟩

/-- Two connections play a match until the first one owns a column of four; the second one hears
that it has lost, and sees why. -/
theorem exists_concludes_of_column :
    let es : List Event :=
      [.command (.connect ⟨1⟩), .command (.connect ⟨2⟩), .command (.ready ⟨1⟩),
        .command (.ready ⟨2⟩), .command (.turn ⟨1⟩ 0), .command (.turn ⟨2⟩ 1),
        .command (.turn ⟨1⟩ 0), .command (.turn ⟨2⟩ 1), .command (.turn ⟨1⟩ 0),
        .command (.turn ⟨2⟩ 1)]
    let e : Event := .command (.turn ⟨1⟩ 0)
    let run := (Hall.new Settings.default []).run es
    (arrivals es).Nodup ∧ (arrivals (es ++ [e])).Nodup ∧
      messagesTo (run.1.step e).2 ⟨2⟩ = [.update 1 0] ++ .gameEnd 1 :: [] ∧
        ∃ l board, Concludes run.1 e (views run.2) (run.1.step e).2 l 1 board ∧
          ((views run.2 ⟨2⟩).hear (.update 1 0)).board = some board ∧ board.HasLine 1 := by
  intro es e run
  have hfresh : (arrivals es).Nodup := by decide
  have hfresh' : (arrivals (es ++ [e])).Nodup := by decide
  have hheard : messagesTo (run.1.step e).2 ⟨2⟩ = [.update 1 0] ++ .gameEnd 1 :: [] := by
    decide +kernel
  obtain ⟨l, board, hl, -, hboard⟩ :=
    (views_agree Settings.default [] es hfresh).2 e ⟨2⟩ [.update 1 0] 1 [] hfresh' hheard
  exact ⟨hfresh, hfresh', hheard, l, board, hl, hboard,
    (hl.ends.hasLine_iff 1 (by decide)).2 rfl⟩

end Hall

end FourInRow
