import FourInRow.Proofs.Hall.Admission
import FourInRow.Proofs.Hall.Mirror
import FourInRow.Proofs.Hall.Standing
import FourInRow.Proofs.Lobby.Advance

/-!
# The lobbies of a hall one by one

Whatever a hall does, each of its lobbies advances by itself: it is left alone, or one of the
things in `Lobby.Advances` happens to it, and its members hear just what it says.  So whatever a
lobby keeps true about itself and its mail is true of every lobby after every run.

Main results:

- Theorem `Move.ofKinds`: an event brings about messages of its own kinds only.
- Theorem `Move.advanced`: how a lobby advances when a hall makes a move.
- Theorem `lobbies_run`: what every advance of a lobby keeps is true of all lobbies after every run.
- Theorem `Move.index_eq`: whoever has a seat keeps it, or is held no more.
-/

namespace FourInRow

namespace Hall

/-! ## The mail of a hall -/

/-- The mail among some effects. -/
def mailOf (effects : List Effect) : Mail :=
  effects.filterMap fun e =>
    match e with
    | .send recipient m => some (recipient, m)
    | .release _ => none

@[simp] theorem mailOf_nil : mailOf [] = [] := rfl

@[simp] theorem mailOf_append (effects effects' : List Effect) :
    mailOf (effects ++ effects') = mailOf effects ++ mailOf effects' :=
  List.filterMap_append

@[simp] theorem mailOf_sends (mail : Mail) : mailOf (sends mail) = mail := by
  simp [mailOf, sends, List.filterMap_map]

@[simp] theorem mailOf_release (id : ConnectionId) : mailOf [.release id] = [] := rfl

@[simp] theorem mailOf_releases (ps : List Peer) :
    mailOf (ps.map fun p => .release p.id) = [] := by
  simp [mailOf, List.filterMap_map]

/-- What a connection hears is in the mail. -/
theorem messagesTo_mailOf (effects : List Effect) (id : ConnectionId) :
    (mailOf effects).messagesTo id = messagesTo effects id := by
  induction effects with
  | nil => rfl
  | cons e effects ih =>
      cases e with
      | release i => exact ih
      | send recipient m =>
          change Mail.messagesTo ((recipient, m) :: mailOf effects) id = _
          simp only [Mail.messagesTo, messagesTo, List.filterMap_cons, Effect.messageTo] at ih ⊢
          rw [ih]

/-- The lobbies that are closed talk one after another. -/
theorem mailOf_closeAll (ls : List Lobby) :
    mailOf (closeAll ls).2 = ls.flatMap fun l => l.close.2.2 := by
  induction ls with
  | nil => rfl
  | cons l ls ih => simp [closeAll, ih]

theorem mailOf_shutDown (h : Hall) :
    mailOf h.shutDown.2 = h.lobbies.flatMap fun l => l.close.2.2 := by
  change mailOf ((closeAll h.lobbies).2 ++ h.queue.map fun p => .release p.id) = _
  rw [mailOf_append, mailOf_releases, List.append_nil, mailOf_closeAll]

/-- The kinds of message that an event can bring about.  Seats may be given and places told at any
time. -/
def Event.kinds : Event → List Wire.Kind
  | .command (.ready _) => [.connected, .inQueue, .gameStart, .takeTurn]
  | .command (.turn ..) => [.connected, .inQueue, .turnResult, .update, .takeTurn, .gameEnd]
  | .command (.disconnect _) | .command .shutDown => [.connected, .inQueue, .gameEnd]
  | .command (.connect _) | .hangUp _ | .review => [.connected, .inQueue]

/-- An event brings about messages of its own kinds only. -/
theorem Move.ofKinds {e : Event} {h h' : Hall} {effects : List Effect}
    (hmove : Move e h effects h') : (mailOf effects).OfKinds e.kinds := by
  have hseated : [.connected] ⊆ e.kinds ∧ [.inQueue] ⊆ e.kinds := by
    unfold Event.kinds
    split <;> simp
  cases hmove with
  | welcomed _ _ _ hseat =>
      rw [mailOf_sends]
      exact (Lobby.ofKinds_seat hseat).mono hseated.1
  | queuedUp =>
      rw [mailOf_sends]
      exact (ofKinds_enqueue h _).mono hseated.2
  | promoted _ _ _ hseat =>
      rw [mailOf_sends]
      exact (Lobby.ofKinds_seat hseat).mono hseated.1
  | announced =>
      rw [mailOf_sends]
      exact (ofKinds_announceQueue h).mono hseated.2
  | left he _ hleft =>
      subst he
      rw [mailOf_append, mailOf_sends, mailOf_release, List.append_nil]
      exact hleft.ofKinds.mono (by simp [Event.kinds])
  | readied he _ hreadied =>
      subst he
      rw [mailOf_sends]
      exact hreadied.ofKinds.mono (by simp [Event.kinds])
  | turned he _ hturned =>
      subst he
      rw [mailOf_sends]
      exact hturned.ofKinds.mono (by simp [Event.kinds])
  | shut he =>
      subst he
      rw [mailOf_shutDown]
      exact (Mail.OfKinds.flatMap fun l => l.ofKinds_close).mono (by simp [Event.kinds])
  | _ => exact .nil

theorem Moves.ofKinds {e : Event} {h h' : Hall} {effects : List Effect}
    (hmoves : Moves e h effects h') : (mailOf effects).OfKinds e.kinds := by
  induction hmoves with
  | refl => exact .nil
  | step hmove _ ih =>
      rw [mailOf_append]
      exact (hmove.ofKinds.append ih).mono (by simp)

/-! ## How a lobby advances -/

/-- A lobby advances with some mail, and members hear nothing else among some effects. -/
structure Advanced (effects : List Effect) (l : Lobby) (mail : Mail) (l' : Lobby) : Prop where
  advances : l.Advances mail l'
  among_eq : ∀ ids : List ConnectionId,
    (∀ id ∈ ids, id ∈ l.members.map Peer.id ∨ id ∈ l'.members.map Peer.id) →
      (mailOf effects).among ids = mail.among ids

/-- Somebody who is a member before or after hears what the lobby says. -/
theorem Advanced.messagesTo_eq {effects : List Effect} {l l' : Lobby} {mail : Mail}
    (h : Advanced effects l mail l') {id : ConnectionId}
    (hid : id ∈ l.members.map Peer.id ∨ id ∈ l'.members.map Peer.id) :
    messagesTo effects id = mail.messagesTo id := by
  have hself := List.mem_singleton_self id
  rw [← messagesTo_mailOf, ← Mail.messagesTo_among hself, h.among_eq [id] (by simpa using hid),
    Mail.messagesTo_among hself]

/-- A lobby that talks to its members. -/
theorem Advanced.of_mail {effects : List Effect} {l l' : Lobby} {mail : Mail}
    (h : l.Advances mail l') (hmail : mailOf effects = mail) : Advanced effects l mail l' :=
  ⟨h, fun _ _ => by rw [hmail]⟩

/-- A lobby that is left alone, while others are told something. -/
theorem advanced_same {effects : List Effect} {l : Lobby}
    (hothers : ∀ e ∈ mailOf effects, e.1 ∉ l.members.map Peer.id) : Advanced effects l [] l := by
  refine ⟨.same, fun ids hids => ?_⟩
  rw [Mail.among_eq_nil fun e he hmem => ?_]
  · rfl
  · exact hothers e he ((hids e.1 hmem).elim id id)

/-- When one lobby advances the others are left alone. -/
theorem advanced_setLobby {h h' : Hall} {effects : List Effect} {n : Nat} {l l' : Lobby}
    {mail : Mail} (hl : h.lobbies[n]? = some l) (hadvances : l.Advances mail l')
    (hmail : mailOf effects = mail) (hlobbies : h'.lobbies = (h.setLobby n l').lobbies)
    (hothers : ∀ m k, m ≠ n → h.lobbies[m]? = some k → ∀ e ∈ mail, e.1 ∉ k.members.map Peer.id)
    {m : Nat} {k' : Lobby} (hk' : h'.lobbies[m]? = some k') :
    ∃ k mail', h.lobbies[m]? = some k ∧ Advanced effects k mail' k' := by
  rw [hlobbies, getElem?_setLobby hl] at hk'
  by_cases hm : m = n
  · rw [if_pos hm] at hk'
    cases hk'
    exact ⟨l, mail, hm ▸ hl, .of_mail hadvances hmail⟩
  · rw [if_neg hm] at hk'
    exact ⟨k', [], hk', advanced_same (hmail ▸ hothers m k' hm hk')⟩

/-- When somebody without a seat gets one the other lobbies are left alone. -/
theorem Sound.advanced_seat {h h' : Hall} (hs : h.Sound) {n : Nat} {l l' : Lobby} {p : Peer}
    {player : Player} {mail : Mail} (hl : h.lobbies[n]? = some l)
    (hseat : l.seat p = some (player, l', mail)) (hplayer : p.player = nobody)
    (hlistening : p.listening = true) (hnone : h.index.find? p.id = none)
    (hlobbies : h'.lobbies = (h.setLobby n l').lobbies) {m : Nat} {k' : Lobby}
    (hk' : h'.lobbies[m]? = some k') :
    ∃ k mail', h.lobbies[m]? = some k ∧ Advanced (sends mail) k mail' k' := by
  refine advanced_setLobby hl (.seated hseat hplayer hlistening (hs.not_mem_members hnone hl))
    (mailOf_sends mail) hlobbies (fun m k _ hk e he => ?_) hk'
  rw [Lobby.recipient_of_seat hseat he]
  exact hs.not_mem_members hnone hk

/-- When the hall is shut the members of a lobby hear what their own lobby says. -/
theorem Sound.advanced_shutDown {h : Hall} (hs : h.Sound) {l : Lobby} (hl : l ∈ h.lobbies) :
    Advanced h.shutDown.2 l l.close.2.2 l.emptied := by
  refine ⟨.closed, fun ids hids => ?_⟩
  have hmembers : ∀ id ∈ ids, id ∈ l.members.map Peer.id := by
    intro id hid
    rcases hids id hid with hmem | hmem
    · exact hmem
    · rw [Lobby.members_emptied] at hmem
      cases hmem
  have hnodup := hs.nodup_held
  rw [held, List.map_append] at hnodup
  have hlobbies := (List.nodup_append.1 hnodup).1
  rcases List.append_of_mem hl with ⟨before, after, hsplit⟩
  rw [hsplit, (List.perm_middle.flatMap_right _).map Peer.id |>.nodup_iff, List.flatMap_cons,
    List.map_append, List.nodup_append] at hlobbies
  -- no connection sits in two lobbies, so that the others talk to others
  have hquiet : ∀ ks : List Lobby, (∀ k ∈ ks, k ∈ before ++ after) →
      Mail.among (ks.flatMap fun k => k.close.2.2) ids = [] := by
    intro ks hks
    refine Mail.among_eq_nil fun e he hmem => ?_
    rcases List.mem_flatMap.1 he with ⟨k, hk, hek⟩
    refine hlobbies.2.2 e.1 (hmembers e.1 hmem) e.1 ?_ rfl
    rw [List.map_flatMap]
    exact List.mem_flatMap.2 ⟨k, hks k hk, Lobby.recipient_mem_close hek⟩
  rw [mailOf_shutDown, hsplit, List.flatMap_append, List.flatMap_cons, Mail.among_append,
    Mail.among_append, hquiet before fun k hk => List.mem_append_left _ hk,
    hquiet after fun k hk => List.mem_append_right _ hk, List.nil_append, List.append_nil]

/-- How a lobby advances when a hall makes a move. -/
theorem Move.advanced {e : Event} {h h' : Hall} {effects : List Effect} (hs : h.Sound)
    (hmove : Move e h effects h') {n : Nat} {l' : Lobby} (hl' : h'.lobbies[n]? = some l') :
    (∃ l mail, h.lobbies[n]? = some l ∧ Advanced effects l mail l') ∨
      h.lobbies[n]? = none ∧ l' = freshLobby h.settings n := by
  have hquiet : mailOf effects = [] → h.lobbies[n]? = some l' →
      ∃ l mail, h.lobbies[n]? = some l ∧ Advanced effects l mail l' := fun hnothing hl =>
    ⟨l', [], hl, .of_mail .same hnothing⟩
  have hwaiting : ∀ id, h.index.find? id = none → h.lobbies[n]? = some l' →
      id ∉ l'.members.map Peer.id := fun _ hnone hl => hs.not_mem_members hnone hl
  cases hmove with
  | opened =>
      rcases getElem?_opened.1 hl' with hold | ⟨rfl, rfl⟩
      · exact Or.inl (hquiet rfl hold)
      · exact Or.inr ⟨List.getElem?_eq_none le_rfl, rfl⟩
  | welcomed he hnew hl hseat =>
      exact Or.inl (hs.advanced_seat hl hseat rfl rfl (find?_eq_none_of_not_holds hnew) rfl hl')
  | @queuedUp id he hnew =>
      refine Or.inl ⟨l', [], hl', advanced_same fun e' he' => ?_⟩
      rw [mailOf_sends] at he'
      rw [Peer.tell_addressed (fun _ => .inQueue _) (Peer.new id) e' he']
      exact hwaiting id (find?_eq_none_of_not_holds hnew) hl'
  | @promoted p rest n l l₁ player mail hqueue hlistening hl hseat =>
      have hp : p ∈ h.queue := by
        rw [hqueue]
        exact List.mem_cons_self
      exact Or.inl (hs.advanced_seat hl hseat (hs.queue_plain p hp).1 hlistening
        (hs.queue_unseated p hp) rfl hl')
  | dropped => exact Or.inl (hquiet rfl hl')
  | withdrawn => exact Or.inl (hquiet rfl hl')
  | announced =>
      refine Or.inl ⟨l', [], hl', advanced_same fun e' he' => ?_⟩
      rw [mailOf_sends] at he'
      rcases mem_queue_of_announced he' with ⟨p, hp, hid, -⟩
      rw [← hid]
      exact hwaiting p.id (hs.queue_unseated p hp) hl'
  | forgotten => exact Or.inl (hquiet rfl hl')
  | left he hl hleft =>
      exact Or.inl (advanced_setLobby hl (.left hleft) (by simp) rfl
        (hs.notMem_of_mem hl fun e he => hleft.recipient_mem he) hl')
  | readied he hl hreadied =>
      exact Or.inl (advanced_setLobby hl (.readied hreadied) (mailOf_sends _) rfl
        (hs.notMem_of_mem hl fun e he => hreadied.recipient_mem he) hl')
  | turned he hl hturned =>
      exact Or.inl (advanced_setLobby hl (.turned hturned) (mailOf_sends _) rfl
        (hs.notMem_of_mem hl fun e he => hturned.recipient_mem he) hl')
  | shut =>
      rcases getElem?_shutDown.1 hl' with ⟨l, hl, rfl⟩
      exact Or.inl ⟨l, _, hl, hs.advanced_shutDown (List.mem_of_getElem? hl)⟩
  | hungUp =>
      rcases getElem?_hangUp.1 hl' with ⟨l, hl, rfl⟩
      exact Or.inl ⟨l, [], hl, .of_mail (.hungUp _) rfl⟩

/-! ## Whatever a lobby keeps -/

/-- What is true of a lobby and all that has been said, and remains so when the lobby advances. -/
structure Kept (s : Settings) (P : Lobby → List Effect → Prop) : Prop where
  /-- It is true of fresh lobbies, whatever has been said before. -/
  fresh : ∀ n log, P (freshLobby s n) log
  advance : ∀ {n : Nat} {l l' : Lobby} {log effects : List Effect} {mail : Mail},
    Lodges s n l → Advanced effects l mail l' → P l log → P l' (log ++ effects)

theorem Kept.moves {P : Lobby → List Effect → Prop} {e : Event} {h h' : Hall}
    {effects : List Effect} (hP : Kept h.settings P) (hs : h.Sound)
    (hmoves : Moves e h effects h') (log : List Effect)
    (hall : ∀ (n : Nat) (l : Lobby), h.lobbies[n]? = some l → P l log) :
    ∀ (n : Nat) (l : Lobby), h'.lobbies[n]? = some l → P l (log ++ effects) := by
  induction hmoves generalizing log with
  | refl =>
      rw [List.append_nil]
      exact hall
  | @step h h₁ h' effects effects' hmove hrest ih =>
      rw [← List.append_assoc]
      refine ih (hmove.settings_eq ▸ hP) (hs.move hmove) _ fun n l' hl' => ?_
      rcases hmove.advanced hs hl' with ⟨l, mail, hl, hadvanced⟩ | ⟨-, rfl⟩
      · exact hP.advance (hs.lodges n l hl) hadvanced (hall n l hl)
      · exact hP.fresh n _

/-- What every advance of a lobby keeps is true of all lobbies after every run in which no
connection is made twice. -/
theorem lobbies_run {s : Settings} {P : Lobby → List Effect → Prop} (hP : Kept s P) (d : Draws)
    {es : List Event} (hfresh : (arrivals es).Nodup) :
    ∀ (n : Nat) (l : Lobby), ((Hall.new s d).run es).1.lobbies[n]? = some l →
      P l ((Hall.new s d).run es).2 := by
  induction es using List.reverseRecOn with
  | nil =>
      intro n l hl
      cases hl
  | append_singleton es e ih =>
      have hbefore := nodup_arrivals_of_concat hfresh
      rw [run_concat]
      refine Kept.moves ?_ (sound_run s d hbefore) (run_moves s d hfresh) _ (ih hbefore)
      rw [settings_run s d hbefore]
      exact hP

/-! ## Whoever has a seat -/

/-- Whoever has a seat keeps it, or is held no more. -/
theorem Move.index_eq {e : Event} {h h' : Hall} {effects : List Effect} (hs : h.Sound)
    (hmove : Move e h effects h') {id : ConnectionId} {n : Nat}
    (hid : h.index.find? id = some n) : h'.index.find? id = some n ∨ ¬ h'.Holds id := by
  cases hmove with
  | @welcomed i m l l' player mail he hnew =>
      have hne : id ≠ i := by
        rintro rfl
        exact hnew (Or.inl ⟨n, hid⟩)
      refine Or.inl ?_
      change (h.index.insert i m).find? id = some n
      rw [Index.find?_insert, if_neg hne, hid]
  | @promoted p rest m l l' player mail hqueue =>
      have hne : id ≠ p.id := by
        rintro rfl
        have hp : p ∈ h.queue := by
          rw [hqueue]
          exact List.mem_cons_self
        rw [hs.queue_unseated p hp] at hid
        cases hid
      refine Or.inl ?_
      change (h.index.insert p.id m).find? id = some n
      rw [Index.find?_insert, if_neg hne, hid]
  | @left i m l l' p mail he hl hleft =>
      by_cases heq : id = i
      · exact Or.inr fun hheld => ((hs.holds_left hl hleft id).1 hheld).1 heq
      · refine Or.inl ?_
        change (h.index.remove i).find? id = some n
        rw [Index.find?_remove, if_neg heq, hid]
  | shut => exact Or.inr (not_holds_shutDown h id)
  | _ => exact Or.inl hid

end Hall

end FourInRow
