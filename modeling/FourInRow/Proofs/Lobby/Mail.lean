import FourInRow.Proofs.Lobby.Seats

/-!
# Who hears what

The mail of a lobby is sorted by recipient: what one connection hears of an announcement is what
was said to the member with that connection, and nobody else hears of it.  It is also sorted by
the kinds of message that can be in it.

Main results:

- Theorem `messagesTo_tellAll`: a member hears its own part of an announcement.
- Theorem `mem_of_mem_tellAll`: only members hear of it.
-/

namespace FourInRow

/-- The messages among some mail that are for one connection, in order. -/
def Mail.messagesTo (mail : Mail) (id : ConnectionId) : List Message :=
  mail.filterMap fun e => if e.1 = id then some e.2 else none

namespace Mail

@[simp] theorem messagesTo_nil (id : ConnectionId) : messagesTo [] id = [] := rfl

@[simp] theorem messagesTo_append (mail mail' : Mail) (id : ConnectionId) :
    messagesTo (mail ++ mail') id = messagesTo mail id ++ messagesTo mail' id :=
  List.filterMap_append

/-- Nobody hears what is for others. -/
theorem messagesTo_eq_nil {mail : Mail} {id : ConnectionId} (h : ∀ e ∈ mail, e.1 ≠ id) :
    messagesTo mail id = [] := by
  rw [messagesTo, List.filterMap_eq_nil_iff]
  intro e he
  rw [if_neg (h e he)]

/-- Nobody else hears what is for some connections. -/
theorem messagesTo_eq_nil_of_notMem {mail : Mail} {ids : List ConnectionId}
    (h : ∀ e ∈ mail, e.1 ∈ ids) {id : ConnectionId} (hid : id ∉ ids) : messagesTo mail id = [] :=
  messagesTo_eq_nil fun e he heq => hid (heq ▸ h e he)

/-- Whoever it is for hears all of it. -/
theorem messagesTo_eq_map {mail : Mail} {id : ConnectionId} (h : ∀ e ∈ mail, e.1 = id) :
    messagesTo mail id = mail.map Prod.snd := by
  induction mail with
  | nil => rfl
  | cons e mail ih =>
      have hrest := ih fun e' he' => h e' (List.mem_cons_of_mem e he')
      have hfirst := h e List.mem_cons_self
      simp only [messagesTo, List.filterMap_cons, hfirst, if_true, List.map_cons] at hrest ⊢
      rw [hrest]

end Mail

/-- An announcement that says to every peer only what is for it. -/
def Peer.Addressed (announce : Peer → Mail) : Prop := ∀ p, ∀ e ∈ announce p, e.1 = p.id

namespace Peer

theorem tell_addressed (m : Peer → Message) : Addressed fun p => p.tell (m p) := by
  intro p e he
  simp only [tell] at he
  split at he
  · exact congrArg Prod.fst (List.mem_singleton.1 he)
  · cases he

theorem matchBegins_addressed (players columns rows : UInt8) (first : Player) :
    Addressed fun p => p.matchBegins players columns rows first :=
  tell_addressed fun _ => _

theorem matchEnds_addressed (winner : Player) : Addressed fun p => p.matchEnds winner :=
  tell_addressed fun _ => _

theorem turnRequested_addressed (player : Player) :
    Addressed fun p => p.turnRequested player := by
  intro p e he
  simp only [turnRequested] at he
  split at he
  · exact tell_addressed (fun _ => .turnRequest player) p e he
  · cases he

theorem turnTaken_addressed (player : Player) (column : UInt8) (result : TurnResult) :
    Addressed fun p => p.turnTaken player column result := by
  intro p e he
  simp only [turnTaken] at he
  split at he
  · exact tell_addressed (fun _ => .turnResult result column) p e he
  · split at he
    · exact tell_addressed (fun _ => .update player column) p e he
    · cases he

@[simp] theorem map_snd_tell (p : Peer) (m : Message) :
    (p.tell m).map Prod.snd = if p.listening then [m] else [] := by
  unfold tell
  split <;> rfl

end Peer

namespace Lobby

/-- An announcement is for members. -/
theorem mem_of_mem_tellAll {l : Lobby} {announce : Peer → Mail}
    (haddr : Peer.Addressed announce) {e : ConnectionId × Message}
    (he : e ∈ l.tellAll announce) : e.1 ∈ l.members.map Peer.id := by
  rcases List.mem_flatMap.1 he with ⟨p, hp, hep⟩
  rw [haddr p e hep]
  exact List.mem_map_of_mem hp

/-- A member hears its own part of an announcement. -/
theorem messagesTo_tellAll {l : Lobby} {announce : Peer → Mail}
    (haddr : Peer.Addressed announce) (hnodup : (l.members.map Peer.id).Nodup) {p : Peer}
    (hp : p ∈ l.members) :
    (l.tellAll announce).messagesTo p.id = (announce p).map Prod.snd := by
  -- the members before and after this one are told other things
  rcases exists_split hnodup hp with ⟨before, after, hsplit, hother⟩
  have hall : l.tellAll announce =
      before.flatMap announce ++ (announce p ++ after.flatMap announce) := by
    simp [tellAll, hsplit]
  have hquiet : ∀ qs : List Peer, (∀ q ∈ qs, q.id ≠ p.id) →
      Mail.messagesTo (qs.flatMap announce) p.id = [] := by
    intro qs hqs
    apply Mail.messagesTo_eq_nil
    intro e he heq
    rcases List.mem_flatMap.1 he with ⟨q, hq, heq'⟩
    exact hqs q hq ((haddr q e heq').symm.trans heq)
  rw [hall, Mail.messagesTo_append, Mail.messagesTo_append,
    hquiet before fun q hq => hother q (List.mem_append_left _ hq),
    hquiet after fun q hq => hother q (List.mem_append_right _ hq),
    Mail.messagesTo_eq_map (haddr p)]
  simp

end Lobby

/-! ## Kinds of mail -/

/-- Mail in which all messages are of some kinds. -/
def Mail.OfKinds (kinds : List Wire.Kind) (mail : Mail) : Prop := ∀ e ∈ mail, e.2.kind ∈ kinds

namespace Mail

theorem OfKinds.nil {kinds : List Wire.Kind} : OfKinds kinds [] := by
  intro e he
  cases he

theorem OfKinds.mono {kinds kinds' : List Wire.Kind} {mail : Mail} (h : mail.OfKinds kinds)
    (hsub : kinds ⊆ kinds') : mail.OfKinds kinds' :=
  fun e he => hsub (h e he)

theorem OfKinds.append {kinds kinds' : List Wire.Kind} {mail mail' : Mail}
    (h : mail.OfKinds kinds) (h' : mail'.OfKinds kinds') :
    OfKinds (kinds ++ kinds') (mail ++ mail') := by
  intro e he
  rcases List.mem_append.1 he with hfirst | hrest
  · exact List.mem_append_left _ (h e hfirst)
  · exact List.mem_append_right _ (h' e hrest)

theorem OfKinds.flatMap {kinds : List Wire.Kind} {α : Type} {xs : List α} {announce : α → Mail}
    (h : ∀ x, (announce x).OfKinds kinds) : OfKinds kinds (xs.flatMap announce) := by
  intro e he
  rcases List.mem_flatMap.1 he with ⟨x, -, hx⟩
  exact h x e hx

/-- Everybody hears messages of these kinds only. -/
theorem OfKinds.kind_mem {kinds : List Wire.Kind} {mail : Mail} (h : mail.OfKinds kinds)
    {id : ConnectionId} {m : Message} (hm : m ∈ mail.messagesTo id) : m.kind ∈ kinds := by
  rcases List.mem_filterMap.1 hm with ⟨e, he, hsome⟩
  split at hsome
  · cases hsome
    exact h e he
  · cases hsome

/-- Nobody hears a message of another kind. -/
theorem OfKinds.kind_ne {kinds : List Wire.Kind} {mail : Mail} (h : mail.OfKinds kinds)
    {kind : Wire.Kind} (hkind : kind ∉ kinds) {id : ConnectionId} {m : Message}
    (hm : m ∈ mail.messagesTo id) : m.kind ≠ kind := by
  rintro rfl
  exact hkind (h.kind_mem hm)

end Mail

namespace Peer

theorem ofKinds_tell (p : Peer) (m : Message) : (p.tell m).OfKinds [m.kind] := by
  intro e he
  unfold tell at he
  split at he
  · rw [List.mem_singleton.1 he]
    exact List.mem_singleton_self _
  · cases he

theorem ofKinds_turnRequested (p : Peer) (player : Player) :
    (p.turnRequested player).OfKinds [.takeTurn] := by
  unfold turnRequested
  split
  · exact p.ofKinds_tell _
  · exact .nil

theorem ofKinds_turnTaken (p : Peer) (player : Player) (column : UInt8) (result : TurnResult) :
    (p.turnTaken player column result).OfKinds [.turnResult, .update] := by
  unfold turnTaken
  split
  · exact (p.ofKinds_tell _).mono (by simp [Message.kind])
  · split
    · exact (p.ofKinds_tell _).mono (by simp [Message.kind])
    · exact .nil

theorem ofKinds_assign (p : Peer) (player : Player) :
    (p.assign player).2.OfKinds [.connected] := by
  unfold assign
  split
  · exact .nil
  · exact ofKinds_tell _ _

end Peer

namespace Lobby

theorem ofKinds_announceTurn (l : Lobby) (player : Player) (column : UInt8)
    (result : TurnResult) :
    (l.announceTurn player column result).OfKinds [.turnResult, .update] :=
  .flatMap fun p => p.ofKinds_turnTaken player column result

theorem ofKinds_requestTurn (l : Lobby) (player : Player) :
    (l.requestTurn player).OfKinds [.takeTurn] :=
  .flatMap fun p => p.ofKinds_turnRequested player

theorem ofKinds_endMatch (l : Lobby) (winner : Player) :
    (l.endMatch winner).2.OfKinds [.gameEnd] :=
  .flatMap fun p => p.ofKinds_tell _

end Lobby

end FourInRow
