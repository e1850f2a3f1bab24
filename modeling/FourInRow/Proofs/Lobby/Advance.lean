import FourInRow.Proofs.Lobby.Numbered

/-!
# What can happen to a lobby

A hall does only a few things to each of its lobbies.  `Lobby.Advances` lists them, each with the
mail that the lobby sends, so that a property of lobbies is kept by a hall if it is kept by each of
these.

Main results:

- Theorem `Advances.recipient_mem`: whoever is told anything is a member before or after.
- Theorem `Mail.messagesTo_among`: what a connection hears is in the mail among the members.
-/

namespace FourInRow

/-! ## Mail among some connections -/

/-- The part of some mail that is for the given connections. -/
def Mail.among (mail : Mail) (ids : List ConnectionId) : Mail := mail.filter fun e => e.1 ∈ ids

namespace Mail

@[simp] theorem among_nil (ids : List ConnectionId) : among [] ids = [] := rfl

@[simp] theorem among_append (mail mail' : Mail) (ids : List ConnectionId) :
    among (mail ++ mail') ids = among mail ids ++ among mail' ids :=
  List.filter_append ..

/-- Mail that is for the given connections only is all there. -/
theorem among_eq_self {mail : Mail} {ids : List ConnectionId} (h : ∀ e ∈ mail, e.1 ∈ ids) :
    mail.among ids = mail :=
  List.filter_eq_self.2 fun e he => decide_eq_true (h e he)

/-- Of mail that is for others nothing is there. -/
theorem among_eq_nil {mail : Mail} {ids : List ConnectionId} (h : ∀ e ∈ mail, e.1 ∉ ids) :
    mail.among ids = [] :=
  List.filter_eq_nil_iff.2 fun e he => by simpa using h e he

/-- What a connection hears is in the mail among any connections that it belongs to. -/
theorem messagesTo_among {ids : List ConnectionId} {id : ConnectionId} (hid : id ∈ ids)
    (mail : Mail) : (mail.among ids).messagesTo id = mail.messagesTo id := by
  induction mail with
  | nil => rfl
  | cons e mail ih =>
      simp only [among, messagesTo, List.filter_cons, List.filterMap_cons] at ih ⊢
      by_cases he : e.1 = id
      · simp [he, hid, ih]
      · by_cases hmem : e.1 ∈ ids
        · simp [he, hmem, ih]
        · simp [he, hmem, ih]

end Mail

namespace Lobby

/-! ## Advances -/

/-- What can happen to a lobby, with the mail that it sends then. -/
inductive Advances (l : Lobby) : Mail → Lobby → Prop
  /-- Nothing happens. -/
  | same : Advances l [] l
  /-- A newcomer that listens is seated. -/
  | seated {p : Peer} {player : Player} {l' : Lobby} {mail : Mail}
      (hseat : l.seat p = some (player, l', mail)) (hplayer : p.player = nobody)
      (hlistening : p.listening = true) (hnew : p.id ∉ l.members.map Peer.id) :
      Advances l mail l'
  /-- Somebody says ready. -/
  | readied {d d' : Draws} {id : ConnectionId} {l' : Lobby} {mail : Mail}
      (hreadied : Readied l d id l' d' mail) : Advances l mail l'
  /-- Somebody takes a turn. -/
  | turned {id : ConnectionId} {column : UInt8} {l' : Lobby} {mail : Mail}
      (hturned : Turned l id column l' mail) : Advances l mail l'
  /-- A member leaves. -/
  | left {id : ConnectionId} {p : Peer} {l' : Lobby} {mail : Mail}
      (hleft : Left l id p l' mail) : Advances l mail l'
  /-- The lobby is closed. -/
  | closed : Advances l l.close.2.2 l.emptied
  /-- A connection stops listening. -/
  | hungUp (id : ConnectionId) : Advances l [] (l.hangUp id)

/-- Whoever is told anything is a member before or after. -/
theorem Advances.recipient_mem {l l' : Lobby} {mail : Mail} (h : l.Advances mail l')
    {e : ConnectionId × Message} (he : e ∈ mail) :
    e.1 ∈ l.members.map Peer.id ∨ e.1 ∈ l'.members.map Peer.id := by
  cases h with
  | same => cases he
  | @seated p player _ _ hseat =>
      have hid : p.id ∈ l'.members.map Peer.id := by
        rw [((perm_members_seat hseat).map Peer.id).mem_iff, List.map_cons, assign_id]
        exact List.mem_cons_self
      exact Or.inr (recipient_of_seat hseat he ▸ hid)
  | readied hreadied => exact Or.inl (hreadied.recipient_mem he)
  | turned hturned => exact Or.inl (hturned.recipient_mem he)
  | left hleft => exact Or.inl (hleft.recipient_mem he)
  | closed => exact Or.inl (recipient_mem_close he)
  | hungUp => cases he

/-- Closing tells the members of the end of a match only. -/
theorem ofKinds_close (l : Lobby) : l.close.2.2.OfKinds [.gameEnd] := by
  rw [close_mail]
  split
  · exact ofKinds_endMatch l nobody
  · exact .nil

end Lobby

end FourInRow
