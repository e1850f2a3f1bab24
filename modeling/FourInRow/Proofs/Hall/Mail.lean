import FourInRow.Proofs.Hall.Step

/-!
# What a hall tells a connection

The effects of a hall are sorted by recipient, as the mail of a lobby is.

Main results:

- Theorem `messagesTo_sends`: mail among effects reaches whom it is for.
-/

namespace FourInRow

namespace Hall

/-- The message that an effect brings to a connection. -/
def Effect.messageTo (id : ConnectionId) : Effect → Option Message
  | .send recipient m => if recipient = id then some m else none
  | .release _ => none

/-- The messages among some effects that are for one connection, in order. -/
def messagesTo (effects : List Effect) (id : ConnectionId) : List Message :=
  effects.filterMap (Effect.messageTo id)

@[simp] theorem messagesTo_nil (id : ConnectionId) : messagesTo [] id = [] := rfl

@[simp] theorem messagesTo_append (effects effects' : List Effect) (id : ConnectionId) :
    messagesTo (effects ++ effects') id = messagesTo effects id ++ messagesTo effects' id :=
  List.filterMap_append

@[simp] theorem messagesTo_release (id id' : ConnectionId) :
    messagesTo [.release id'] id = [] := rfl

/-- Letting connections go says nothing to anybody. -/
theorem messagesTo_releases (ps : List Peer) (id : ConnectionId) :
    messagesTo (ps.map fun p => .release p.id) id = [] := by
  simp [messagesTo, Effect.messageTo, Function.comp_def]

/-- Mail among effects reaches whom it is for. -/
@[simp] theorem messagesTo_sends (mail : Mail) (id : ConnectionId) :
    messagesTo (sends mail) id = mail.messagesTo id := by
  rw [messagesTo, sends, List.filterMap_map]
  rfl

/-! ## Mail about the queue -/

theorem ofKinds_announceQueue (h : Hall) : h.announceQueue.2.OfKinds [.inQueue] :=
  .flatMap fun e => e.1.ofKinds_tell _

theorem ofKinds_enqueue (h : Hall) (p : Peer) : (h.enqueue p).2.OfKinds [.inQueue] :=
  p.ofKinds_tell _

end Hall

end FourInRow
