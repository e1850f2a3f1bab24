import FourInRow.Lobby.Foyer
import FourInRow.Proofs.Lobby.Numbered

/-!
# Lobbies and their foyers

Whatever happens to a lobby, in whatever order and with whoever comes in from outside, it remains
sound, and keeps its number, its seats and the size of its boards.

Main results:

- Theorem `kept_step`: every event keeps the lobby of a foyer sound.
- Theorem `kept_run_new`: whatever happens to a new lobby, it is sound afterwards.
-/

namespace FourInRow

namespace Foyer

/-! ## Event by event -/

/-- Whoever comes in bears the connection that was asked for. -/
theorem id_comer (f : Foyer) (id : ConnectionId) : (f.comer id).id = id := by
  unfold comer
  cases hfind : f.outside.find? fun p => p.id = id with
  | none => rfl
  | some p => simpa using List.find?_some hfind

/-- A peer that wants to come in keeps the lobby sound, whether it is let in or not. -/
theorem kept_enter {f : Foyer} (h : f.lobby.Sound) (id : ConnectionId) :
    (f.enter id).1.lobby.Sound ∧ Lobby.Fixed f.lobby (f.enter id).1.lobby := by
  unfold enter
  cases hmember : f.lobby.member? id with
  | some p => exact ⟨h, .refl f.lobby⟩
  | none =>
      cases hseat : f.lobby.seat (f.comer id) with
      | none => exact ⟨h, .refl f.lobby⟩
      | some r =>
          rcases r with ⟨player, l', mail⟩
          have hnew : (f.comer id).id ∉ f.lobby.members.map Peer.id := by
            rw [id_comer]
            exact Lobby.member?_eq_none_iff.1 hmember
          exact ⟨h.seat hseat hnew, .seat hseat⟩

/-- A peer that leaves keeps the lobby sound, if it was a member at all. -/
theorem kept_leave {f : Foyer} (h : f.lobby.Sound) (id : ConnectionId) :
    (f.step (.leave id)).1.lobby.Sound ∧
      Lobby.Fixed f.lobby (f.step (.leave id)).1.lobby := by
  simp only [step]
  cases hleave : f.lobby.leave id with
  | none => exact ⟨h, .refl f.lobby⟩
  | some r =>
      rcases r with ⟨p, l', mail⟩
      have hleft := Lobby.Left.of_leave hleave
      exact ⟨h.leave hleft, .leave hleft⟩

/-- Every event keeps the lobby sound, and its number, its seats and its board. -/
theorem kept_step {f : Foyer} (h : f.lobby.Sound) (e : Event) :
    (f.step e).1.lobby.Sound ∧ Lobby.Fixed f.lobby (f.step e).1.lobby := by
  cases e with
  | openDoors => exact ⟨h.openDoors, ⟨rfl, rfl, rfl, rfl⟩⟩
  | enter id => exact kept_enter h id
  | ready id =>
      have hreadied := Lobby.Readied.of_ready f.lobby f.draws id
      exact ⟨h.ready hreadied, .ready hreadied⟩
  | turn id column =>
      have hturned := Lobby.Turned.of_turn h id column
      exact ⟨h.turn hturned, .turn hturned⟩
  | leave id => exact kept_leave h id
  | close =>
      have hclose : (f.step .close).1.lobby = f.lobby.emptied := Lobby.close_lobby f.lobby
      rw [hclose]
      exact ⟨h.emptied, Lobby.fixed_emptied f.lobby⟩
  | hangUp id => exact ⟨h.hangUp id, Lobby.fixed_hangUp f.lobby id⟩

/-! ## Runs -/

/-- So does every run. -/
theorem kept_run {f : Foyer} (h : f.lobby.Sound) (es : List Event) :
    (f.run es).1.lobby.Sound ∧ Lobby.Fixed f.lobby (f.run es).1.lobby := by
  induction es generalizing f with
  | nil => exact ⟨h, .refl f.lobby⟩
  | cons e es ih =>
      rcases kept_step h e with ⟨hsound, hfixed⟩
      rcases ih hsound with ⟨hsound', hfixed'⟩
      exact ⟨hsound', hfixed.trans hfixed'⟩

/-- Whatever happens to a new lobby, it is sound afterwards, and has its number, seats and board. -/
theorem kept_run_new (number : Nat) (capacity columns rows : UInt8) (outside : List Peer)
    (draws : Draws) (es : List Event) :
    let f := ((⟨Lobby.new number capacity columns rows, outside, draws⟩ : Foyer).run es).1
    f.lobby.Sound ∧ Lobby.Fixed (Lobby.new number capacity columns rows) f.lobby :=
  kept_run (f := ⟨_, outside, draws⟩) (Lobby.sound_new number capacity columns rows) es

/-- A third peer comes in after the second one has left in the middle of a match, and the first
one is not ready any more. -/
example :
    ((new 2 7 6 []).run [.openDoors, .enter ⟨1⟩, .enter ⟨2⟩, .ready ⟨1⟩, .ready ⟨2⟩, .leave ⟨2⟩,
        .enter ⟨3⟩, .ready ⟨3⟩]).1.lobby.readied = 1 := by
  decide +kernel

end Foyer

end FourInRow
