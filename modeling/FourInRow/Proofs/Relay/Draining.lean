import FourInRow.Proofs.Relay.Reading
import FourInRow.Proofs.Relay.Writing

/-!
# What is still written after the hall has let go

When the hall lets a client go, its last messages are still queued.  A relay that is left to write
them ends once they are written, however slowly the socket takes them.  It does not get there if it
finds out on the way that the hall has let go, or that a request cannot be passed on: then it ends
at once, and what has not been written is lost.

Main results:

- Theorem `run_writes`: a relay that only writes ends with everything written.
- Theorem `CutOff.exists_ends`: a relay that is cut off ends with something left to write.
- Theorem `Ends.cutOff`: a client that has not gone away loses nothing otherwise.
- Theorem `written_of_released`: what has been written in any course of events after the hall has
  let go, and when it is everything.
-/

namespace FourInRow

namespace Relay

open Message Wire

/-! ## Writing to the end -/

/-- Nothing is left to be written exactly if no record is being written and none waits. -/
theorem backlog_eq_nil_iff {r : Relay} : r.backlog = [] ↔ r.unwritten = [] ∧ r.outbox = [] := by
  rw [backlog, List.append_eq_nil_iff, stream, List.flatMap_eq_nil_iff]
  constructor
  · rintro ⟨hunwritten, houtbox⟩
    refine ⟨hunwritten, List.eq_nil_iff_forall_not_mem.2 fun m hm => ?_⟩
    exact List.cons_ne_nil _ _ (houtbox m hm)
  · rintro ⟨hunwritten, houtbox⟩
    exact ⟨hunwritten, by simp [houtbox]⟩

/-- Writing goes on as long as something is left to be written, and less is left of it. -/
theorem write_nearer {r : Relay} (hrunning : r.ending = none) (hbacklog : r.backlog ≠ [])
    {room : Nat} (hroom : 0 < room) :
    (r.step (.write room)).1.ending = none ∧
      (r.step (.write room)).1.released = r.released ∧
      (r.step (.write room)).1.backlog.length < r.backlog.length := by
  have hstepped := Stepped.of_step r (.write room)
  generalize r.step (.write room) = next at hstepped ⊢
  rcases next with ⟨r', actions⟩
  have hqueues : r.queues (.write room) = [] := by simp [queues]
  have hlength := congrArg List.length hstepped.backlog_eq
  rw [hqueues, stream, List.flatMap_nil, List.append_nil, List.length_append] at hlength
  cases hstepped with
  | done hdone =>
      rw [hrunning] at hdone
      cases hdone
  | ends _ hends =>
      cases hends with
      | drained hunwritten houtbox =>
          exact absurd (backlog_eq_nil_iff.2 ⟨hunwritten, houtbox⟩) hbacklog
  | goes _ hgoes =>
      cases hgoes with
      | rested hunwritten houtbox =>
          exact absurd (backlog_eq_nil_iff.2 ⟨hunwritten, houtbox⟩) hbacklog
      | begun hunwritten houtbox =>
          refine ⟨hrunning, rfl, ?_⟩
          rw [written_bytes, List.length_take, Record.length_bytes, Record.length] at hlength
          omega
      | written hunwritten =>
          have hpos := List.length_pos_of_ne_nil hunwritten
          refine ⟨hrunning, rfl, ?_⟩
          rw [written_bytes, List.length_take] at hlength
          omega

/-- A relay that only writes ends with everything written, however slowly. -/
theorem run_writes {r : Relay} (hrunning : r.ending = none) (hreleased : r.released = true)
    {rooms : List Nat} (hrooms : ∀ room ∈ rooms, 0 < room)
    (hlength : r.backlog.length < rooms.length) :
    (r.run (rooms.map Event.write)).1.ending = some .writeEnded ∧
      (r.run (rooms.map Event.write)).1.backlog = [] := by
  induction rooms generalizing r with
  | nil => cases hlength
  | cons room rooms ih =>
      by_cases hbacklog : r.backlog = []
      · rcases backlog_eq_nil_iff.1 hbacklog with ⟨hunwritten, houtbox⟩
        have hends : Ends (r.run []).1 (.write room) r .writeEnded :=
          .drained hunwritten houtbox hreleased
        have hrun : r.run (.write room :: rooms.map Event.write) = _ := hends.run_eq hrunning _
        rw [List.map_cons, hrun]
        exact ⟨rfl, hbacklog⟩
      · rcases write_nearer hrunning hbacklog (hrooms room List.mem_cons_self) with
          ⟨hgoes, hstill, hless⟩
        have hshorter : (r.step (.write room)).1.backlog.length < rooms.length := by
          rw [List.length_cons] at hlength
          omega
        exact ih hgoes (hstill.trans hreleased)
          (fun room' hroom' => hrooms room' (List.mem_cons_of_mem _ hroom')) hshorter

/-! ## Ending before that -/

/-- A relay is cut off that has something left to write: by the question for a sign of life, by
which it is found out that the hall has let go, or by a request that cannot be passed on. -/
inductive CutOff (r : Relay) : Event → Prop
  | tick (hbacklog : r.backlog ≠ []) : CutOff r .tick
  | request {record : Record} {rest : List UInt8} {c : Command} (hbacklog : r.backlog ≠ [])
      (hinbox : r.inbox = record.bytes ++ rest) (hrequest : record.request? r.id = some c)
      (hunreachable : r.reachable = false) : CutOff r .read

section

variable {r r' : Relay} {e : Event} {why : Ending}

/-- Ending leaves what has not been written as it is. -/
theorem Ends.backlog_eq (hends : Ends r e r' why) : r'.backlog = r.backlog := by
  cases hends <;> rfl

/-- A relay that is cut off ends with something left to write. -/
theorem CutOff.exists_ends (hcut : CutOff r e) (hreleased : r.released = true) :
    r.backlog ≠ [] ∧ ∃ r' why, Ends r e r' why := by
  cases hcut with
  | tick hbacklog =>
      cases hverdict : r.heartbeat.tick.2 with
      | expire => exact ⟨hbacklog, _, _, .expired hverdict⟩
      | ping => exact ⟨hbacklog, _, _, .released hverdict hreleased⟩
  | request hbacklog hinbox hrequest hunreachable =>
      exact ⟨hbacklog, _, _, .hallClosed hinbox hrequest hunreachable⟩

/-- A relay whose client has neither closed nor expired, and where writing has not failed, ends with
something left to write only if it is cut off. -/
theorem Ends.cutOff (hends : Ends r e r' why) (hopen : r.finished = false) (he : e ≠ .writeFails)
    (hwhy : why ≠ .expired) (hbacklog : r.backlog ≠ []) : CutOff r e := by
  cases hends with
  | hallClosed hinbox hrequest hunreachable =>
      exact .request hbacklog hinbox hrequest hunreachable
  | peerClosed hshort hfinished =>
      rw [hopen] at hfinished
      cases hfinished
  | expired hsilent => exact absurd rfl hwhy
  | released halive hreleased => exact .tick hbacklog
  | drained hunwritten houtbox hreleased =>
      exact absurd (backlog_eq_nil_iff.2 ⟨hunwritten, houtbox⟩) hbacklog
  | writeFailed => exact absurd rfl he

/-- Only the client closes the connection. -/
theorem Stepped.finished_eq {actions : List Action} (h : Stepped r e r' actions)
    (he : e ≠ .finish) : r'.finished = r.finished := by
  cases h with
  | done => rfl
  | ends _ hends => exact hends.closing.finished_eq
  | goes _ hgoes =>
      cases hgoes with
      | finished => exact absurd rfl he
      | _ => rfl

end

theorem finished_run {es : List Event} (hes : Event.finish ∉ es) (r : Relay) :
    (r.run es).1.finished = r.finished := by
  induction es generalizing r with
  | nil => rfl
  | cons e es ih =>
      rcases not_or.1 (mt List.mem_cons.2 hes) with ⟨hne, hes⟩
      exact (ih hes _).trans ((Stepped.of_step r e).finished_eq (Ne.symm hne))

/-! ## After the hall has let go -/

section

variable {r : Relay} {es : List Event}

/-- What was queued when nothing more can be has been written first of all, or still waits. -/
theorem Closed.written_append_backlog (hclosed : r.Closed) (es : List Event) :
    written (r.run es).2 ++ (r.run es).1.backlog = r.backlog := by
  rw [← backlog_run, hclosed.queued_eq]
  exact List.append_nil _

/-- A relay that goes on after the hall has let go still knows it. -/
theorem released_run (hreleased : r.released = true) (hrunning : (r.run es).1.ending = none) :
    (r.run es).1.released = true := by
  have hclosed : r.Closed := Or.inr hreleased
  rcases hclosed.run es with hended | hstill
  · rw [hrunning] at hended
    cases hended
  · exact hstill

/-- A relay that has ended after the hall has let go, and not for the client's sake, has something
left to write exactly if it was cut off. -/
theorem backlog_ne_nil_iff (hrunning : r.ending = none) (hopen : r.finished = false)
    (hreleased : r.released = true) (hfinish : Event.finish ∉ es) (hfails : Event.writeFails ∉ es)
    {why : Ending} (hwhy : (r.run es).1.ending = some why) (hexpired : why ≠ .expired) :
    (r.run es).1.backlog ≠ [] ↔
      ∃ past e rest, es = past ++ e :: rest ∧ (r.run past).1.ending = none ∧
        CutOff (r.run past).1 e := by
  constructor
  · intro hbacklog
    rcases exists_ends hrunning hwhy with ⟨past, e, rest, r', rfl, hpast, hends⟩
    have hrun := hends.run_eq hpast rest
    rw [hrun] at hbacklog
    have hopen' : (r.run past).1.finished = false := by
      rw [finished_run (fun hmem => hfinish (List.mem_append_left _ hmem)), hopen]
    refine ⟨past, e, rest, rfl, hpast, hends.cutOff hopen' ?_ hexpired ?_⟩
    · rintro rfl
      exact hfails (by simp)
    · exact hends.backlog_eq ▸ hbacklog
  · rintro ⟨past, e, rest, rfl, hpast, hcut⟩
    rcases hcut.exists_ends (released_run hreleased hpast) with ⟨hbacklog, r', why', hends⟩
    rw [hends.run_eq hpast rest]
    exact hends.backlog_eq ▸ hbacklog

/-- What is written after the hall has let a client go that neither closes the connection nor fails
to take what is written or to give signs of life, whatever else happens: what was queued, in order.
As long as the relay has not ended, writing on ends it with everything written.  If it has ended,
everything has been written exactly if it was not cut off with something left to write. -/
theorem written_of_released (hrunning : r.ending = none) (hopen : r.finished = false)
    (hfinish : Event.finish ∉ es) (hfails : Event.writeFails ∉ es) :
    written (r.run (.release :: es)).2 ++ (r.run (.release :: es)).1.backlog =
        r.unwritten ++ stream r.outbox ∧
      ((r.run (.release :: es)).1.ending = none → ∀ rooms : List Nat, (∀ room ∈ rooms, 0 < room) →
        (r.run (.release :: es)).1.backlog.length < rooms.length →
        (r.run (.release :: es ++ rooms.map Event.write)).1.ending = some .writeEnded ∧
          written (r.run (.release :: es ++ rooms.map Event.write)).2 =
            r.unwritten ++ stream r.outbox) ∧
      ∀ why, (r.run (.release :: es)).1.ending = some why → why ≠ .expired →
        (written (r.run (.release :: es)).2 = r.unwritten ++ stream r.outbox ↔
          ¬ ∃ past e rest, es = past ++ e :: rest ∧
            (r.run (.release :: past)).1.ending = none ∧
            CutOff (r.run (.release :: past)).1 e) := by
  -- The release itself writes nothing, and what is left to be written stays as it is.
  let r₀ : Relay := { r with released := true }
  have hrun : ∀ es, r.run (.release :: es) = r₀.run es := by
    intro es
    simp [run, step, act, hrunning, r₀]
  have hclosed : r₀.Closed := Or.inr rfl
  have hwritten : ∀ es, written (r₀.run es).2 ++ (r₀.run es).1.backlog =
      r.unwritten ++ stream r.outbox := hclosed.written_append_backlog
  simp only [List.cons_append, hrun]
  refine ⟨hwritten es, ?_, ?_⟩
  · intro hgoes rooms hrooms hlength
    rcases run_writes hgoes (released_run rfl hgoes) hrooms hlength with ⟨hwhy, hbacklog⟩
    have hall := hwritten (es ++ rooms.map Event.write)
    rw [run_append] at hall ⊢
    rw [show ((r₀.run es).1.run _).1.backlog = [] from hbacklog, List.append_nil] at hall
    exact ⟨hwhy, hall⟩
  · intro why hwhy hexpired
    have hcut := backlog_ne_nil_iff (r := r₀) hrunning hopen rfl hfinish hfails hwhy hexpired
    rw [← hcut, not_not, ← hwritten es]
    exact List.self_eq_append_right

end

/-- A client that is told of the end of its match takes the message byte by byte, and hears all of
it unless a question comes in between. -/
theorem written_of_released_of_gameEnd :
    let r := ((idle ⟨5⟩ 3 true).run [.post (.gameEnd 0)]).1
    (r.run ([Event.release, .write 5] ++ (List.replicate 18 1).map Event.write)).1.ending =
        some .writeEnded ∧
      written (r.run ([Event.release, .write 5] ++ (List.replicate 18 1).map Event.write)).2 =
        stream [.gameEnd 0] ∧
      written (r.run [.release, .write 5, .tick]).2 ≠ stream [.gameEnd 0] := by
  intro r
  have hrunning : r.ending = none := rfl
  have hopen : r.finished = false := rfl
  have hslow : Event.finish ∉ [.write 5] ∧ Event.writeFails ∉ [.write 5] := by decide
  have hasked : Event.finish ∉ [.write 5, .tick] ∧ Event.writeFails ∉ [.write 5, .tick] := by
    decide
  rcases (written_of_released hrunning hopen hslow.1 hslow.2).2.1 rfl (List.replicate 18 1)
    (by decide) (by decide) with ⟨hwhy, hall⟩
  refine ⟨hwhy, hall, fun hwritten => ?_⟩
  exact ((written_of_released hrunning hopen hasked.1 hasked.2).2.2 .released (by decide)
    (by decide)).1 hwritten ⟨[.write 5], .tick, [], rfl, by decide, .tick (by decide)⟩

/-- The same client loses all of the message but its first bytes if the question comes first. -/
theorem cut_short_of_released :
    let r := ((idle ⟨5⟩ 3 true).run [.post (.gameEnd 0)]).1
    r.outbox = [.gameEnd 0] ∧ r.ending = none ∧ r.finished = false ∧
      (r.run [.release, .write 5, .tick]).1.ending = some .released ∧
      written (r.run [.release, .write 5, .tick]).2 = (stream [.gameEnd 0]).take 5 ∧
      written (r.run [.release, .write 5, .tick]).2 ≠ stream [.gameEnd 0] := by
  decide

end Relay

end FourInRow
