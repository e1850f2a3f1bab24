import FourInRow.Proofs.Relay.Outcome

/-!
# What a relay writes

A relay writes the messages that were queued for its client, record by record and in the order in
which they were queued.  Those are the messages of the hall, up to the point where it lets go, and
the questions for a sign of life.

Main results:

- Theorem `backlog_run`: what was queued has been written, or still waits.
- Theorem `queued_posts`: but for the questions, what was queued is what the hall has posted.
-/

namespace FourInRow

/-- Messages but for the questions for a sign of life. -/
def Message.withoutPings (ms : List Message) : List Message := ms.filter fun m => m ≠ .ping

@[simp] theorem Message.withoutPings_append (ms ms' : List Message) :
    withoutPings (ms ++ ms') = withoutPings ms ++ withoutPings ms' :=
  List.filter_append ..

namespace Relay

open Message Wire

/-! ## What is queued -/

/-- The messages that an event puts into the outbox of a relay. -/
def queues (r : Relay) (e : Event) : List Message :=
  if r.ending.isSome then []
  else
    match e with
    | .post m => if r.released then [] else [m]
    | .tick => if r.heartbeat.tick.2 = .ping ∧ r.released = false then [.ping] else []
    | _ => []

/-- The messages that are put into the outbox of a relay in a course of events. -/
def queued (r : Relay) : List Event → List Message
  | [] => []
  | e :: es => r.queues e ++ (r.step e).1.queued es

/-- The bytes that are still to be written. -/
def backlog (r : Relay) : List UInt8 := r.unwritten ++ stream r.outbox

/-- What waits or is queued by a step is written or waits after it. -/
theorem Stepped.backlog_eq {r r' : Relay} {e : Event} {actions : List Action}
    (h : Stepped r e r' actions) :
    r.backlog ++ stream (r.queues e) = written actions ++ r'.backlog := by
  cases h with
  | done hdone => simp [queues, hdone, stream, written]
  | ends hrunning hends =>
      rw [written_finishWith]
      cases hends with
      | expired hsilent => simp [queues, hrunning, hsilent, stream, finishWith, backlog]
      | released halive hreleased =>
          simp [queues, hrunning, hreleased, stream, finishWith, backlog]
      | _ => simp [queues, hrunning, stream, finishWith, backlog]
  | goes hrunning hgoes =>
      cases hgoes with
      | asked halive hheld =>
          simp [queues, hrunning, halive, hheld, backlog, written, stream_append]
      | posted hheld => simp [queues, hrunning, hheld, backlog, written, stream_append]
      | ignored hreleased => simp [queues, hrunning, hreleased, backlog, written, stream]
      | begun hunwritten houtbox =>
          simp [queues, hrunning, backlog, written, hunwritten, houtbox, stream,
            ← List.append_assoc, List.take_append_drop]
      | written hunwritten =>
          simp [queues, hrunning, backlog, Relay.written, stream, ← List.append_assoc,
            List.take_append_drop]
      | _ => simp [queues, hrunning, backlog, written, stream]

/-- What waited or was queued has been written, or still waits. -/
theorem backlog_run (r : Relay) (es : List Event) :
    r.backlog ++ stream (r.queued es) = written (r.run es).2 ++ (r.run es).1.backlog := by
  induction es generalizing r with
  | nil => simp [queued, run, stream, written]
  | cons e es ih =>
      simp only [queued, run, written_append]
      rw [stream_append, ← List.append_assoc, (Stepped.of_step r e).backlog_eq, List.append_assoc, ih,
        List.append_assoc]

/-! ## Who has queued it -/

/-- The message that the hall posts by an event. -/
def Event.post? : Event → Option Message
  | .post m => some m
  | _ => none

/-- The messages that the hall posts in a course of events. -/
def posts (es : List Event) : List Message := es.filterMap Event.post?

/-- Nothing can be queued any more. -/
def Closed (r : Relay) : Prop := r.ending.isSome = true ∨ r.released = true

/-- What is closed remains so. -/
theorem Stepped.closed {r r' : Relay} {e : Event} {actions : List Action}
    (h : Stepped r e r' actions) (hclosed : r.Closed) : r'.Closed := by
  cases h with
  | done hdone => exact hclosed
  | ends hrunning hends => exact Or.inl rfl
  | goes hrunning hgoes =>
      have hreleased : r.released = true := by
        rcases hclosed with hended | hreleased
        · rw [hrunning] at hended
          cases hended
        · exact hreleased
      cases hgoes with
      | letGo => exact Or.inr rfl
      | _ => exact Or.inr hreleased

theorem Closed.run {r : Relay} (h : r.Closed) (es : List Event) : (r.run es).1.Closed := by
  induction es generalizing r with
  | nil => exact h
  | cons e es ih => exact ih ((Stepped.of_step r e).closed h)

/-- Nothing is queued where nothing can be. -/
theorem Closed.queued_eq {r : Relay} (h : r.Closed) (es : List Event) : r.queued es = [] := by
  induction es generalizing r with
  | nil => rfl
  | cons e es ih =>
      have hnone : r.queues e = [] := by
        rcases h with hended | hreleased
        · simp [queues, hended]
        · cases e with
          | _ => simp [queues, hreleased]
      rw [queued, hnone, ih ((Stepped.of_step r e).closed h)]
      rfl

/-- As long as something can be queued, all that the hall posts is, and nothing else but
questions. -/
theorem withoutPings_queues {r : Relay} (h : ¬ r.Closed) (e : Event) :
    withoutPings (r.queues e) = withoutPings e.post?.toList := by
  rcases not_or.1 h with ⟨hrunning, hheld⟩
  cases e with
  | post m => simp [queues, hrunning, hheld, Event.post?]
  | tick =>
      cases hverdict : r.heartbeat.tick.2 with
      | _ => simp [queues, hrunning, hheld, hverdict, Event.post?, withoutPings]
  | _ => simp [queues, hrunning, Event.post?]

/-- But for the questions, what was queued is what the hall has posted up to some point, and all of
it if something can still be queued. -/
theorem queued_posts (r : Relay) (es : List Event) :
    withoutPings (r.queued es) <+: withoutPings (posts es) ∧
      (¬ (r.run es).1.Closed → withoutPings (r.queued es) = withoutPings (posts es)) := by
  induction es generalizing r with
  | nil => exact ⟨List.prefix_refl _, fun _ => rfl⟩
  | cons e es ih =>
      by_cases hclosed : r.Closed
      · rw [hclosed.queued_eq]
        exact ⟨List.nil_prefix, fun hopen => absurd (hclosed.run _) hopen⟩
      · have hposts : posts (e :: es) = e.post?.toList ++ posts es := by
          cases e with
          | _ => rfl
        rcases ih (r.step e).1 with ⟨hfirst, hall⟩
        rw [queued, hposts, withoutPings_append, withoutPings_append, withoutPings_queues hclosed]
        exact ⟨(List.prefix_append_right_inj _).2 hfirst, fun hopen => by rw [hall hopen]⟩

end Relay

end FourInRow
