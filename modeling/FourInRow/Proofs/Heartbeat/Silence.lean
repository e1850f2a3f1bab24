import FourInRow.Heartbeat
import Mathlib

/-!
# Silence

A heartbeat counts for how many intervals between its questions, back from the latest one, nothing
has been heard.  Answers before the first question count for nothing, further answers in an interval
make no difference, and an expiry does not disturb the count.

Main results:

- Theorem `silence_next`: an answered interval ends the silence, an unanswered one prolongs it.
- Theorem `Heeds.settled_eq`: what a question finds is the silence before it.
- Theorem `heeds_after`: the account is in line with the silence after any events.
- Theorem `verdict_after`: what becomes of a question after any events.
-/

namespace FourInRow

namespace Heartbeat

/-- The account of questions and answers after some events. -/
def after (h : Heartbeat) (bs : List Event) : Heartbeat := bs.foldl (fun h b => (h.step b).1) h

theorem after_append (h : Heartbeat) (bs bs' : List Event) :
    h.after (bs ++ bs') = (h.after bs).after bs' :=
  List.foldl_append

/-! ## Intervals -/

/-- What happens between each question and the next one. -/
def intervals (es : List Event) : List (List Event) := (es.splitOn .tick).tail.dropLast

/-- The number of intervals without an answer, counted back from the latest question to the last
interval that has one. -/
def silence (es : List Event) : Nat :=
  ((intervals es).rtakeWhile fun interval => Event.pong ∉ interval).length

/-- The intervals before and after a question. -/
theorem intervals_append_tick (past rest : List Event) :
    intervals (past ++ Event.tick :: rest) =
      (past.splitOn .tick).tail ++ (rest.splitOn .tick).dropLast := by
  rw [intervals, List.splitOn_append_cons_self,
    List.tail_append_of_ne_nil (List.splitOn_ne_nil _ _),
    List.dropLast_append_of_ne_nil (List.splitOn_ne_nil _ _)]

/-- The intervals up to a question. -/
theorem intervals_concat_tick (past : List Event) :
    intervals (past ++ [Event.tick]) = (past.splitOn .tick).tail := by
  rw [intervals_append_tick]
  exact List.append_nil _

/-- What follows a question does not change the intervals up to it. -/
theorem intervals_isPrefix (past rest : List Event) :
    intervals (past ++ [Event.tick]) <+: intervals (past ++ Event.tick :: rest) := by
  rw [intervals_concat_tick, intervals_append_tick]
  exact List.prefix_append _ _

/-- The questions are one more than what they cut. -/
theorem length_splitOn_tick (es : List Event) :
    (es.splitOn .tick).length = es.count .tick + 1 := by
  induction es with
  | nil => rfl
  | cons e es ih =>
      rw [List.splitOn_cons_eq_if_modifyHead]
      cases e with
      | tick => simp [ih]
      | pong => simp [ih]

/-- Before every question but the first there is an interval. -/
theorem length_intervals_concat (past : List Event) :
    (intervals (past ++ [Event.tick])).length = past.count .tick := by
  rw [intervals_concat_tick, List.length_tail, length_splitOn_tick, Nat.add_sub_cancel]

/-- A question finds no more unanswered intervals than there have been questions before. -/
theorem silence_concat_le (past : List Event) :
    silence (past ++ [Event.tick]) ≤ past.count .tick := by
  rw [← length_intervals_concat]
  exact (List.rtakeWhile_suffix _ _).length_le

/-- There is no silence before the first question. -/
theorem silence_first {past : List Event} (h : Event.tick ∉ past) :
    silence (past ++ [Event.tick]) = 0 := by
  rw [silence, intervals_concat_tick, List.splitOn_eq_singleton h]
  rfl

/-- An interval with an answer ends the silence, and one without prolongs it. -/
theorem silence_next (past : List Event) {pause : List Event} (h : Event.tick ∉ pause) :
    silence (past ++ Event.tick :: pause ++ [Event.tick]) =
      if Event.pong ∈ pause then 0 else silence (past ++ [Event.tick]) + 1 := by
  have hintervals : intervals (past ++ Event.tick :: pause ++ [Event.tick]) =
      intervals (past ++ [Event.tick]) ++ [pause] := by
    rw [intervals_concat_tick, intervals_concat_tick, List.splitOn_append_cons_self,
      List.splitOn_eq_singleton h, List.tail_append_of_ne_nil (List.splitOn_ne_nil _ _)]
  rw [silence, silence, hintervals, List.rtakeWhile_concat]
  by_cases hpong : Event.pong ∈ pause
  · simp [hpong]
  · simp [hpong]

/-- Where every interval has an answer there is no silence. -/
theorem silence_of_answered {es : List Event}
    (h : ∀ interval ∈ intervals es, Event.pong ∈ interval) : silence es = 0 := by
  rw [silence, List.length_eq_zero_iff, List.rtakeWhile_eq_nil_iff]
  intro hne
  simpa using h _ (List.getLast_mem hne)

/-- Where no interval has an answer all are silent. -/
theorem silence_of_unanswered {es : List Event}
    (h : ∀ interval ∈ intervals es, Event.pong ∉ interval) :
    silence es = (intervals es).length := by
  rw [silence, List.rtakeWhile_eq_self_iff.2]
  simpa using h

/-- Where there is silence there has been a question, and nothing after the latest one counts. -/
theorem exists_tick_of_silence {es : List Event} (h : 0 < silence es) :
    ∃ past rest, es = past ++ Event.tick :: rest ∧
      silence (past ++ [Event.tick]) = silence es := by
  by_cases hes : Event.tick ∈ es
  · -- The latest question comes first in the reverse of the events.
    rcases List.eq_append_cons_of_mem (List.mem_reverse.2 hes) with ⟨later, before, heq, hlater⟩
    have hrest : Event.tick ∉ later.reverse := mt List.mem_reverse.1 hlater
    obtain rfl : es = before.reverse ++ Event.tick :: later.reverse := by
      rw [← List.reverse_reverse es, heq, List.reverse_append, List.reverse_cons, List.append_assoc]
      rfl
    refine ⟨before.reverse, later.reverse, rfl, ?_⟩
    rw [silence, silence, intervals_concat_tick, intervals_append_tick,
      List.splitOn_eq_singleton hrest, List.dropLast_singleton, List.append_nil]
  · rw [silence, intervals, List.splitOn_eq_singleton hes] at h
    cases h

/-! ## The account -/

/-- What the account of a heartbeat looks like after some events. -/
inductive Heeds (limit : UInt32) : List Event → Heartbeat → Prop
  /-- No question has been asked. -/
  | unasked {es : List Event} (hes : Event.tick ∉ es) (answered : Bool) :
      Heeds limit es ⟨limit, 0, false, answered⟩
  /-- The latest question has found a silence, and it is known whether there was an answer since. -/
  | asked {past pause : List Event} {missed : UInt32} (hpause : Event.tick ∉ pause)
      (hmissed : missed.toNat = silence (past ++ [Event.tick])) :
      Heeds limit (past ++ Event.tick :: pause) ⟨limit, missed, true, decide (Event.pong ∈ pause)⟩

section

variable {limit : UInt32} {es : List Event} {h : Heartbeat}

theorem Heeds.limit_eq (hh : Heeds limit es h) : h.limit = limit := by
  cases hh <;> rfl

/-- An answer keeps the account in line. -/
theorem Heeds.pong (hh : Heeds limit es h) : Heeds limit (es ++ [Event.pong]) h.pong := by
  cases hh with
  | unasked hes answered => exact .unasked (by simpa using hes) true
  | @asked past pause missed hpause hmissed =>
      have hpause' : Event.tick ∉ pause ++ [Event.pong] := by simpa using hpause
      have hasked : Heeds limit _ _ := .asked hpause' hmissed
      simpa [Heartbeat.pong] using hasked

/-- What a question finds is the silence before it, if that can be counted. -/
theorem Heeds.settled_eq (hh : Heeds limit es h) (hes : silence (es ++ [Event.tick]) < 2 ^ 32) :
    h.settled.toNat = silence (es ++ [Event.tick]) := by
  cases hh with
  | unasked hes answered => exact (silence_first hes).symm
  | @asked past pause missed hpause hmissed =>
      rw [silence_next past hpause, ← hmissed] at hes ⊢
      by_cases hpong : Event.pong ∈ pause
      · simp [settled, hpong]
      · rw [if_neg hpong] at hes
        simp only [settled, hpong, decide_false, if_true, if_false, Bool.false_eq_true]
        rw [UInt32.toNat_add, UInt32.toNat_one, Nat.mod_eq_of_lt hes]

@[simp] theorem missed_tick (h : Heartbeat) : h.tick.1.missed = h.settled := by
  simp only [tick]
  split <;> rfl

/-- Somebody is given up exactly if too many answers have been missed. -/
theorem tick_eq_expire_iff (h : Heartbeat) : h.tick.2 = .expire ↔ h.limit < h.settled := by
  unfold tick
  by_cases hlt : h.limit < h.settled
  · simp [hlt]
  · simp [hlt]

/-- A question keeps the account in line.  Where somebody is given up, the question before has not
been answered, so that it makes no difference that no new one is asked. -/
theorem Heeds.tick (hh : Heeds limit es h) (hes : silence (es ++ [Event.tick]) < 2 ^ 32) :
    Heeds limit (es ++ [Event.tick]) h.tick.1 := by
  have hasked : Heeds limit (es ++ [Event.tick]) ⟨limit, h.settled, true, false⟩ :=
    .asked (List.not_mem_nil) (hh.settled_eq hes)
  suffices h.tick.1 = ⟨limit, h.settled, true, false⟩ by rwa [this]
  unfold Heartbeat.tick
  by_cases hlt : h.limit < h.settled
  · rw [if_pos hlt]
    cases hh with
    | unasked => simp [settled] at hlt
    | @asked past pause missed hpause hmissed =>
        by_cases hpong : Event.pong ∈ pause
        · simp [settled, hpong] at hlt
        · simp [hpong]
  · rw [if_neg hlt, hh.limit_eq]

end

/-- The account is in line with the silence after any events, if the questions can be counted. -/
theorem heeds_after (limit : UInt32) {es : List Event} (hes : es.count .tick ≤ 2 ^ 32) :
    Heeds limit es ((start limit).after es) := by
  induction es using List.reverseRecOn with
  | nil => exact .unasked List.not_mem_nil false
  | append_singleton es e ih =>
      rw [List.count_append] at hes
      rw [after_append]
      cases e with
      | pong => exact (ih (by simpa using hes)).pong
      | tick =>
          have hlt : es.count .tick < 2 ^ 32 := by
            rw [List.count_singleton_self] at hes
            omega
          exact (ih hlt.le).tick ((silence_concat_le es).trans_lt hlt)

/-! ## Histories -/

/-- What comes of an event in a course of events. -/
theorem getElem?_history (h : Heartbeat) (past : List Event) (e : Event) (rest : List Event) :
    (h.history (past ++ e :: rest))[past.length]? = some ((h.after past).step e) := by
  induction past generalizing h with
  | nil => rfl
  | cons b past ih => exact ih (h.step b).1

/-- Whatever is in a history has come of an event. -/
theorem exists_of_mem_history {h : Heartbeat} {es : List Event} {o : Heartbeat × Option Verdict}
    (ho : o ∈ h.history es) :
    ∃ past e rest, es = past ++ e :: rest ∧ o = (h.after past).step e := by
  induction es generalizing h with
  | nil => cases ho
  | cons b es ih =>
      rcases List.mem_cons.1 ho with rfl | ho
      · exact ⟨[], b, es, rfl, rfl⟩
      · rcases ih ho with ⟨past, e, rest, rfl, rfl⟩
        exact ⟨b :: past, e, rest, rfl, rfl⟩

/-- A question finds the silence before it, and somebody is given up exactly if that is too long. -/
theorem verdict_after (limit : UInt32) {past : List Event} (hpast : past.count .tick < 2 ^ 32) :
    ((start limit).after past).tick.1.missed.toNat = silence (past ++ [Event.tick]) ∧
      (((start limit).after past).tick.2 = .expire ↔
        limit.toNat < silence (past ++ [Event.tick])) := by
  have hh := heeds_after limit hpast.le
  rw [missed_tick, tick_eq_expire_iff, hh.limit_eq, UInt32.lt_iff_toNat_lt,
    hh.settled_eq ((silence_concat_le past).trans_lt hpast)]
  exact ⟨rfl, Iff.rfl⟩

end Heartbeat

end FourInRow
