import FourInRow.Proofs.Relay.Reading

/-!
# Silent clients

A relay gives its client up exactly if the silence in what its heartbeat has noticed is longer than
the limit.  Whatever else the client sends makes no difference.

Main results:

- Theorem `exists_of_beats_eq`: whatever the heartbeat notices has come of an event.
- Theorem `expired_iff`: which clients are given up.
- Theorem `Heartbeat.silence_counted`: what becomes of each question, and how answering or silent
  clients fare.
-/

namespace FourInRow

namespace Relay

/-- What the heartbeat notices of an event, which is nothing or one thing, and nothing after the
end. -/
theorem noticed_cases (r : Relay) (e : Event) :
    r.noticed e = [] ∨ ∃ b, r.noticed e = [b] ∧ r.ending = none ∧ r.beat? e = some b := by
  by_cases hended : r.ending.isSome = true
  · exact Or.inl (if_pos hended)
  · have hnoticed : r.noticed e = (r.beat? e).toList := if_neg hended
    rw [hnoticed]
    cases hbeat : r.beat? e with
    | none => exact Or.inl rfl
    | some b => exact Or.inr ⟨b, rfl, Option.not_isSome_iff_eq_none.1 hended, rfl⟩

/-- Whatever the heartbeat of a relay notices has come of an event before the end. -/
theorem exists_of_beats_eq {r : Relay} {es : List Event} {past rest : List Heartbeat.Event}
    {b : Heartbeat.Event} (h : r.beats es = past ++ b :: rest) :
    ∃ before e later, es = before ++ e :: later ∧ r.beats before = past ∧
      (r.run before).1.ending = none ∧ (r.run before).1.beat? e = some b := by
  induction es generalizing r past with
  | nil => simp [beats] at h
  | cons e es ih =>
      rw [beats] at h
      rcases r.noticed_cases e with hnone | ⟨b', hone, hrunning, hbeat⟩
      · rw [hnone] at h
        rcases ih h with ⟨before, e', later, rfl, hbefore, hlast⟩
        exact ⟨e :: before, e', later, rfl, by rw [beats, hnone, hbefore, List.nil_append], hlast⟩
      · rw [hone] at h
        cases past with
        | nil =>
            obtain rfl := (List.cons.inj h).1
            exact ⟨[], e, es, rfl, rfl, hrunning, hbeat⟩
        | cons b₀ past =>
            rcases List.cons.inj h with ⟨rfl, hrest⟩
            rcases ih hrest with ⟨before, e', later, rfl, hbefore, hlast⟩
            exact ⟨e :: before, e', later, rfl, by rw [beats, hone, hbefore]; rfl, hlast⟩

/-- The heartbeat notices that it is time for a question, and takes nothing else for it. -/
theorem eq_tick_of_beat? {r : Relay} {e : Event} (h : r.beat? e = some .tick) : e = .tick := by
  cases e with
  | tick => rfl
  | read =>
      simp only [beat?] at h
      split at h <;> cases h
  | _ => cases h

/-- A relay gives its client up exactly if the silence in what its heartbeat has noticed is longer
than the limit. -/
theorem expired_iff (id : ConnectionId) (limit : UInt32) {es : List Event}
    (hes : ((idle id limit true).beats es).count .tick < 2 ^ 32) :
    ((idle id limit true).run es).1.ending = some .expired ↔
      limit.toNat < Heartbeat.silence ((idle id limit true).beats es) := by
  -- What a question comes to is told by the account of what has been read before it.
  have hverdict : ∀ {past}, (((idle id limit true).beats past).count .tick < 2 ^ 32) →
      (((idle id limit true).run past).1.heartbeat.tick.2 = .expire ↔
        limit.toNat <
          Heartbeat.silence ((idle id limit true).beats past ++ [Heartbeat.Event.tick])) := by
    intro past hpast
    rcases account_run id limit past with ⟨rs, haccount⟩
    rw [haccount.heartbeat_eq]
    exact (Heartbeat.verdict_after limit hpast).2
  constructor
  · intro hwhy
    rcases exists_ends rfl hwhy with ⟨past, e, rest, r', rfl, hrunning, hends⟩
    have hended : (((idle id limit true).run past).1.step e).1.ending.isSome = true := by
      rw [hends.step_eq hrunning]
      rfl
    cases hends with
    | expired hsilent =>
        have hbeats : (idle id limit true).beats (past ++ .tick :: rest) =
            (idle id limit true).beats past ++ [Heartbeat.Event.tick] := by
          rw [beats_append, beats, beats_of_ended hended, noticed, hrunning]
          rfl
        rw [hbeats] at hes ⊢
        rw [List.count_append] at hes
        exact (hverdict (by omega)).1 hsilent
  · intro hsilence
    rcases Heartbeat.exists_tick_of_silence (Nat.zero_lt_of_lt hsilence) with
      ⟨past, rest, hbeats, hlast⟩
    rcases exists_of_beats_eq hbeats with ⟨before, e, later, rfl, rfl, hrunning, hbeat⟩
    obtain rfl := eq_tick_of_beat? hbeat
    have hbefore : ((idle id limit true).beats before).count .tick < 2 ^ 32 := by
      rw [hbeats, List.count_append] at hes
      omega
    have hends : Ends _ _ _ _ := .expired ((hverdict hbefore).2 (hlast ▸ hsilence))
    rw [hends.run_eq hrunning]
    rfl

end Relay

namespace Heartbeat

/-- Where somebody is not given up they are asked. -/
theorem eq_ite_expire {verdict : Verdict} {c : Prop} [Decidable c]
    (h : verdict = .expire ↔ c) : verdict = if c then .expire else .ping := by
  by_cases hc : c
  · rw [if_pos hc, h.2 hc]
  · rw [if_neg hc]
    cases verdict with
    | ping => rfl
    | expire => exact absurd (h.1 rfl) hc

/-- At each question the count of missed answers is the number of intervals without an answer,
counted back to the last one with an answer, and somebody is given up exactly if that number exceeds
the limit.  So nobody is given up who answers in every interval, whatever else arrives at the relay,
and somebody who never does is given up from the second question beyond the limit on. -/
theorem silence_counted (limit : UInt32) {es : List Event} (hes : es.count .tick < 2 ^ 32) :
    (∀ past rest, es = past ++ Event.tick :: rest →
      ∃ h : Heartbeat, h.missed.toNat = silence (past ++ [Event.tick]) ∧
        ((start limit).history es)[past.length]? = some (h, some
          (if limit.toNat < silence (past ++ [Event.tick]) then .expire else .ping))) ∧
    ((∀ interval ∈ intervals es, Event.pong ∈ interval) →
      (∀ o ∈ (start limit).history es, o.2 ≠ some .expire) ∧
        ∀ id course, (Relay.idle id limit true).beats course = es →
          ((Relay.idle id limit true).run course).1.ending ≠ some .expired) ∧
    ((∀ interval ∈ intervals es, Event.pong ∉ interval) →
      ∀ past rest, es = past ++ Event.tick :: rest →
        (((start limit).history es)[past.length]?.bind Prod.snd = some .expire ↔
          limit.toNat + 2 ≤ (past ++ [Event.tick]).count .tick)) := by
  have hbefore : ∀ {past rest}, es = past ++ Event.tick :: rest → past.count .tick < 2 ^ 32 := by
    rintro past rest rfl
    rw [List.count_append] at hes
    omega
  refine ⟨?_, fun hanswered => ⟨?_, ?_⟩, ?_⟩
  · rintro past rest rfl
    rcases verdict_after limit (hbefore rfl) with ⟨hmissed, hexpire⟩
    refine ⟨_, hmissed, ?_⟩
    rw [getElem?_history, step, ← eq_ite_expire hexpire]
  · intro o ho
    rcases exists_of_mem_history ho with ⟨past, e, rest, rfl, rfl⟩
    cases e with
    | pong =>
        intro hwhy
        cases hwhy
    | tick =>
        have hsilence : silence (past ++ [Event.tick]) = 0 :=
          silence_of_answered fun interval hmem =>
            hanswered interval ((intervals_isPrefix past rest).subset hmem)
        intro hwhy
        have hlt := (verdict_after limit (hbefore rfl)).2.1 (Option.some.inj hwhy)
        omega
  · rintro id course rfl
    rw [Ne, Relay.expired_iff id limit hes, silence_of_answered hanswered]
    exact Nat.not_lt_zero _
  · rintro hsilent past rest rfl
    have hsilence : silence (past ++ [Event.tick]) = past.count .tick := by
      rw [silence_of_unanswered, length_intervals_concat]
      exact fun interval hmem => hsilent interval ((intervals_isPrefix past rest).subset hmem)
    rw [getElem?_history, Option.bind_some, step, Option.some_inj,
      (verdict_after limit (hbefore rfl)).2, hsilence, List.count_append, List.count_singleton_self]
    omega

/-- Answers before the first question and repeated ones, then none, with a question after the
expiry; an answer in the only interval; and nobody who answers at all. -/
theorem silence_counted_of_courses :
    let es : List Event := [.pong, .tick, .pong, .pong, .tick, .tick, .tick, .tick]
    es.count .tick < 2 ^ 32 ∧
      (∃ h : Heartbeat, h.missed.toNat = 3 ∧
        ((start 1).history es)[7]? = some (h, some .expire)) ∧
      (∀ o ∈ (start 0).history [.tick, .pong, .tick], o.2 ≠ some .expire) ∧
      ((start 1).history [.tick, .tick, .tick])[2]?.bind Prod.snd = some .expire := by
  have hanswered : ∀ interval ∈ intervals [.tick, .pong, .tick], Event.pong ∈ interval := by
    decide
  have hsilent : ∀ interval ∈ intervals [.tick, .tick, .tick], Event.pong ∉ interval := by
    decide
  refine ⟨by decide, ?_, ?_, ?_⟩
  · exact (silence_counted 1 (by decide)).1
      [.pong, .tick, .pong, .pong, .tick, .tick, .tick] [] rfl
  · exact ((silence_counted 0 (by decide)).2.1 hanswered).1
  · exact ((silence_counted 1 (by decide)).2.2 hsilent [.tick, .tick] [] rfl).2 (by decide)

end Heartbeat

end FourInRow
