import FourInRow.Proofs.Guard
import FourInRow.Proofs.Relay.Silence
import FourInRow.Settings.Basic

/-!
# Counts of missed answers

A heartbeat counts the answers that it has missed in 32 bits, and somebody is given up when the
count exceeds the limit.  A count that may exceed the limit by one fits as long as the limit is not
the largest number there is.  With the largest limit nobody is ever given up, and the count overflows
when `2 ^ 32` intervals in a row have gone by without an answer.

Main results:

- Theorem `Heeds.tickGuarded_eq`: a question can be settled if the silence before it can be counted.
- Theorem `Heeds.watchGuarded_cases`: what becomes of a watch, guarded count by count.
- Theorem `map_watchGuarded_silent`: what becomes of somebody who never answers.
- Theorem `Relay.watch_beats`: a relay watches over its client until it gives the client up.
- Theorem `count_overflows_iff`: when the count of missed answers overflows.
-/

namespace FourInRow

namespace Heartbeat

open Guard

/-! ## Watches -/

/-- A watch over a connection, which ends when the connection is given up: the account at the end,
and what became of each question. -/
def watch (h : Heartbeat) : List Event → Heartbeat × List Verdict
  | [] => (h, [])
  | .pong :: es => h.pong.watch es
  | .tick :: es =>
    match h.tick with
    | (h', .expire) => (h', [.expire])
    | (h', .ping) =>
      let (h'', more) := h'.watch es
      (h'', .ping :: more)

/-- Where nobody is given up the watch goes on. -/
theorem watch_of_ping {h : Heartbeat} (hping : h.tick.2 = .ping) (es : List Event) :
    h.watch (.tick :: es) = ((h.tick.1.watch es).1, .ping :: (h.tick.1.watch es).2) := by
  rw [watch, ← Prod.mk.eta (p := h.tick), hping]

/-- A watch of one question. -/
theorem watch_tick (h : Heartbeat) : (h.watch [.tick]).1 = h.tick.1 := by
  rw [watch, ← Prod.mk.eta (p := h.tick)]
  cases h.tick.2 <;> rfl

/-- The count of missed answers once the latest question is settled. -/
def settledGuarded (h : Heartbeat) : Except Fault UInt32 :=
  if h.asked then
    if h.answered then return 0
    else do
      let missed ← count 32 (h.missed.toNat + 1)
      return UInt32.ofNat missed
  else return h.missed

/-- Settles the latest question and asks the next one, unless too many have been missed. -/
def tickGuarded (h : Heartbeat) : Except Fault (Heartbeat × Verdict) := do
  let missed ← h.settledGuarded
  if h.limit < missed then return ({ h with missed := missed }, .expire)
  else return ({ h with missed := missed, asked := true, answered := false }, .ping)

/-- A watch over a connection.  A count that does not fit is the end of it, too. -/
def watchGuarded (h : Heartbeat) : List Event → Except Fault (Heartbeat × List Verdict)
  | [] => return (h, [])
  | .pong :: es => h.pong.watchGuarded es
  | .tick :: es => do
    match ← h.tickGuarded with
    | (h', .expire) => return (h', [.expire])
    | (h', .ping) =>
      let (h'', more) ← h'.watchGuarded es
      return (h'', .ping :: more)

/-! ## One question -/

theorem tickGuarded_of_settled {h : Heartbeat} (hsettled : h.settledGuarded = .ok h.settled) :
    h.tickGuarded = .ok h.tick := by
  rw [tickGuarded, hsettled, ok_bind, tick]
  split <;> rfl

section

variable {limit : UInt32} {past : List Event} {h : Heartbeat}

/-- A silence is one interval longer than the count at most. -/
theorem Heeds.silence_le (hh : Heeds limit past h) :
    silence (past ++ [Event.tick]) ≤ h.missed.toNat + 1 := by
  cases hh with
  | unasked hpast answered =>
      rw [silence_first hpast]
      exact Nat.zero_le _
  | asked hpause hmissed =>
      rw [silence_next _ hpause, ← hmissed]
      split
      · exact Nat.zero_le _
      · exact le_rfl

/-- A question can be settled if the silence before it can be counted. -/
theorem Heeds.tickGuarded_eq (hh : Heeds limit past h)
    (hfits : silence (past ++ [Event.tick]) < 2 ^ 32) : h.tickGuarded = .ok h.tick := by
  apply tickGuarded_of_settled
  cases hh with
  | unasked hpast answered => rfl
  | @asked before pause missed hpause hmissed =>
      by_cases hpong : Event.pong ∈ pause
      · simp [settledGuarded, settled, hpong]
      · rw [silence_next _ hpause, if_neg hpong, ← hmissed] at hfits
        simp only [settledGuarded, settled, hpong, decide_false, if_true, if_false,
          Bool.false_eq_true, count_eq_ok hfits, ok_bind, pure_eq_ok]
        rw [UInt32.ofNat_add, UInt32.ofNat_toNat]
        rfl

/-- Otherwise the count overflows. -/
theorem Heeds.tickGuarded_eq_error (hh : Heeds limit past h)
    (htop : 2 ^ 32 ≤ silence (past ++ [Event.tick])) : h.tickGuarded = .error .overflow := by
  cases hh with
  | unasked hpast answered =>
      rw [silence_first hpast] at htop
      exact absurd htop (by decide)
  | @asked before pause missed hpause hmissed =>
      by_cases hpong : Event.pong ∈ pause
      · rw [silence_next _ hpause, if_pos hpong] at htop
        exact absurd htop (by decide)
      · rw [silence_next _ hpause, if_neg hpong, ← hmissed] at htop
        have hcount : count 32 (missed.toNat + 1) = .error .overflow :=
          count_eq_error_iff.2 ⟨rfl, htop⟩
        simp [tickGuarded, settledGuarded, hpong, hcount]

end

/-! ## Whole watches -/

/-- The largest number that a count can come to. -/
theorem toNat_le_top (n : UInt32) : n.toNat ≤ 2 ^ 32 - 1 := Nat.le_sub_one_of_lt n.toNat_lt

/-- Is there a question in a course of events that finds a silence, counted from what was before
the course, too long to be counted? -/
def Outlasts (past es : List Event) : Prop :=
  ∃ before rest, es = before ++ Event.tick :: rest ∧
    2 ^ 32 ≤ silence (past ++ before ++ [Event.tick])

theorem outlasts_nil (past : List Event) : ¬ Outlasts past [] := by
  rintro ⟨before, rest, heq, -⟩
  simp at heq

/-- The first event is a question that finds such a silence, or another one does. -/
theorem outlasts_cons (past : List Event) (e : Event) (es : List Event) :
    Outlasts past (e :: es) ↔
      (e = .tick ∧ 2 ^ 32 ≤ silence (past ++ [Event.tick])) ∨ Outlasts (past ++ [e]) es := by
  constructor
  · rintro ⟨before, rest, heq, htop⟩
    cases before with
    | nil =>
        rcases List.cons.inj heq with ⟨rfl, rfl⟩
        rw [List.append_nil] at htop
        exact Or.inl ⟨rfl, htop⟩
    | cons b before =>
        rcases List.cons.inj heq with ⟨rfl, rfl⟩
        refine Or.inr ⟨before, rest, rfl, ?_⟩
        simpa using htop
  · rintro (⟨rfl, htop⟩ | ⟨before, rest, rfl, htop⟩)
    · exact ⟨[], es, rfl, by simpa using htop⟩
    · exact ⟨e :: before, rest, rfl, by simpa using htop⟩

/-- A watch under which nobody has been given up so far ends with an overflow if the limit is the
largest number and there is a silence too long to be counted, and otherwise goes as it should. -/
theorem Heeds.watchGuarded_cases {limit : UInt32} {past : List Event} {h : Heartbeat}
    (hh : Heeds limit past h) (hmissed : h.missed ≤ limit) (es : List Event) :
    (h.watchGuarded es = .error .overflow ∧ limit.toNat = 2 ^ 32 - 1 ∧ Outlasts past es) ∨
      (h.watchGuarded es = .ok (h.watch es) ∧
        (limit.toNat = 2 ^ 32 - 1 → ¬ Outlasts past es)) := by
  induction es generalizing past h with
  | nil => exact Or.inr ⟨rfl, fun _ => outlasts_nil past⟩
  | cons e es ih =>
      have hlimit := toNat_le_top limit
      have hle := UInt32.le_iff_toNat_le.1 hmissed
      cases e with
      | pong =>
          have hnext : Outlasts past (.pong :: es) ↔ Outlasts (past ++ [.pong]) es := by
            simp [outlasts_cons]
          rw [hnext]
          exact ih hh.pong hmissed
      | tick =>
          rw [outlasts_cons, watchGuarded, watch]
          by_cases hfits : silence (past ++ [Event.tick]) < 2 ^ 32
          · have hsettled := hh.settled_eq hfits
            rw [hh.tickGuarded_eq hfits, ok_bind]
            cases hverdict : h.tick.2 with
            | expire =>
                -- Nobody exceeds the largest number.
                have hlt := (tick_eq_expire_iff h).1 hverdict
                rw [hh.limit_eq, UInt32.lt_iff_toNat_lt, hsettled] at hlt
                refine Or.inr ⟨?_, fun htop => by omega⟩
                rw [← Prod.mk.eta (p := h.tick), hverdict]
                rfl
            | ping =>
                have hkept : h.tick.1.missed ≤ limit := by
                  rw [missed_tick, ← UInt32.not_lt, ← hh.limit_eq, ← tick_eq_expire_iff, hverdict]
                  decide
                have hnot : ¬ (Event.tick = .tick ∧ 2 ^ 32 ≤ silence (past ++ [Event.tick])) :=
                  fun hboth => absurd hboth.2 (not_le.2 hfits)
                rw [or_iff_right hnot, ← Prod.mk.eta (p := h.tick), hverdict]
                rcases ih (hh.tick hfits) hkept with ⟨hguarded, hrest⟩ | ⟨hguarded, hrest⟩
                · exact Or.inl ⟨by simp only [hguarded, error_bind], hrest⟩
                · exact Or.inr ⟨by simp only [hguarded, ok_bind, pure_eq_ok], hrest⟩
          · have htop := not_lt.1 hfits
            have hcount := hh.silence_le
            rw [hh.tickGuarded_eq_error htop, error_bind]
            exact Or.inl ⟨rfl, by omega, Or.inl ⟨rfl, htop⟩⟩

/-- Under a watch that has just begun. -/
theorem watchGuarded_start_cases (limit : UInt32) (es : List Event) :
    ((start limit).watchGuarded es = .error .overflow ∧
        limit.toNat = 2 ^ 32 - 1 ∧ Outlasts [] es) ∨
      ((start limit).watchGuarded es = .ok ((start limit).watch es) ∧
        (limit.toNat = 2 ^ 32 - 1 → ¬ Outlasts [] es)) := by
  have hnew : Heeds limit [] (start limit) := .unasked List.not_mem_nil false
  exact hnew.watchGuarded_cases (UInt32.le_iff_toNat_le.2 (Nat.zero_le _)) es

/-! ## Somebody who never answers -/

/-- The account of somebody who has been asked and has not answered for a while. -/
def mute (limit : UInt32) (missed : Nat) : Heartbeat := ⟨limit, UInt32.ofNat missed, true, false⟩

/-- What becomes of one more question. -/
theorem tickGuarded_mute {limit : UInt32} {missed : Nat} (hle : missed ≤ limit.toNat) :
    (mute limit missed).tickGuarded =
      if missed < limit.toNat then .ok (mute limit (missed + 1), .ping)
      else if limit.toNat < 2 ^ 32 - 1 then .ok (mute limit (missed + 1), .expire)
      else .error .overflow := by
  have hlimit := limit.toNat_lt
  have hmissed : (mute limit missed).missed.toNat = missed :=
    UInt32.toNat_ofNat_of_lt' (by simp only [UInt32.size]; omega)
  have hsettled : (mute limit missed).settledGuarded =
      (do let n ← count 32 ((mute limit missed).missed.toNat + 1); return UInt32.ofNat n) := rfl
  rw [tickGuarded, hsettled, hmissed]
  by_cases hfits : missed + 1 < 2 ^ 32
  · have hcount : (UInt32.ofNat (missed + 1)).toNat = missed + 1 :=
      UInt32.toNat_ofNat_of_lt' hfits
    have hexceeds : (mute limit missed).limit < UInt32.ofNat (missed + 1) ↔
        ¬ missed < limit.toNat := by
      rw [UInt32.lt_iff_toNat_lt, hcount, Nat.lt_succ_iff, not_lt]
      rfl
    rw [count_eq_ok hfits, ok_bind, pure_eq_ok, ok_bind]
    by_cases hmore : missed < limit.toNat
    · rw [if_neg (mt hexceeds.1 (not_not.2 hmore)), if_pos hmore]
      rfl
    · rw [if_pos (hexceeds.2 hmore), if_neg hmore, if_pos (by omega)]
      rfl
  · rw [count_eq_error_iff.2 ⟨rfl, not_lt.1 hfits⟩, if_neg (by omega), if_neg (by omega)]
    rfl

/-- A verdict comes before those of the rest of a watch. -/
theorem map_snd_cons (w : Except Fault (Heartbeat × List Verdict)) (verdict : Verdict) :
    (do let (h, more) ← w; return (h, verdict :: more)).map Prod.snd =
      (w.map Prod.snd).map (verdict :: ·) := by
  cases w <;> rfl

/-- What becomes of somebody who does not answer any more. -/
theorem map_watchGuarded_mute {limit : UInt32} (n : Nat) {missed : Nat}
    (hle : missed ≤ limit.toNat) :
    ((mute limit missed).watchGuarded (List.replicate n .tick)).map Prod.snd =
      if missed + n ≤ limit.toNat then .ok (List.replicate n .ping)
      else if limit.toNat < 2 ^ 32 - 1 then
        .ok (List.replicate (limit.toNat - missed) .ping ++ [.expire])
      else .error .overflow := by
  induction n generalizing missed with
  | zero =>
      rw [Nat.add_zero, if_pos hle]
      rfl
  | succ n ih =>
      rw [List.replicate_succ, watchGuarded, tickGuarded_mute hle]
      by_cases hmore : missed < limit.toNat
      · have hrest : limit.toNat - missed = limit.toNat - (missed + 1) + 1 := by omega
        have hcount : missed + 1 + n = missed + (n + 1) := by omega
        rw [if_pos hmore, ok_bind]
        simp only
        rw [map_snd_cons, ih (Nat.succ_le_of_lt hmore), hcount, hrest]
        split
        · rfl
        · split <;> rfl
      · obtain rfl : missed = limit.toNat := by omega
        have hbeyond : ¬ limit.toNat + (n + 1) ≤ limit.toNat := by omega
        rw [if_neg hmore, if_neg hbeyond, Nat.sub_self]
        split <;> rfl

/-- What becomes of somebody who never answers: they are given up at the second question beyond the
limit and not before, unless the limit is the largest number. -/
theorem map_watchGuarded_silent (limit : UInt32) (n : Nat) :
    ((start limit).watchGuarded (List.replicate n .tick)).map Prod.snd =
      if n < limit.toNat + 2 then .ok (List.replicate n .ping)
      else if limit.toNat < 2 ^ 32 - 1 then
        .ok (List.replicate (limit.toNat + 1) .ping ++ [.expire])
      else .error .overflow := by
  cases n with
  | zero =>
      rw [if_pos (by omega)]
      rfl
  | succ n =>
      have hfirst : (start limit).tickGuarded = .ok (mute limit 0, .ping) := by
        have hnone : ¬ limit < 0 := UInt32.not_lt_zero
        have hsettled : (start limit).settledGuarded = .ok 0 := rfl
        rw [tickGuarded, hsettled, ok_bind]
        exact if_neg hnone
      rw [List.replicate_succ, watchGuarded, hfirst, ok_bind]
      simp only
      rw [map_snd_cons, map_watchGuarded_mute n (Nat.zero_le _), Nat.zero_add, Nat.sub_zero]
      by_cases hwithin : n ≤ limit.toNat
      · rw [if_pos hwithin, if_pos (by omega)]
        rfl
      · have hbeyond : ¬ n + 1 < limit.toNat + 2 := by omega
        rw [if_neg hwithin, if_neg hbeyond]
        split <;> rfl

/-- Nobody is given up if the limit is the largest number. -/
theorem expire_notMem_watch {h : Heartbeat} (htop : h.limit.toNat = 2 ^ 32 - 1)
    (es : List Event) : .expire ∉ (h.watch es).2 := by
  induction es generalizing h with
  | nil => exact List.not_mem_nil
  | cons e es ih =>
      cases e with
      | pong => exact ih (h := h.pong) htop
      | tick =>
          have hnot : h.tick.2 ≠ .expire := by
            rw [Ne, tick_eq_expire_iff, UInt32.lt_iff_toNat_lt, htop]
            have := toNat_le_top h.settled
            omega
          cases hverdict : h.tick.2 with
          | expire => exact absurd hverdict hnot
          | ping =>
              have hlimit : h.tick.1.limit = h.limit := by
                rw [tick, apply_ite Prod.fst]
                simp only
                split <;> rfl
              rw [watch_of_ping hverdict, List.mem_cons, not_or]
              exact ⟨by decide, ih (hlimit ▸ htop)⟩

end Heartbeat

namespace Relay

/-! ## Relays watch over their clients -/

/-- A relay watches over its client until it gives the client up. -/
theorem watch_beats {r : Relay} (hrunning : r.ending = none) (es : List Event) :
    (r.heartbeat.watch (r.beats es)).1 = (r.run es).1.heartbeat := by
  induction es generalizing r with
  | nil => rfl
  | cons e es ih =>
      have hstepped := Stepped.of_step r e
      have hnoticed : r.noticed e = (r.beat? e).toList := by simp [noticed, hrunning]
      change (r.heartbeat.watch (r.noticed e ++ (r.step e).1.beats es)).1 =
        ((r.step e).1.run es).1.heartbeat
      rw [hnoticed]
      generalize r.step e = next at hstepped
      rcases next with ⟨r₁, actions⟩
      cases hstepped with
      | done hdone =>
          rw [hrunning] at hdone
          cases hdone
      | goes _ hgoes =>
          rcases hgoes.progress hrunning with ⟨more, hprogress⟩
          have hheartbeat := hprogress.heartbeat_eq
          rw [← ih hprogress.running, hheartbeat]
          cases hbeat : r.beat? e with
          | none => rfl
          | some b =>
              cases b with
              | pong => rfl
              | tick =>
                  obtain rfl := eq_tick_of_beat? hbeat
                  cases hgoes with
                  | asked halive hheld =>
                      change (r.heartbeat.watch (.tick :: _)).1 = _
                      rw [Heartbeat.watch_of_ping halive]
                      rfl
      | @ends r' why _ hends =>
          rw [beats_of_ended rfl, run_of_ended rfl, List.append_nil]
          change _ = r'.heartbeat
          rw [hends.closing.heartbeat_eq]
          cases r.beat? e with
          | none => rfl
          | some b =>
              cases b with
              | pong => rfl
              | tick => exact Heartbeat.watch_tick r.heartbeat

end Relay

namespace Heartbeat

open Guard

/-! ## When the count overflows -/

/-- The count of missed answers overflows exactly if the limit is the largest number there is and
`2 ^ 32` intervals in a row have no answer; otherwise a watch goes as it should, over any number of
questions.  Somebody who never answers is given up at the second question beyond the limit and not
before, except that with the largest limit the count overflows at that question.  The heartbeat of a
relay is that of such a watch over all that it notices. -/
theorem count_overflows_iff (limit : UInt32) :
    (∀ es, (start limit).watchGuarded es = .error .overflow ↔
      limit.toNat = 2 ^ 32 - 1 ∧ ∃ past rest, es = past ++ Event.tick :: rest ∧
        2 ^ 32 ≤ silence (past ++ [Event.tick])) ∧
    (∀ es, (start limit).watchGuarded es = .error .overflow ∨
      (start limit).watchGuarded es = .ok ((start limit).watch es)) ∧
    (∀ n, ((start limit).watchGuarded (List.replicate n .tick)).map Prod.snd =
      if n < limit.toNat + 2 then .ok (List.replicate n .ping)
      else if limit.toNat < 2 ^ 32 - 1 then
        .ok (List.replicate (limit.toNat + 1) .ping ++ [.expire])
      else .error .overflow) ∧
    ∀ id course, ((start limit).watch ((Relay.idle id limit true).beats course)).1 =
      ((Relay.idle id limit true).run course).1.heartbeat := by
  refine ⟨fun es => ?_, fun es => ?_, map_watchGuarded_silent limit, fun id course => ?_⟩
  · rcases watchGuarded_start_cases limit es with ⟨hguarded, htop, hsilent⟩ | ⟨hguarded, hnot⟩
    · exact iff_of_true hguarded ⟨htop, hsilent⟩
    · refine iff_of_false ?_ fun hboth => hnot hboth.1 hboth.2
      rw [hguarded]
      exact fun heq => nomatch heq
  · rcases watchGuarded_start_cases limit es with ⟨hguarded, -⟩ | ⟨hguarded, -⟩
    · exact Or.inl hguarded
    · exact Or.inr hguarded
  · exact Relay.watch_beats (r := Relay.idle id limit true) rfl course

/-- A server may be given the largest limit.  With that limit and no answer the count overflows at
the question at which somebody should be given up.  Left to wrap around, it starts again at zero, and
nobody is. -/
theorem overflow_of_silence :
    { Settings.default with maxMissedPings := 4294967295 }.check = .ok () ∧
      (start 4294967295).watchGuarded (List.replicate 4294967297 .tick) = .error .overflow ∧
      .expire ∉ ((start 4294967295).watch (List.replicate 4294967297 .tick)).2 := by
  have hmap := map_watchGuarded_silent 4294967295 4294967297
  rw [if_neg (by decide), if_neg (by decide)] at hmap
  refine ⟨rfl, ?_, expire_notMem_watch rfl _⟩
  cases hguarded : (start 4294967295).watchGuarded (List.replicate 4294967297 .tick) with
  | error e =>
      rw [hguarded] at hmap
      cases hmap
      rfl
  | ok w =>
      rw [hguarded] at hmap
      cases hmap

end Heartbeat

end FourInRow
