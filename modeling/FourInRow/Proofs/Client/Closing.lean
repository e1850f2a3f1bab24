import FourInRow.Proofs.Client.Reading

/-!
# Reading to the end of a stream

The server may end its stream anywhere, in the middle of a record too, and whatever bytes it has
sent before.  A client that goes on looking for messages is shown every whole record but the
questions for a sign of life, one at a time and in order, those that carry no message included, and
then that the stream has ended.

A server that has ended its stream may still listen: then the client reads as it does before, and
has only nothing to wait for.  If the server is gone altogether questions cannot be answered any
more, and the first of them ends the call that comes upon it.

Main results:

- Theorem `Looks.shown_eq`: what a single call shows.
- Theorem `hears_calls`: what several calls show.
- Theorem `accounts_at_end`: what a client has been shown, sent and noted after any number of calls.
-/

namespace FourInRow

open Wire

/-- What the owner of a client is shown of a record: the message, or that there is none.  Questions
for a sign of life are kept from it. -/
def Wire.Record.shown? (record : Record) : Option Client.Reading :=
  match Message.decode record with
  | .ok .ping => none
  | .ok m => some (.message m)
  | .error e => some (.malformed e)

namespace Client

/-- What comes of looking for the next message where the server has ended its stream: there is
nothing to wait for. -/
def Reading.atEnd : Reading → Reading
  | .waiting => .endOfStream
  | reading => reading

/-- What has come of those calls that wait no longer. -/
def returned (readings : List Reading) : List Reading :=
  readings.filter fun reading => reading ≠ .waiting

theorem returned_append (readings readings' : List Reading) :
    returned (readings ++ readings') = returned readings ++ returned readings' :=
  List.filter_append ..

/-! ## A single call -/

/-- A call that does not fail shows the last one of the records that it has read, or has read all
there is. -/
theorem Looks.shown_eq {c c' : Client} {rs : List Record} {reading : Reading}
    {sent : List Message} (h : Looks c rs c' reading sent) (hunbroken : reading ≠ .brokenPipe) :
    rs.filterMap Record.shown? = [reading] ∧ reading.atEnd = reading ∧ reading ≠ .waiting ∨
      rs.filterMap Record.shown? = [] ∧ c'.inbox.length < Record.length ∧
        reading = if c.severed then .endOfStream else .waiting := by
  induction h with
  | waited hshort => exact Or.inr ⟨rfl, hshort, rfl⟩
  | malformed _ hdecode =>
      refine Or.inl ⟨?_, rfl, by simp⟩
      simp [Record.shown?, hdecode]
  | broken => exact absurd rfl hunbroken
  | @message _ _ _ m _ hdecode hping =>
      refine Or.inl ⟨?_, rfl, by simp⟩
      cases m with
      | ping => exact absurd rfl hping
      | _ => simp [Record.shown?, hdecode]
  | @answered _ _ record _ _ _ _ _ hping _ _ ih =>
      have hnone : record.shown? = none := by
        simp [Record.shown?, show Message.decode record = .ok .ping from hping]
      rw [List.filterMap_cons_none hnone]
      exact ih hunbroken

/-- A call that fails has come upon a question, and reads nothing after it. -/
theorem Looks.exists_ping {c c' : Client} {rs : List Record} {sent : List Message}
    (h : Looks c rs c' .brokenPipe sent) (hsevered : c.severed = true) :
    ∃ record, rs = [record] ∧ record.IsPing := by
  generalize hreading : Reading.brokenPipe = reading at h
  cases h with
  | waited =>
      rw [if_pos hsevered] at hreading
      cases hreading
  | malformed => cases hreading
  | @broken _ record _ _ hping => exact ⟨record, rfl, hping⟩
  | message => cases hreading
  | answered _ _ hopen => exact absurd (hopen.symm.trans hsevered) Bool.false_ne_true

/-! ## Before the end -/

/-- As long as the server is there no call fails. -/
theorem Hears.unbroken {c c' : Client} {es : List Event} {readings : List Reading}
    {sent : List Message} {rs : List Record} (h : Hears c c' es readings sent rs)
    (hopen : c.severed = false) (hes : .sever ∉ es) : .brokenPipe ∉ readings := by
  intro hbroken
  rcases h.severed_iff.1 (h.broken hbroken) with hsevered | hsever
  · exact Bool.false_ne_true (hopen.symm.trans hsevered)
  · exact hes hsever

/-- As long as the server is there a call shows what it has read, or waits and has read no more
than questions. -/
theorem hears_step_open {c : Client} (hopen : c.severed = false) {e : Event} (he : e ≠ .sever) :
    ∃ rs, Hears c (c.step e).1 [e] (c.step e).2.1 (c.step e).2.2 rs ∧
      returned (c.step e).2.1 = rs.filterMap Record.shown? := by
  by_cases hnext : e = .next
  · subst hnext
    rcases looks_next c with ⟨rs, hlooks⟩
    refine ⟨rs, hlooks.hears, ?_⟩
    have hunbroken := hlooks.hears.unbroken hopen (by simp)
    rcases hlooks.shown_eq fun h => hunbroken (h ▸ List.mem_singleton_self _) with
      ⟨hshown, -, hwaits⟩ | ⟨hshown, -, hwaits⟩
    · rw [hshown]
      simp [step, returned, hwaits]
    · rw [hopen] at hwaits
      rw [hshown]
      simp [step, returned, hwaits]
  · refine ⟨[], hears_unread c hnext, ?_⟩
    cases e with
    | next => exact absurd rfl hnext
    | _ => rfl

/-- As long as the server is there the calls that wait no longer have shown what has been read. -/
theorem hears_run_open {c : Client} (hopen : c.severed = false) {es : List Event}
    (hes : .sever ∉ es) :
    ∃ rs, Hears c (c.run es).1 es (c.run es).2.1 (c.run es).2.2 rs ∧
      returned (c.run es).2.1 = rs.filterMap Record.shown? := by
  induction es generalizing c with
  | nil => exact ⟨[], .refl c, rfl⟩
  | cons e es ih =>
      rcases not_or.1 (List.mem_cons.not.1 hes) with ⟨he, hrest⟩
      rcases hears_step_open hopen (Ne.symm he) with ⟨rs, hhears, hshown⟩
      have hopen' : (c.step e).1.severed = false := by
        rw [Bool.eq_false_iff, ne_eq, hhears.severed_iff, List.mem_singleton, hopen]
        simpa using he
      rcases ih hopen' hrest with ⟨rs', hhears', hshown'⟩
      refine ⟨rs ++ rs', hhears.trans hhears', ?_⟩
      rw [List.filterMap_append, ← hshown, ← hshown', ← returned_append]
      rfl

/-! ## At the end -/

/-- Nothing comes by looking for messages. -/
theorem heard_replicate_next (n : Nat) : heard (List.replicate n .next) = [] :=
  List.flatMap_eq_nil_iff.2 fun e he => by rw [List.eq_of_mem_replicate he]; rfl

/-- Where no whole record is left, and nothing comes, none is read. -/
theorem Hears.eq_nil_of_short {c c' : Client} {es : List Event} {readings : List Reading}
    {sent : List Message} {rs : List Record} (h : Hears c c' es readings sent rs)
    (hshort : c.inbox.length < Record.length) (hes : heard es = []) :
    rs = [] ∧ c'.inbox = c.inbox := by
  have hinbox := h.inbox_eq
  rw [hes, List.append_nil] at hinbox
  have hlength := congrArg List.length hinbox
  rw [List.length_append, Record.length_flatMap] at hlength
  have hnil : rs = [] := by
    rw [← List.length_eq_zero_iff]
    by_contra hpos
    have := Nat.le_mul_of_pos_right Record.length (Nat.pos_of_ne_zero hpos)
    omega
  subst hnil
  exact ⟨rfl, hinbox.symm⟩

/-- Several looks for the next message, one after another. -/
def calls (c : Client) (n : Nat) : Client × List Reading × List Message :=
  c.run (List.replicate n .next)

/-- Every call comes to something. -/
theorem length_calls (c : Client) (n : Nat) : (c.calls n).2.1.length = n := by
  induction n generalizing c with
  | zero => rfl
  | succ n ih => exact congrArg (· + 1) (ih c.next.1)

/-- What several calls show at the end of a stream, as long as none of them fails: what they have
read, and when there is no more to be read, that the stream has ended. -/
theorem hears_calls {c : Client} {n : Nat} (hunbroken : .brokenPipe ∉ (c.calls n).2.1) :
    ∃ rs k, Hears c (c.calls n).1 (List.replicate n .next) (c.calls n).2.1 (c.calls n).2.2 rs ∧
      (c.calls n).2.1.map Reading.atEnd =
        rs.filterMap Record.shown? ++ List.replicate k .endOfStream ∧
      (k ≠ 0 → (c.calls n).1.inbox.length < Record.length) := by
  induction n generalizing c with
  | zero => exact ⟨[], 0, .refl c, rfl, fun h => absurd rfl h⟩
  | succ n ih =>
      rcases not_or.1 (List.mem_cons.not.1 hunbroken) with ⟨hfirst, hrest⟩
      rcases looks_next c with ⟨rs, hlooks⟩
      rcases ih hrest with ⟨rs', k, hhears, hresults, hend⟩
      have htrans := hlooks.hears.trans hhears
      rcases hlooks.shown_eq (Ne.symm hfirst) with
        ⟨hshown, hatEnd, -⟩ | ⟨hshown, hshort, hreading⟩
      · refine ⟨rs ++ rs', k, htrans, ?_, hend⟩
        rw [List.filterMap_append, List.append_assoc, ← hresults, hshown]
        exact congrArg (· :: _) hatEnd
      · -- this call and all after it find nothing left
        rcases hhears.eq_nil_of_short hshort (heard_replicate_next n) with ⟨rfl, hinbox⟩
        refine ⟨rs ++ [], k + 1, htrans, ?_, fun _ => ?_⟩
        · have hatEnd : c.next.2.1.atEnd = .endOfStream := by
            rw [hreading]
            cases c.severed <;> rfl
          rw [List.append_nil, hshown, List.replicate_succ]
          exact congrArg₂ List.cons hatEnd hresults
        · rw [← hinbox] at hshort
          exact hshort

/-- Where the server is gone no call waits. -/
theorem map_atEnd_calls {c : Client} (hsevered : c.severed = true) (n : Nat) :
    (c.calls n).2.1.map Reading.atEnd = (c.calls n).2.1 := by
  induction n generalizing c with
  | zero => rfl
  | succ n ih =>
      rcases looks_next c with ⟨rs, hlooks⟩
      have hsevered' : c.next.1.severed = true := hlooks.hears.severed_iff.2 (Or.inl hsevered)
      have hfirst : c.next.2.1.atEnd = c.next.2.1 := by
        by_cases hbroken : c.next.2.1 = .brokenPipe
        · rw [hbroken]
          rfl
        · rcases hlooks.shown_eq hbroken with ⟨-, hatEnd, -⟩ | ⟨-, -, hreading⟩
          · exact hatEnd
          · rw [hreading, hsevered]
            rfl
      exact congrArg₂ List.cons hfirst (ih hsevered')

/-- How a client stands that has read some of the records of a stream. -/
structure Accounts (stream : List UInt8) (read : List Record) (c : Client)
    (results : List Reading) (sent : List Message) : Prop where
  /-- The others are still to be read. -/
  records_eq : (Record.cut stream).1 = read ++ (Record.cut c.inbox).1
  /-- It has been shown all that it has read but the questions, in order, and after that, when
  there was nothing left, that the stream had ended. -/
  results_eq : ∃ k, results = read.filterMap Record.shown? ++ List.replicate k .endOfStream ∧
    (k ≠ 0 → (Record.cut c.inbox).1 = [])
  /-- It has answered every question that it has read, once. -/
  answers_eq : sent.count .pong = read.countP fun record => record.IsPing
  /-- It bears the number that it was given last, or none. -/
  player_eq : c.player = Message.seatAfter nobody (read.filterMap Record.told?)

/-- What has come to a new client begins with the records that it has read. -/
theorem Hears.cut_eq {c : Client} {es : List Event} {readings : List Reading}
    {sent : List Message} {rs : List Record} (h : Hears new c es readings sent rs) :
    (Record.cut (heard es)).1 = rs ++ (Record.cut c.inbox).1 := by
  have hinbox : heard es = rs.flatMap Record.bytes ++ c.inbox := h.inbox_eq
  rw [hinbox, Record.cut_flatMap]

/-- The account of a new client, as long as it has not failed and goes on without failing. -/
theorem Hears.accounts_calls {c : Client} {es : List Event} {readings : List Reading}
    {sent : List Message} {rs : List Record} (h : Hears new c es readings sent rs)
    (hshown : returned readings = rs.filterMap Record.shown?) (hbefore : .brokenPipe ∉ readings)
    {n : Nat} (hunbroken : .brokenPipe ∉ (c.calls n).2.1) :
    ∃ read, Accounts (heard es) read (c.calls n).1
      (returned readings ++ (c.calls n).2.1.map Reading.atEnd) (sent ++ (c.calls n).2.2) := by
  rcases hears_calls hunbroken with ⟨rs', k, hhears, hresults, hend⟩
  have hall := h.trans hhears
  have hheard : heard (es ++ List.replicate n .next) = heard es := by
    rw [heard_append, heard_replicate_next, List.append_nil]
  refine ⟨rs ++ rs', ?_, ⟨k, ?_, fun hk => ?_⟩, ?_, ?_⟩
  · rw [← hheard]
    exact hall.cut_eq
  · rw [hshown, hresults, List.filterMap_append, List.append_assoc]
  · rw [Record.cut_of_short (hend hk)]
  · have hnone : (readings ++ (c.calls n).2.1).count .brokenPipe = 0 :=
      List.count_eq_zero.2 fun hmem => (List.mem_append.1 hmem).elim hbefore hunbroken
    have hanswers := hall.answers_eq
    rwa [hnone, Nat.add_zero] at hanswers
  · rw [hall.player_eq, hall.messages_eq]
    rfl

/-- The last one of several calls. -/
theorem calls_succ (c : Client) (n : Nat) :
    c.calls (n + 1) = ((c.calls n).1.next.1, (c.calls n).2.1 ++ [(c.calls n).1.next.2.1],
      (c.calls n).2.2 ++ (c.calls n).1.next.2.2) := by
  rw [calls, List.replicate_succ', run_append]
  simp [calls, run, step]

/-- Where the last call has failed the last record that has been read is a question. -/
theorem Hears.exists_ping_of_calls {c : Client} {es : List Event} {readings : List Reading}
    {sent : List Message} {rs : List Record} (h : Hears new c es readings sent rs)
    (hsevered : c.severed = true) {n : Nat}
    (hlast : (c.calls n).2.1.getLast? = some .brokenPipe) :
    ∃ read ping, ping.IsPing ∧
      (Record.cut (heard es)).1 = read ++ ping :: (Record.cut (c.calls n).1.inbox).1 := by
  cases n with
  | zero => cases hlast
  | succ n =>
      rw [calls_succ] at hlast ⊢
      rw [List.getLast?_concat, Option.some.injEq] at hlast
      rcases hears_run c (List.replicate n .next) with ⟨rs', hhears⟩
      rcases looks_next (c.calls n).1 with ⟨rs'', hlooks⟩
      have hsevered' : (c.calls n).1.severed = true := hhears.severed_iff.2 (Or.inl hsevered)
      have hall := (h.trans hhears).trans hlooks.hears
      rw [hlast] at hlooks
      rcases hlooks.exists_ping hsevered' with ⟨ping, rfl, hping⟩
      have hheard : heard (es ++ List.replicate n .next ++ [.next]) = heard es := by
        rw [List.append_assoc, ← List.replicate_succ', heard_append, heard_replicate_next,
          List.append_nil]
      refine ⟨rs ++ rs', ping, hping, ?_⟩
      rw [← hheard, hall.cut_eq, List.append_assoc _ [ping], List.singleton_append]

/-- Whatever bytes have come to a client, in whatever pieces, and however often it has looked for
messages meanwhile: if the server ends its stream and still listens, any number of further calls
shows the records one after another, the questions excepted, and then the end, again and again.  All
the time the questions that have been read are the ones that have been answered, and the number that
the client bears is the one that it has read last.  The same holds if the server is gone, as long as
no question is left to be answered; the call that comes upon one fails, and has not looked at
anything after it. -/
theorem accounts_at_end {es : List Event} (hes : .sever ∉ es) (n : Nat) :
    let c := (new.run es).1
    let shown := returned (new.run es).2.1
    let sent := (new.run es).2.2
    let heeded := c.calls n
    let alone := c.sever.calls n
    heeded.2.1.length = n ∧
      (∃ read, Accounts (heard es) read heeded.1 (shown ++ heeded.2.1.map Reading.atEnd)
        (sent ++ heeded.2.2)) ∧
      (.brokenPipe ∉ alone.2.1 →
        ∃ read, Accounts (heard es) read alone.1 (shown ++ alone.2.1) (sent ++ alone.2.2)) ∧
      (alone.2.1.getLast? = some .brokenPipe →
        ∃ read ping, ping.IsPing ∧
          (Record.cut (heard es)).1 = read ++ ping :: (Record.cut alone.1.inbox).1) := by
  intro c shown sent heeded alone
  rcases hears_run_open (c := new) rfl hes with ⟨rs, hhears, hshown⟩
  have hopen : c.severed = false := by
    rw [Bool.eq_false_iff, ne_eq, hhears.severed_iff]
    exact fun h => h.elim Bool.false_ne_true hes
  have hunbroken := hhears.unbroken rfl hes
  have hsevered : Hears new c.sever (es ++ [.sever]) (new.run es).2.1 sent rs := by
    simpa [step] using hhears.trans (hears_unread c (e := .sever) (by simp))
  have hheard : heard (es ++ [.sever]) = heard es := by
    rw [heard_append]
    exact List.append_nil _
  refine ⟨c.length_calls n, ?_, fun halone => ?_, fun hlast => ?_⟩
  · refine hhears.accounts_calls hshown hunbroken ?_
    rcases hears_run c (List.replicate n .next) with ⟨rs', hcalls⟩
    exact hcalls.unbroken hopen (by simp [List.mem_replicate])
  · have haccounts := hsevered.accounts_calls hshown hunbroken halone
    rwa [hheard, map_atEnd_calls rfl] at haccounts
  · rw [← hheard]
    exact hsevered.exists_ping_of_calls rfl hlast

/-- A question, a number, a record that carries no message, another question, the end of a match and
a record that is cut short.  The client looks for messages once before all has come, and four times
afterwards; if the server does not listen any more it fails at the second question. -/
theorem accounts_of_junk :
    let bytes := Message.stream [.ping, .connected 2] ++ 99 :: List.replicate 16 0 ++
      Message.stream [.ping, .gameEnd 1] ++ [4, 5]
    let es := [.feed (bytes.take 20), .next, .feed (bytes.drop 20)]
    let c := (new.run es).1
    (∃ read, Accounts (heard es) read (c.calls 4).1
      [.message (.connected 2), .malformed (.unknownMessageType 99), .message (.gameEnd 1),
        .endOfStream] [.pong, .pong]) ∧
      (c.sever.calls 3).2.1 =
        [.message (.connected 2), .malformed (.unknownMessageType 99), .brokenPipe] ∧
      ∃ read ping, ping.IsPing ∧
        (Record.cut (heard es)).1 = read ++ ping :: [Message.encode (.gameEnd 1)] := by
  intro bytes es c
  have hes : .sever ∉ es := by simp [es]
  have hresults : returned (new.run es).2.1 ++ (c.calls 4).2.1.map Reading.atEnd =
      [.message (.connected 2), .malformed (.unknownMessageType 99), .message (.gameEnd 1),
        .endOfStream] := by decide +kernel
  have hsent : (new.run es).2.2 ++ (c.calls 4).2.2 = [.pong, .pong] := by decide +kernel
  have hleft : (Record.cut (c.sever.calls 3).1.inbox).1 = [Message.encode (.gameEnd 1)] := by
    decide +kernel
  have hheeded := (accounts_at_end hes 4).2.1
  have halone := (accounts_at_end hes 3).2.2.2 (by decide +kernel)
  rw [hresults, hsent] at hheeded
  rw [hleft] at halone
  exact ⟨hheeded, by decide +kernel, halone⟩

end Client

end FourInRow
