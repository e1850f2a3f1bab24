import FourInRow.Proofs.Heartbeat.Silence
import FourInRow.Proofs.Relay.Outcome

/-!
# What a relay has read

The bytes that have arrived at a relay are those of the records that it has read, one after
another, and those that still wait.  Each record that it has read has been passed on, noted as an
answer, or skipped, so that the commands of a relay and its heartbeat can be told from the records.

Main results:

- Theorem `Goes.progress`: what a relay that goes on reads, passes on and notes.
- Theorem `Account.stepped`: a step keeps the account of what has been read.
- Theorem `account_run`: the account of a whole run.
- Theorem `exists_reads`: a relay that reads often enough has read all there is.
-/

namespace FourInRow

namespace Relay

open Wire

/-! ## What arrives, and what the heartbeat notices -/

/-- The bytes that arrive with an event. -/
def Event.bytes : Event → List UInt8
  | .arrive bytes => bytes
  | _ => []

/-- The bytes that arrive in a course of events. -/
def arrived (es : List Event) : List UInt8 := es.flatMap Event.bytes

theorem arrived_append (es es' : List Event) : arrived (es ++ es') = arrived es ++ arrived es' :=
  List.flatMap_append

theorem arrived_concat (es : List Event) (e : Event) :
    arrived (es ++ [e]) = arrived es ++ e.bytes := by
  rw [arrived_append]
  simp [arrived]

/-- What the heartbeat of a relay that has not ended notices of an event. -/
def beat? (r : Relay) : Event → Option Heartbeat.Event
  | .tick => some .tick
  | .read =>
    if ((Record.split? r.inbox).any fun p => p.1.IsPong) = true then some .pong else none
  | _ => none

/-- What the heartbeat of a relay notices of an event, which is nothing after the end. -/
def noticed (r : Relay) (e : Event) : List Heartbeat.Event :=
  if r.ending.isSome then [] else (r.beat? e).toList

/-- What the heartbeat of a relay notices in a course of events. -/
def beats (r : Relay) : List Event → List Heartbeat.Event
  | [] => []
  | e :: es => r.noticed e ++ (r.step e).1.beats es

/-- Nothing is noticed after the end. -/
theorem beats_of_ended {r : Relay} (hended : r.ending.isSome = true) (es : List Event) :
    r.beats es = [] := by
  induction es with
  | nil => rfl
  | cons e es ih =>
      have hstep : (r.step e).1 = r := by rw [step, if_pos hended]
      rw [beats, hstep, ih, noticed, if_pos hended]
      rfl

theorem beats_append (r : Relay) (es es' : List Event) :
    r.beats (es ++ es') = r.beats es ++ (r.run es).1.beats es' := by
  induction es generalizing r with
  | nil => rfl
  | cons e es ih => simp [beats, run, ih]

/-- An answer is noticed, and no other record. -/
theorem beat?_read {r : Relay} {record : Record} {rest : List UInt8}
    (hinbox : r.inbox = record.bytes ++ rest) :
    r.beat? .read = if record.IsPong then some .pong else none := by
  simp [beat?, Record.split?_eq_some_iff.2 hinbox]

/-- An answer is no request. -/
theorem request?_of_isPong {id : ConnectionId} {record : Record} (h : record.IsPong) :
    record.request? id = none :=
  Option.eq_none_iff_forall_ne_some.2 fun _ hrequest => not_isPong_of_request? hrequest h

/-! ## One step -/

/-- What a relay that goes on has read, passed on and noted by an event. -/
structure Progress (r : Relay) (e : Event) (r' : Relay) (actions : List Action)
    (rs : List Record) : Prop where
  id_eq : r'.id = r.id
  running : r'.ending = none
  inbox_eq : r.inbox ++ e.bytes = rs.flatMap Record.bytes ++ r'.inbox
  commands_eq : commands actions = rs.filterMap (Record.request? r.id)
  heartbeat_eq : r'.heartbeat = r.heartbeat.after (r.beat? e).toList
  pongs_eq : (r.beat? e).toList.count .pong = rs.countP (fun record => record.IsPong)
  finished : r'.finished = true → r.finished = true ∨ e = .finish
  reachable : r'.reachable = false → r.reachable = false ∨ e = .hallCloses

/-- An event by which nothing is read. -/
theorem Progress.of_idle {r r' : Relay} {e : Event} {actions : List Action}
    (hrunning : r'.ending = none) (hid : r'.id = r.id) (hinbox : r.inbox ++ e.bytes = r'.inbox)
    (hcommands : commands actions = [])
    (hheartbeat : r'.heartbeat = r.heartbeat.after (r.beat? e).toList)
    (hpongs : (r.beat? e).toList.count .pong = 0)
    (hfinished : r'.finished = true → r.finished = true ∨ e = .finish)
    (hreachable : r'.reachable = false → r.reachable = false ∨ e = .hallCloses) :
    Progress r e r' actions [] :=
  ⟨hid, hrunning, hinbox, hcommands, hheartbeat, hpongs, hfinished, hreachable⟩

/-- An event by which a record is read. -/
theorem Progress.of_record {r : Relay} {record : Record} {rest : List UInt8} {h : Heartbeat}
    {actions : List Action} (hrunning : r.ending = none)
    (hinbox : r.inbox = record.bytes ++ rest)
    (hcommands : commands actions = (record.request? r.id).toList)
    (hheartbeat : h = if record.IsPong then r.heartbeat.pong else r.heartbeat) :
    Progress r .read { r with inbox := rest, heartbeat := h } actions [record] where
  id_eq := rfl
  running := hrunning
  inbox_eq := by simp [Event.bytes, hinbox]
  commands_eq := by
    rw [hcommands, List.filterMap_cons]
    cases record.request? r.id with
    | none => rfl
    | some c => rfl
  heartbeat_eq := by
    rw [hheartbeat, beat?_read hinbox]
    by_cases hpong : record.IsPong
    · simp [hpong, Heartbeat.after, Heartbeat.step]
    · simp [hpong, Heartbeat.after]
  pongs_eq := by
    rw [beat?_read hinbox]
    by_cases hpong : record.IsPong
    · simp [hpong]
    · simp [hpong]
  finished := Or.inl
  reachable := Or.inl

/-- What a relay that goes on reads, passes on and notes. -/
theorem Goes.progress {r r' : Relay} {e : Event} {actions : List Action}
    (hgoes : Goes r e r' actions) (hrunning : r.ending = none) :
    ∃ rs, Progress r e r' actions rs := by
  have hbytes : r.inbox = r.inbox ++ [] := (List.append_nil _).symm
  cases hgoes with
  | @passed record rest c hinbox hrequest hreachable =>
      refine ⟨[record], .of_record hrunning hinbox ?_ ?_⟩
      · rw [hrequest]
        rfl
      · rw [if_neg (not_isPong_of_request? hrequest)]
  | @answered record rest hinbox hpong =>
      refine ⟨[record], .of_record hrunning hinbox ?_ ?_⟩
      · rw [request?_of_isPong hpong]
        rfl
      · rw [if_pos hpong]
  | @skipped record rest hinbox hrequest hpong =>
      refine ⟨[record], .of_record hrunning hinbox ?_ ?_⟩
      · rw [hrequest]
        rfl
      · rw [if_neg hpong]
  | waited hshort hopen =>
      have hbeat : r.beat? .read = none := by
        simp [beat?, Record.split?_eq_none_iff.2 hshort]
      refine ⟨[], .of_idle hrunning rfl hbytes.symm rfl ?_ ?_ Or.inl Or.inl⟩ <;> rw [hbeat] <;> rfl
  | asked halive hheld =>
      exact ⟨[], .of_idle hrunning rfl hbytes.symm rfl rfl rfl Or.inl Or.inl⟩
  | arrived => exact ⟨[], .of_idle hrunning rfl rfl rfl rfl rfl Or.inl Or.inl⟩
  | finished => exact ⟨[], .of_idle hrunning rfl hbytes.symm rfl rfl rfl (fun _ => Or.inr rfl) Or.inl⟩
  | cutOff => exact ⟨[], .of_idle hrunning rfl hbytes.symm rfl rfl rfl Or.inl (fun _ => Or.inr rfl)⟩
  | _ => exact ⟨[], .of_idle hrunning rfl hbytes.symm rfl rfl rfl Or.inl Or.inl⟩

/-- What a relay that ends has noted by the event. -/
structure Closing (r : Relay) (e : Event) (r' : Relay) (why : Ending) : Prop where
  id_eq : r'.id = r.id
  finished_eq : r'.finished = r.finished
  reachable_eq : r'.reachable = r.reachable
  heartbeat_eq : r'.heartbeat = r.heartbeat.after (r.beat? e).toList
  pongs_eq : (r.beat? e).toList.count .pong = 0
  /-- Only where the client has closed is there a reason to think that everything is read. -/
  whole : why = .peerClosed → r.finished = true ∧ r.inbox.length < Record.length

/-- A relay that ends reads nothing that counts. -/
theorem Ends.closing {r r' : Relay} {e : Event} {why : Ending} (hends : Ends r e r' why) :
    Closing r e r' why := by
  cases hends with
  | @hallClosed record rest c hinbox hrequest hunreachable =>
      have hbeat : r.beat? .read = none := by
        rw [beat?_read hinbox, if_neg (not_isPong_of_request? hrequest)]
      exact ⟨rfl, rfl, rfl, by rw [hbeat]; rfl, by rw [hbeat]; rfl, fun h => nomatch h⟩
  | peerClosed hshort hfinished =>
      have hbeat : r.beat? .read = none := by
        simp [beat?, Record.split?_eq_none_iff.2 hshort]
      exact ⟨rfl, rfl, rfl, by rw [hbeat]; rfl, by rw [hbeat]; rfl, fun _ => ⟨hfinished, hshort⟩⟩
  | _ => exact ⟨rfl, rfl, rfl, rfl, rfl, fun h => nomatch h⟩

/-! ## The account of a run -/

/-- What a relay has done about a course of events: it has read some records, one after another,
passed on the requests among them, and noted the answers. -/
structure Account (id : ConnectionId) (limit : UInt32) (es : List Event) (r : Relay)
    (cs : List Command) (bs : List Heartbeat.Event) (rs : List Record) : Prop where
  id_eq : r.id = id
  /-- What has arrived is what has been read, and what waits. -/
  arrived_eq : ∃ rest, arrived es = rs.flatMap Record.bytes ++ rest ∧
    (r.ending = none → r.inbox = rest)
  commands_eq : cs = rs.filterMap (Record.request? id) ++ r.farewell
  heartbeat_eq : r.heartbeat = (Heartbeat.start limit).after bs
  pongs_eq : bs.count .pong = rs.countP fun record => record.IsPong
  finished : r.finished = true → .finish ∈ es
  reachable : r.reachable = false → .hallCloses ∈ es
  /-- If the client has closed, everything has been read that arrived before it was found out. -/
  whole : r.ending = some .peerClosed → ∃ before tail, before <+: es ∧ .finish ∈ before ∧
    arrived before = rs.flatMap Record.bytes ++ tail ∧ tail.length < Record.length

/-- Nothing has been done before anything has happened. -/
theorem account_idle (id : ConnectionId) (limit : UInt32) :
    Account id limit [] (idle id limit true) [] [] [] where
  id_eq := rfl
  arrived_eq := ⟨[], rfl, fun _ => rfl⟩
  commands_eq := rfl
  heartbeat_eq := rfl
  pongs_eq := rfl
  finished h := nomatch h
  reachable h := nomatch h
  whole h := nomatch h

section

variable {id : ConnectionId} {limit : UInt32} {es : List Event} {r : Relay} {cs : List Command}
  {bs : List Heartbeat.Event} {rs : List Record}

/-- Nothing more is done after the end. -/
theorem Account.done (h : Account id limit es r cs bs rs) (hdone : r.ending.isSome = true)
    (e : Event) : Account id limit (es ++ [e]) r cs bs rs where
  id_eq := h.id_eq
  arrived_eq := by
    rcases h.arrived_eq with ⟨rest, harrived, -⟩
    refine ⟨rest ++ e.bytes, ?_, fun hrunning => ?_⟩
    · rw [arrived_concat, harrived, List.append_assoc]
    · rw [hrunning] at hdone
      cases hdone
  commands_eq := h.commands_eq
  heartbeat_eq := h.heartbeat_eq
  pongs_eq := h.pongs_eq
  finished hfinished := List.mem_append_left _ (h.finished hfinished)
  reachable hreachable := List.mem_append_left _ (h.reachable hreachable)
  whole hwhy := by
    rcases h.whole hwhy with ⟨before, tail, hbefore, hrest⟩
    exact ⟨before, tail, hbefore.trans (List.prefix_append es [e]), hrest⟩

/-- A relay that goes on keeps the account. -/
theorem Account.goes (h : Account id limit es r cs bs rs) (hrunning : r.ending = none)
    {e : Event} {r' : Relay} {actions : List Action} {more : List Record}
    (hprogress : Progress r e r' actions more) :
    Account id limit (es ++ [e]) r' (cs ++ commands actions) (bs ++ (r.beat? e).toList)
      (rs ++ more) where
  id_eq := hprogress.id_eq.trans h.id_eq
  arrived_eq := by
    rcases h.arrived_eq with ⟨rest, harrived, hinbox⟩
    refine ⟨r'.inbox, ?_, fun _ => rfl⟩
    rw [arrived_concat, harrived, List.append_assoc, ← hinbox hrunning, hprogress.inbox_eq,
      List.flatMap_append, List.append_assoc]
  commands_eq := by
    rw [h.commands_eq, farewell_of_running hrunning, farewell_of_running hprogress.running,
      hprogress.commands_eq, h.id_eq, List.filterMap_append, List.append_nil, List.append_nil]
  heartbeat_eq := by rw [hprogress.heartbeat_eq, h.heartbeat_eq, Heartbeat.after_append]
  pongs_eq := by rw [List.count_append, List.countP_append, h.pongs_eq, hprogress.pongs_eq]
  finished hfinished := by
    rcases hprogress.finished hfinished with hbefore | rfl
    · exact List.mem_append_left _ (h.finished hbefore)
    · simp
  reachable hreachable := by
    rcases hprogress.reachable hreachable with hbefore | rfl
    · exact List.mem_append_left _ (h.reachable hbefore)
    · simp
  whole hwhy := by
    rw [hprogress.running] at hwhy
    cases hwhy

/-- A relay that ends keeps the account. -/
theorem Account.ends (h : Account id limit es r cs bs rs) (hrunning : r.ending = none)
    {e : Event} {r' : Relay} {why : Ending} (hclosing : Closing r e r' why) :
    Account id limit (es ++ [e]) (r'.finishWith why).1 (cs ++ commands (r'.finishWith why).2)
      (bs ++ (r.beat? e).toList) rs where
  id_eq := hclosing.id_eq.trans h.id_eq
  arrived_eq := by
    rcases h.arrived_eq with ⟨rest, harrived, -⟩
    refine ⟨rest ++ e.bytes, ?_, fun hnone => nomatch hnone⟩
    rw [arrived_concat, harrived, List.append_assoc]
  commands_eq := by
    rw [h.commands_eq, farewell_of_running hrunning, commands_finishWith, List.append_nil]
  heartbeat_eq := by
    rw [Heartbeat.after_append, ← h.heartbeat_eq]
    exact hclosing.heartbeat_eq
  pongs_eq := by rw [List.count_append, h.pongs_eq, hclosing.pongs_eq, Nat.add_zero]
  finished hfinished :=
    List.mem_append_left _ (h.finished (hclosing.finished_eq.symm.trans hfinished))
  reachable hreachable :=
    List.mem_append_left _ (h.reachable (hclosing.reachable_eq.symm.trans hreachable))
  whole hwhy := by
    rcases hclosing.whole (Option.some.inj hwhy) with ⟨hfinished, hshort⟩
    rcases h.arrived_eq with ⟨rest, harrived, hinbox⟩
    exact ⟨es, rest, List.prefix_append es [e], h.finished hfinished, harrived,
      hinbox hrunning ▸ hshort⟩

/-- A step keeps the account of what has been read. -/
theorem Account.stepped (h : Account id limit es r cs bs rs) {e : Event} {r' : Relay}
    {actions : List Action} (hstepped : Stepped r e r' actions) :
    ∃ more, Account id limit (es ++ [e]) r' (cs ++ commands actions) (bs ++ r.noticed e)
      (rs ++ more) := by
  have hnoticed : r.ending = none → r.noticed e = (r.beat? e).toList := by
    intro hrunning
    simp [noticed, hrunning]
  cases hstepped with
  | done hdone =>
      refine ⟨[], ?_⟩
      simpa [noticed, hdone, commands] using h.done hdone e
  | goes hrunning hgoes =>
      rcases hgoes.progress hrunning with ⟨more, hprogress⟩
      exact ⟨more, hnoticed hrunning ▸ h.goes hrunning hprogress⟩
  | ends hrunning hends =>
      refine ⟨[], ?_⟩
      rw [List.append_nil, hnoticed hrunning]
      exact h.ends hrunning hends.closing

/-- A run keeps the account of what has been read. -/
theorem Account.run (h : Account id limit es r cs bs rs) (es' : List Event) :
    ∃ more, Account id limit (es ++ es') (r.run es').1 (cs ++ commands (r.run es').2)
      (bs ++ r.beats es') (rs ++ more) := by
  induction es' generalizing es r cs bs rs with
  | nil => exact ⟨[], by simpa [Relay.run, beats, commands] using h⟩
  | cons e es' ih =>
      rcases h.stepped (Stepped.of_step r e) with ⟨more, hstep⟩
      rcases ih hstep with ⟨more', hrest⟩
      exact ⟨more ++ more', by simpa [Relay.run, beats, List.append_assoc] using hrest⟩

end

/-- The account of a whole run. -/
theorem account_run (id : ConnectionId) (limit : UInt32) (es : List Event) :
    ∃ rs, Account id limit es ((idle id limit true).run es).1
      (commands ((idle id limit true).run es).2) ((idle id limit true).beats es) rs :=
  (account_idle id limit).run es

/-- What has been read comes before what is read later. -/
theorem account_run_append (id : ConnectionId) (limit : UInt32) (es es' : List Event) :
    ∃ rs more, Account id limit es ((idle id limit true).run es).1
        (commands ((idle id limit true).run es).2) ((idle id limit true).beats es) rs ∧
      Account id limit (es ++ es') ((idle id limit true).run (es ++ es')).1
        (commands ((idle id limit true).run (es ++ es')).2)
        ((idle id limit true).beats (es ++ es')) (rs ++ more) := by
  rcases account_run id limit es with ⟨rs, hbefore⟩
  rcases hbefore.run es' with ⟨more, hafter⟩
  rw [run_append, beats_append, commands_append]
  exact ⟨rs, more, hbefore, hafter⟩

/-! ## Reading all there is -/

/-- A relay reads a record, if there is one and the hall can be reached. -/
theorem read_record {r : Relay} (hrunning : r.ending = none) (hreachable : r.reachable = true)
    {record : Record} {rest : List UInt8} (hinbox : r.inbox = record.bytes ++ rest) :
    (r.step .read).1.ending = none ∧ (r.step .read).1.reachable = true ∧
      (r.step .read).1.inbox = rest := by
  have hstep : r.step .read = r.read := by simp [step, act, hrunning]
  rw [hstep, read_eq hinbox]
  by_cases hpong : record.IsPong
  · rw [if_pos hpong]
    exact ⟨hrunning, hreachable, rfl⟩
  · rw [if_neg hpong]
    cases record.request? r.id with
    | none => exact ⟨hrunning, hreachable, rfl⟩
    | some c =>
        simp only [passOn, hreachable, if_true]
        exact ⟨hrunning, trivial, trivial⟩

/-- As long as the hall can be reached, a relay reads all the records that have arrived. -/
theorem exists_reads {r : Relay} (hrunning : r.ending = none) (hreachable : r.reachable = true) :
    ∃ n, Record.length * n ≤ r.inbox.length ∧
      (r.run (List.replicate n .read)).1.ending = none ∧
      (r.run (List.replicate n .read)).1.inbox.length < Record.length := by
  induction hsize : r.inbox.length using Nat.strong_induction_on generalizing r with
  | _ size ih =>
      rcases Record.short_or_record r.inbox with hshort | ⟨record, rest, hinbox⟩
      · exact ⟨0, Nat.zero_le _, hrunning, hshort⟩
      · rcases read_record hrunning hreachable hinbox with ⟨hgoes, hreach, hrest⟩
        have hlength : size = Record.length + rest.length := by
          rw [← hsize, hinbox, List.length_append, Record.length_bytes]
        have hlt : rest.length < size := hlength ▸ Nat.lt_add_of_pos_left (Nat.succ_pos _)
        rcases ih rest.length hlt hgoes hreach (congrArg List.length hrest) with
          ⟨n, hn, hend, hshort⟩
        refine ⟨n + 1, ?_, hend, hshort⟩
        rw [Nat.mul_add_one]
        omega

end Relay

end FourInRow
