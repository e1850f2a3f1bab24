import FourInRow.Client
import FourInRow.Proofs.Wire.Cut

/-!
# What a client reads

The bytes that have come to a client are those of the records that it has read, one after another,
and those that still wait.  Questions for a sign of life are answered and not shown; every other
message is handed out as it was read.

Main results:

- Theorem `looks_next`: looking for the next message is one of the outcomes of `Looks`.
- Theorem `Hears.trans`: what is read in two courses of events, one after the other.
- Theorem `Looks.hears`: what a client has read when it has looked for the next message.
- Theorem `hears_run`: what it has read after a whole run.
- Theorem `short_of_next`: a client that looks often enough has read all there is.
-/

namespace FourInRow

open Wire

/-- The message that a record tells the owner of a client; questions for a sign of life are kept
from it. -/
def Wire.Record.told? (record : Record) : Option Message :=
  match Message.decode record with
  | .ok .ping => none
  | .ok m => some m
  | .error _ => none

/-- Does a record carry a question for a sign of life? -/
def Wire.Record.IsPing (record : Record) : Prop := Message.decode record = .ok .ping

instance (record : Record) : Decidable record.IsPing := by
  unfold Wire.Record.IsPing
  infer_instance

/-- The player number that a message gives the client. -/
def Message.seat? : Message → Option Player
  | connected player => some player
  | _ => none

/-- The player number that some messages leave a client with. -/
def Message.seatAfter (player : Player) (ms : List Message) : Player :=
  (ms.filterMap seat?).getLast?.getD player

theorem Message.seatAfter_append (player : Player) (ms ms' : List Message) :
    seatAfter player (ms ++ ms') = seatAfter (seatAfter player ms) ms' := by
  simp only [seatAfter, List.filterMap_append, List.getLast?_append]
  cases (ms'.filterMap seat?).getLast? with
  | none => rfl
  | some _ => rfl

namespace Client

/-- The bytes that arrive with an event. -/
def Event.bytes : Event → List UInt8
  | .feed bytes => bytes
  | _ => []

/-- The bytes that arrive in a course of events. -/
def heard (es : List Event) : List UInt8 := es.flatMap Event.bytes

theorem heard_append (es es' : List Event) : heard (es ++ es') = heard es ++ heard es' :=
  List.flatMap_append

/-- The messages among what a client reads. -/
def messages (readings : List Reading) : List Message :=
  readings.filterMap fun
    | .message m => some m
    | _ => none

theorem messages_append (readings readings' : List Reading) :
    messages (readings ++ readings') = messages readings ++ messages readings' :=
  List.filterMap_append

/-! ## Looking for the next message -/

/-- How a client looks for the next message: the records that it reads, what becomes of it, what it
finds and what it sends. -/
inductive Looks : Client → List Record → Client → Reading → List Message → Prop
  /-- There is no record to be read. -/
  | waited {c : Client} (hshort : c.inbox.length < Record.length) :
      Looks c [] c (if c.severed then .endOfStream else .waiting) []
  /-- A record that carries no message is reported. -/
  | malformed {c : Client} {record : Record} {rest : List UInt8} {e : Wire.Error}
      (hinbox : c.inbox = record.bytes ++ rest) (hdecode : Message.decode record = .error e) :
      Looks c [record] { c with inbox := rest } (.malformed e) []
  /-- A question that can no longer be answered is reported. -/
  | broken {c : Client} {record : Record} {rest : List UInt8}
      (hinbox : c.inbox = record.bytes ++ rest) (hping : record.IsPing)
      (hsevered : c.severed = true) : Looks c [record] { c with inbox := rest } .brokenPipe []
  /-- A message is handed out. -/
  | message {c : Client} {record : Record} {rest : List UInt8} {m : Message}
      (hinbox : c.inbox = record.bytes ++ rest) (hdecode : Message.decode record = .ok m)
      (hping : m ≠ .ping) : Looks c [record] ({ c with inbox := rest }.note m) (.message m) []
  /-- A question is answered before the client looks any further. -/
  | answered {c c' : Client} {record : Record} {rest : List UInt8} {rs : List Record}
      {reading : Reading} {sent : List Message} (hinbox : c.inbox = record.bytes ++ rest)
      (hping : record.IsPing) (hopen : c.severed = false)
      (hrest : Looks { c with inbox := rest } rs c' reading sent) :
      Looks c (record :: rs) c' reading (.pong :: sent)

/-- Looking for the next message is as `Looks` says. -/
theorem looks_next (c : Client) : ∃ rs, Looks c rs c.next.1 c.next.2.1 c.next.2.2 := by
  fun_induction next c with
  | case1 c hsplit => exact ⟨[], .waited (Record.split?_eq_none_iff.1 hsplit)⟩
  | case2 c record rest hsplit c' e hdecode =>
      exact ⟨[record], .malformed (Record.split?_eq_some_iff.1 hsplit) hdecode⟩
  | case3 c record rest hsplit c' hping hsevered =>
      exact ⟨[record], .broken (Record.split?_eq_some_iff.1 hsplit) hping hsevered⟩
  | case4 c record rest hsplit c' hping hsevered c'' reading sent hnext ih =>
      rcases ih with ⟨rs, hrest⟩
      rw [hnext] at hrest
      exact ⟨record :: rs, .answered (Record.split?_eq_some_iff.1 hsplit) hping
        (Bool.eq_false_iff.2 hsevered) hrest⟩
  | case5 c record rest hsplit c' m hping hdecode =>
      exact ⟨[record], .message (Record.split?_eq_some_iff.1 hsplit) hdecode hping⟩

/-- A client that reads no record has none to read. -/
theorem Looks.short_of_nil {c c' : Client} {reading : Reading} {sent : List Message}
    (h : Looks c [] c' reading sent) : c.inbox.length < Record.length := by
  cases h with
  | waited hshort => exact hshort

/-- Looking for a message, a client sends nothing but answers. -/
theorem Looks.eq_pong {c c' : Client} {rs : List Record} {reading : Reading}
    {sent : List Message} (h : Looks c rs c' reading sent) : ∀ m ∈ sent, m = .pong := by
  induction h with
  | answered hinbox hping hopen hrest ih => exact List.forall_mem_cons.2 ⟨rfl, ih⟩
  | _ => simp

/-! ## The account of what has been read -/

/-- What a client has read, handed out and answered in a course of events. -/
structure Hears (c c' : Client) (es : List Event) (readings : List Reading) (sent : List Message)
    (rs : List Record) : Prop where
  /-- What waited or has come is what has been read, and what waits. -/
  inbox_eq : c.inbox ++ heard es = rs.flatMap Record.bytes ++ c'.inbox
  messages_eq : messages readings = rs.filterMap Record.told?
  malformed : ∀ e, .malformed e ∈ readings → ∃ record ∈ rs, Message.decode record = .error e
  player_eq : c'.player = Message.seatAfter c.player (messages readings)
  /-- Every question is answered, unless the server is gone. -/
  answers_eq : sent.count .pong + readings.count .brokenPipe =
    rs.countP fun record => record.IsPing
  broken : .brokenPipe ∈ readings → c'.severed = true
  severed_iff : c'.severed = true ↔ c.severed = true ∨ .sever ∈ es

/-- Nothing is read as long as nothing happens. -/
theorem Hears.refl (c : Client) : Hears c c [] [] [] [] where
  inbox_eq := by simp [heard]
  messages_eq := rfl
  malformed := by simp
  player_eq := rfl
  answers_eq := rfl
  broken := by simp
  severed_iff := by simp

/-- What is read in two courses of events, one after the other. -/
theorem Hears.trans {c c' c'' : Client} {es es' : List Event} {readings readings' : List Reading}
    {sent sent' : List Message} {rs rs' : List Record} (h : Hears c c' es readings sent rs)
    (h' : Hears c' c'' es' readings' sent' rs') :
    Hears c c'' (es ++ es') (readings ++ readings') (sent ++ sent') (rs ++ rs') where
  inbox_eq := by
    rw [heard_append, ← List.append_assoc, h.inbox_eq, List.append_assoc, h'.inbox_eq,
      List.flatMap_append, List.append_assoc]
  messages_eq := by
    rw [messages_append, h.messages_eq, h'.messages_eq, List.filterMap_append]
  malformed e he := by
    rcases List.mem_append.1 he with he | he
    · rcases h.malformed e he with ⟨record, hmem, hdecode⟩
      exact ⟨record, List.mem_append_left _ hmem, hdecode⟩
    · rcases h'.malformed e he with ⟨record, hmem, hdecode⟩
      exact ⟨record, List.mem_append_right _ hmem, hdecode⟩
  player_eq := by rw [h'.player_eq, h.player_eq, messages_append, Message.seatAfter_append]
  answers_eq := by
    rw [List.count_append, List.count_append, List.countP_append, ← h.answers_eq,
      ← h'.answers_eq]
    omega
  broken hbroken := by
    rcases List.mem_append.1 hbroken with hbroken | hbroken
    · exact h'.severed_iff.2 (Or.inl (h.broken hbroken))
    · exact h'.broken hbroken
  severed_iff := by
    rw [h'.severed_iff, h.severed_iff, List.mem_append, or_assoc]

/-- One record is read, in passing or as the last one that is looked at. -/
theorem Hears.of_record {c : Client} {record : Record} {rest : List UInt8} {player : Player}
    (hinbox : c.inbox = record.bytes ++ rest) {es : List Event} (hes : es = [] ∨ es = [.next])
    {readings : List Reading} {sent : List Message}
    (hmessages : messages readings = record.told?.toList)
    (hmalformed : ∀ e, .malformed e ∈ readings → Message.decode record = .error e)
    (hplayer : player = Message.seatAfter c.player (messages readings))
    (hanswers : sent.count .pong + readings.count .brokenPipe = if record.IsPing then 1 else 0)
    (hbroken : .brokenPipe ∈ readings → c.severed = true) :
    Hears c { c with player := player, inbox := rest } es readings sent [record] where
  inbox_eq := by
    rcases hes with rfl | rfl
    · simp [heard, hinbox]
    · simp [heard, Event.bytes, hinbox]
  messages_eq := by
    rw [hmessages, List.filterMap_cons]
    cases record.told? with
    | none => rfl
    | some m => rfl
  malformed e he := ⟨record, List.mem_singleton_self record, hmalformed e he⟩
  player_eq := hplayer
  answers_eq := by simp [hanswers]
  broken := hbroken
  severed_iff := by
    rcases hes with rfl | rfl
    · simp
    · simp

/-- Taking note of a message changes the player number only. -/
theorem note_eq (c : Client) (m : Message) :
    c.note m = { c with player := Message.seatAfter c.player [m] } := by
  cases m with
  | _ => rfl

/-- What a client has read when it has looked for the next message. -/
theorem Looks.hears {c c' : Client} {rs : List Record} {reading : Reading} {sent : List Message}
    (h : Looks c rs c' reading sent) : Hears c c' [.next] [reading] sent rs := by
  induction h with
  | @waited c hshort =>
      cases hsevered : c.severed with
      | _ => constructor <;> simp [heard, Event.bytes, messages, Message.seatAfter, hsevered]
  | malformed hinbox hdecode =>
      refine .of_record hinbox (Or.inr rfl) ?_ ?_ ?_ ?_ ?_
      · simp [messages, Record.told?, hdecode]
      · simp [hdecode]
      · rfl
      · simp [Record.IsPing, hdecode]
      · simp
  | @broken _ record _ hinbox hping hsevered =>
      refine .of_record hinbox (Or.inr rfl) ?_ ?_ ?_ ?_ ?_
      · simp [messages, Record.told?, show Message.decode record = .ok .ping from hping]
      · simp
      · rfl
      · simp [hping]
      · exact fun _ => hsevered
  | @message _ record _ m hinbox hdecode hping =>
      have htold : record.told? = some m := by
        cases m with
        | ping => exact absurd rfl hping
        | _ => simp [Record.told?, hdecode]
      rw [note_eq]
      refine .of_record hinbox (Or.inr rfl) ?_ ?_ ?_ ?_ ?_
      · simp [messages, htold]
      · simp
      · rfl
      · simp [Record.IsPing, hdecode, hping]
      · simp
  | @answered c _ record rest _ _ _ hinbox hping hopen hrest ih =>
      have hfirst : Hears c { c with inbox := rest } [] [] [.pong] [record] := by
        refine .of_record hinbox (Or.inl rfl) ?_ ?_ ?_ ?_ ?_
        · simp [messages, Record.told?, show Message.decode record = .ok .ping from hping]
        · simp
        · rfl
        · simp [hping]
        · simp
      exact hfirst.trans ih

/-- An event by which nothing is read and no question answered. -/
theorem Hears.of_unread {c c' : Client} {e : Event} {sent : List Message}
    (hinbox : c.inbox ++ e.bytes = c'.inbox) (hplayer : c'.player = c.player)
    (hsent : .pong ∉ sent) (hsevered : c'.severed = true ↔ c.severed = true ∨ .sever = e) :
    Hears c c' [e] [] sent [] where
  inbox_eq := by simpa [heard] using hinbox
  messages_eq := rfl
  malformed := by simp
  player_eq := hplayer
  answers_eq := by simp [List.count_eq_zero.2 hsent]
  broken := by simp
  severed_iff := by rw [hsevered, List.mem_singleton]

/-- What goes out when a client sends a message is that message. -/
theorem eq_of_mem_posted {c : Client} {m m' : Message} (h : m' ∈ posted (c.send m)) : m' = m := by
  unfold send at h
  split at h
  · cases h
  · exact List.mem_singleton.1 h

/-- Nothing is read by an event that is no look for the next message. -/
theorem hears_unread (c : Client) {e : Event} (h : e ≠ .next) :
    Hears c (c.step e).1 [e] (c.step e).2.1 (c.step e).2.2 [] := by
  cases e with
  | next => exact absurd rfl h
  | feed bytes => exact .of_unread rfl rfl List.not_mem_nil (by simp [step, feed])
  | sever => exact .of_unread (List.append_nil _) rfl List.not_mem_nil (by simp [step, sever])
  | ready =>
      refine .of_unread (List.append_nil _) rfl (fun hpong => ?_) (by simp [step])
      cases eq_of_mem_posted hpong
  | takeTurn column =>
      refine .of_unread (List.append_nil _) rfl (fun hpong => ?_) (by simp [step])
      cases eq_of_mem_posted hpong

/-- What a client reads by one event. -/
theorem hears_step (c : Client) (e : Event) :
    ∃ rs, Hears c (c.step e).1 [e] (c.step e).2.1 (c.step e).2.2 rs := by
  by_cases hnext : e = .next
  · subst hnext
    rcases looks_next c with ⟨rs, hlooks⟩
    exact ⟨rs, hlooks.hears⟩
  · exact ⟨[], hears_unread c hnext⟩

/-- What a client has read after a whole run. -/
theorem hears_run (c : Client) (es : List Event) :
    ∃ rs, Hears c (c.run es).1 es (c.run es).2.1 (c.run es).2.2 rs := by
  induction es generalizing c with
  | nil => exact ⟨[], .refl c⟩
  | cons e es ih =>
      rcases hears_step c e with ⟨rs, hfirst⟩
      rcases ih (c.step e).1 with ⟨rs', hrest⟩
      exact ⟨rs ++ rs', hfirst.trans hrest⟩

/-! ## Reading all there is -/

/-- A client that looks for the next message reads some records, and at least one if there is one. -/
theorem length_inbox_next (c : Client) :
    ∃ k, c.inbox.length = Record.length * k + c.next.1.inbox.length ∧
      (k = 0 → c.inbox.length < Record.length) := by
  rcases looks_next c with ⟨rs, hlooks⟩
  refine ⟨rs.length, ?_, fun hnone => ?_⟩
  · have hlength := congrArg List.length hlooks.hears.inbox_eq
    simpa [heard, Event.bytes, Record.length_flatMap, Nat.mul_comm] using hlength
  · rw [List.length_eq_zero_iff.1 hnone] at hlooks
    exact hlooks.short_of_nil

/-- A client that has looked for the next message as often as there may be records has read all
of them. -/
theorem short_of_next {c : Client} {n : Nat} (h : c.inbox.length < Record.length * (n + 1)) :
    (c.run (List.replicate n .next)).1.inbox.length < Record.length := by
  induction n generalizing c with
  | zero => simpa [run] using h
  | succ n ih =>
      have hnext : c.next.1.inbox.length < Record.length * (n + 1) := by
        rcases length_inbox_next c with ⟨k, hlength, hnone⟩
        cases k with
        | zero =>
            have hle : Record.length ≤ Record.length * (n + 1) :=
              Nat.le_mul_of_pos_right _ n.succ_pos
            have := hnone rfl
            omega
        | succ k =>
            rw [Nat.mul_add_one] at h hlength
            omega
      exact ih hnext

/-- The last events of a run come upon the client that the others leave behind. -/
theorem run_append (c : Client) (es es' : List Event) :
    c.run (es ++ es') =
      (((c.run es).1.run es').1, (c.run es).2.1 ++ ((c.run es).1.run es').2.1,
        (c.run es).2.2 ++ ((c.run es).1.run es').2.2) := by
  induction es generalizing c with
  | nil => rfl
  | cons e es ih => simp [run, ih]

end Client

end FourInRow
