import FourInRow.Proofs.Client.Reading
import FourInRow.Proofs.Relay.Commands
import FourInRow.Proofs.Relay.Writing

/-!
# Between a relay and its client

A relay and a client are joined by two streams of bytes.  What one of them has written comes to the
other from the front, in chunks of any size.  Nothing is lost, changed or added on the way: the
client hands out what the hall has posted, and the relay passes on what the client has asked for.
Questions and answers about signs of life travel between the two and are seen by nobody else.

Main results:

- Theorem `Record.eq_take`: the records read off a stream of messages are those of the first ones.
- Theorem `Client.receives_of_next`: a client that looks often enough has received all there is.
- Theorem `Client.asked_run`: what a client has sent is what its owner has asked for.
- Theorem `Relay.obeys_of_read`: a relay that reads often enough has obeyed all there is.
- Theorem `Relay.transparent`: both directions, in every course of events.
-/

namespace FourInRow

open Message Wire

/-! ## Records of messages -/

namespace Wire.Record

/-- A client shows all messages but the questions for a sign of life. -/
theorem filterMap_told? (ms : List Message) :
    (ms.map encode).filterMap told? = withoutPings ms := by
  rw [List.filterMap_map, withoutPings, ← List.filterMap_eq_filter]
  refine List.filterMap_congr fun m _ => ?_
  cases m with
  | _ => simp [told?, decode_encode, Option.guard]

/-- The questions among records of messages. -/
theorem countP_isPing (ms : List Message) :
    ((ms.map encode).countP fun record => record.IsPing) = ms.count .ping := by
  rw [List.countP_map, List.count_eq_countP]
  refine List.countP_congr fun m _ => ?_
  simp [IsPing, decode_encode]

/-- The answers among records of messages. -/
theorem countP_isPong (ms : List Message) :
    ((ms.map encode).countP fun record => record.IsPong) = ms.count .pong := by
  rw [List.countP_map, List.count_eq_countP]
  refine List.countP_congr fun m _ => ?_
  simp [IsPong, decode_encode]

/-- The requests among records of messages. -/
theorem filterMap_request? (id : ConnectionId) (ms : List Message) :
    (ms.map encode).filterMap (request? id) = ms.filterMap (Relay.request? id) := by
  rw [List.filterMap_map]
  refine List.filterMap_congr fun m _ => ?_
  cases m with
  | _ => simp [request?, Relay.request?, decode_encode]

/-- The records read off a stream of messages are those of the first ones. -/
theorem eq_take {rs : List Record} {rest : List UInt8} {ms : List Message}
    (h : rs.flatMap bytes ++ rest <+: stream ms) : rs = (ms.take rs.length).map encode := by
  have hfirst := isPrefix_cut h
  rw [cut_stream] at hfirst
  rw [List.map_take]
  exact List.prefix_iff_eq_take.1 hfirst

/-- No more records can be read off some bytes than they have room for. -/
theorem length_le_div {rs : List Record} {input rest : List UInt8}
    (h : input = rs.flatMap bytes ++ rest) : rs.length ≤ input.length / length := by
  have hpos : 0 < length := by decide
  rw [Nat.le_div_iff_mul_le hpos, h, List.length_append, length_flatMap, Nat.mul_comm]
  exact Nat.le_add_right _ _

/-- So many have been read where none is left. -/
theorem length_eq_div {rs : List Record} {input rest : List UInt8}
    (h : input = rs.flatMap bytes ++ rest) (hshort : rest.length < length) :
    rs.length = input.length / length := by
  have hpos : 0 < length := by decide
  rw [h, List.length_append, length_flatMap, Nat.mul_add_div hpos, Nat.div_eq_of_lt hshort,
    Nat.add_zero]

end Wire.Record

/-! ## The client's end -/

namespace Client

/-- After some events a client has received just the given messages: it has handed out all but the
questions, with nothing changed, its player number is the one given last, and it has answered
every question that could be answered. -/
structure Receives (ms : List Message) (es : List Event) : Prop where
  messages_eq : messages (new.run es).2.1 = withoutPings ms
  intact : ∀ e, .malformed e ∉ (new.run es).2.1
  player_eq : (new.run es).1.player = seatAfter nobody (messages (new.run es).2.1)
  answers_eq : (new.run es).2.2.count .pong + (new.run es).2.1.count .brokenPipe = ms.count .ping
  /-- Nothing is left unanswered as long as the server is there. -/
  answered : .sever ∉ es → (new.run es).2.1.count .brokenPipe = 0

/-- A client that has read the records of messages has received them. -/
theorem Hears.receives {es : List Event} {rs : List Record} {ms : List Message}
    (h : Hears new (new.run es).1 es (new.run es).2.1 (new.run es).2.2 rs)
    (hrs : rs = ms.map encode) : Receives ms es where
  messages_eq := by rw [h.messages_eq, hrs, Record.filterMap_told?]
  intact e he := by
    rcases h.malformed e he with ⟨record, hmem, hdecode⟩
    rw [hrs] at hmem
    rcases List.mem_map.1 hmem with ⟨m, -, rfl⟩
    rw [decode_encode] at hdecode
    cases hdecode
  player_eq := h.player_eq
  answers_eq := by rw [h.answers_eq, hrs, Record.countP_isPing]
  answered hthere := by
    refine List.count_eq_zero.2 fun hbroken => ?_
    rcases h.severed_iff.1 (h.broken hbroken) with hsevered | hsever
    · cases hsevered
    · exact hthere hsever

/-- To look for messages brings no new bytes. -/
theorem heard_append_next (es : List Event) (n : Nat) :
    heard (es ++ List.replicate n .next) = heard es := by
  have hnone : heard (List.replicate n .next) = [] := by simp [heard, Event.bytes]
  rw [heard_append, hnone, List.append_nil]

/-- What has come to a client is a number of messages that were sent to it. -/
theorem exists_receives {es : List Event} {ms : List Message} (h : heard es <+: stream ms) :
    ∃ k, Receives (ms.take k) es := by
  rcases hears_run new es with ⟨rs, hhears⟩
  have hinbox : heard es = rs.flatMap Record.bytes ++ (new.run es).1.inbox := hhears.inbox_eq
  exact ⟨rs.length, hhears.receives (Record.eq_take (hinbox ▸ h))⟩

/-- A client that looks often enough has received all the messages that have come in whole. -/
theorem receives_of_next {es : List Event} {ms : List Message} (h : heard es <+: stream ms)
    {n : Nat} (hn : (heard es).length / Record.length ≤ n) :
    Receives (ms.take ((heard es).length / Record.length)) (es ++ List.replicate n .next) := by
  rcases hears_run new es with ⟨rs₀, hbefore⟩
  rcases hears_run new (es ++ List.replicate n .next) with ⟨rs, hafter⟩
  have hinbox : heard es =
      rs.flatMap Record.bytes ++ (new.run (es ++ List.replicate n .next)).1.inbox := by
    rw [← heard_append_next es n]
    exact hafter.inbox_eq
  have hshort : (new.run (es ++ List.replicate n .next)).1.inbox.length < Record.length := by
    rw [run_append]
    refine short_of_next ?_
    have hle : (new.run es).1.inbox.length ≤ (heard es).length := by
      have hlength : (heard es).length = _ := congrArg List.length hbefore.inbox_eq
      rw [hlength, List.length_append]
      exact Nat.le_add_left _ _
    calc (new.run es).1.inbox.length
        ≤ (heard es).length := hle
      _ < Record.length * ((heard es).length / Record.length + 1) :=
          Nat.lt_mul_div_succ _ (Nat.succ_pos _)
      _ ≤ Record.length * (n + 1) := Nat.mul_le_mul_left _ (Nat.succ_le_succ hn)
  have hrs := Record.eq_take (hinbox ▸ h)
  rw [Record.length_eq_div hinbox hshort] at hrs
  exact hafter.receives hrs

/-- What the owner of a client asks for. -/
def Event.asks? (id : ConnectionId) : Event → Option Command
  | .ready => some (.ready id)
  | .takeTurn column => some (.turn id column)
  | _ => none

/-- What a client has sent is what its owner has asked for while the server was there, and answers. -/
theorem asked_run (id : ConnectionId) (c : Client) (es : List Event) :
    (c.run es).2.2.filterMap (Relay.request? id) =
      if c.severed then [] else (es.takeWhile (· ≠ .sever)).filterMap (Event.asks? id) := by
  induction es generalizing c with
  | nil => simp [run]
  | cons e es ih =>
      simp only [run, List.filterMap_append, ih]
      cases e with
      | next =>
          rcases looks_next c with ⟨rs, hlooks⟩
          have hsevered : c.next.1.severed = c.severed := by
            have hiff := hlooks.hears.severed_iff
            simpa using hiff
          have hnone : c.next.2.2.filterMap (Relay.request? id) = [] := by
            refine List.filterMap_eq_nil_iff.2 fun m hm => ?_
            rw [hlooks.eq_pong m hm]
            rfl
          simp [step, hsevered, hnone, Event.asks?, List.filterMap_cons]
      | feed bytes => simp [step, feed, Event.asks?, List.filterMap_cons]
      | sever => simp [step, sever]
      | ready =>
          cases hsevered : c.severed with
          | true => simp [step, ready, send, posted, hsevered]
          | false => simp [step, ready, send, posted, hsevered, Relay.request?, Event.asks?]
      | takeTurn column =>
          cases hsevered : c.severed with
          | true => simp [step, takeTurn, send, posted, hsevered]
          | false => simp [step, takeTurn, send, posted, hsevered, Relay.request?, Event.asks?]

end Client

/-! ## The relay's end -/

namespace Relay

/-- After some events a relay has obeyed just the given messages of its client: it has passed on
the requests among them and noted the answers. -/
structure Obeys (id : ConnectionId) (limit : UInt32) (ms : List Message) (es : List Event) :
    Prop where
  commands_eq : commands (life id limit true es).2 =
    .connect id :: ms.filterMap (request? id) ++ (life id limit true es).1.farewell
  heartbeat_eq : (life id limit true es).1.heartbeat =
    (Heartbeat.start limit).after ((idle id limit true).beats es)
  pongs_eq : ((idle id limit true).beats es).count .pong = ms.count .pong

/-- A relay that has read the records of messages has obeyed them. -/
theorem Account.obeys {id : ConnectionId} {limit : UInt32} {es : List Event} {rs : List Record}
    {ms : List Message}
    (h : Account id limit es ((idle id limit true).run es).1
      (commands ((idle id limit true).run es).2) ((idle id limit true).beats es) rs)
    (hrs : rs = ms.map encode) : Obeys id limit ms es where
  commands_eq := by
    change Command.connect id :: commands ((idle id limit true).run es).2 = _
    rw [h.commands_eq, hrs, Record.filterMap_request?]
    rfl
  heartbeat_eq := h.heartbeat_eq
  pongs_eq := by rw [h.pongs_eq, hrs, Record.countP_isPong]

/-- To read brings no new bytes. -/
theorem arrived_append_read (es : List Event) (n : Nat) :
    arrived (es ++ List.replicate n .read) = arrived es := by
  have hnone : arrived (List.replicate n .read) = [] := by simp [arrived, Event.bytes]
  rw [arrived_append, hnone, List.append_nil]

variable {id : ConnectionId} {limit : UInt32} {es : List Event} {ms : List Message}

/-- What has come to a relay is a number of messages that its client has sent. -/
theorem exists_obeys (h : arrived es <+: stream ms) : ∃ k, Obeys id limit (ms.take k) es := by
  rcases account_run id limit es with ⟨rs, haccount⟩
  rcases haccount.arrived_eq with ⟨rest, harrived, -⟩
  exact ⟨rs.length, haccount.obeys (Record.eq_take (harrived ▸ h))⟩

/-- A relay that goes on, that can reach the hall and that reads often enough has obeyed all the
messages that have come in whole. -/
theorem obeys_of_read (h : arrived es <+: stream ms)
    (hrunning : (life id limit true es).1.ending = none)
    (hreachable : (life id limit true es).1.reachable = true) {n : Nat}
    (hn : (arrived es).length / Record.length ≤ n) :
    Obeys id limit (ms.take ((arrived es).length / Record.length))
      (es ++ List.replicate n .read) := by
  rcases exists_reads (r := ((idle id limit true).run es).1) hrunning hreachable with
    ⟨j, hj, hend, hshort⟩
  have hjn : j ≤ n := by
    rcases account_run id limit es with ⟨rs, haccount⟩
    rcases haccount.arrived_eq with ⟨rest, harrived, hinbox⟩
    have hle : Record.length * j ≤ (arrived es).length := by
      rw [harrived, ← hinbox hrunning, List.length_append]
      exact hj.trans (Nat.le_add_left _ _)
    exact ((Nat.le_div_iff_mul_le (by decide)).2 (Nat.mul_comm _ _ ▸ hle)).trans hn
  -- After `j` records nothing is left to be read; what comes then reads nothing more.
  rcases account_run_append id limit (es ++ List.replicate j .read)
    (List.replicate (n - j) .read) with ⟨rs, more, hread, hall⟩
  rw [List.append_assoc, ← List.replicate_add, Nat.add_sub_cancel' hjn] at hall
  have hlength : rs.length = (arrived es).length / Record.length := by
    rcases hread.arrived_eq with ⟨rest, harrived, hinbox⟩
    rw [run_append] at hinbox
    rw [arrived_append_read, ← hinbox hend] at harrived
    exact Record.length_eq_div harrived hshort
  rcases hall.arrived_eq with ⟨rest, harrived, -⟩
  rw [arrived_append_read] at harrived
  have hnone : (rs ++ more).length = (arrived es).length / Record.length := by
    refine le_antisymm (Record.length_le_div harrived) ?_
    rw [← hlength, List.length_append]
    exact Nat.le_add_right _ _
  exact hnone ▸ hall.obeys (Record.eq_take (harrived ▸ h))

/-! ## Both ends -/

/-- What comes to a client of the messages that were queued for it, in a course of events at the
relay and one at the client. -/
structure Downstream (id : ConnectionId) (limit : UInt32) (es : List Event)
    (fs : List Client.Event) : Prop where
  /-- What was queued has been written, or still waits. -/
  queued_eq : written (life id limit true es).2 ++ (life id limit true es).1.backlog =
    stream ((idle id limit true).queued es)
  /-- But for the questions, it is what the hall has posted, up to the point where it lets go. -/
  posted : withoutPings ((idle id limit true).queued es) <+: withoutPings (posts es)
  posted_all : ¬ (life id limit true es).1.Closed →
    withoutPings ((idle id limit true).queued es) = withoutPings (posts es)
  /-- The client has received the messages that were queued, up to some point. -/
  received : ∃ k, Client.Receives (((idle id limit true).queued es).take k) fs
  /-- It has received all that has come in whole, once it has looked often enough. -/
  received_all : ∀ n, (Client.heard fs).length / Record.length ≤ n →
    Client.Receives
      (((idle id limit true).queued es).take ((Client.heard fs).length / Record.length))
      (fs ++ List.replicate n .next)

/-- What a relay does about the messages that its client has sent, in a course of events at the
relay and one at the client. -/
structure Upstream (id : ConnectionId) (limit : UInt32) (es : List Event)
    (fs : List Client.Event) : Prop where
  /-- But for the answers, what the client has sent is what its owner has asked for. -/
  asked : (Client.new.run fs).2.2.filterMap (request? id) =
    (fs.takeWhile (· ≠ .sever)).filterMap (Client.Event.asks? id)
  /-- The relay has obeyed the messages that were sent, up to some point. -/
  obeyed : ∃ k, Obeys id limit ((Client.new.run fs).2.2.take k) es
  /-- If it goes on and can reach the hall, it has obeyed all that has come in whole, once it has
  read often enough. -/
  obeyed_all : (life id limit true es).1.ending = none →
    (life id limit true es).1.reachable = true →
    ∀ n, (arrived es).length / Record.length ≤ n →
      Obeys id limit ((Client.new.run fs).2.2.take ((arrived es).length / Record.length))
        (es ++ List.replicate n .read)

/-- Whatever happens at the two ends, and however the bytes are cut into chunks on the way: the
client receives what was queued for it, and the relay obeys what the client has sent. -/
theorem transparent (id : ConnectionId) (limit : UInt32) (es : List Event)
    (fs : List Client.Event)
    (hdown : Client.heard fs <+: written (life id limit true es).2)
    (hup : arrived es <+: stream (Client.new.run fs).2.2) :
    Downstream id limit es fs ∧ Upstream id limit es fs := by
  have hqueued : written (life id limit true es).2 ++ (life id limit true es).1.backlog =
      stream ((idle id limit true).queued es) := (backlog_run (idle id limit true) es).symm
  have hheard : Client.heard fs <+: stream ((idle id limit true).queued es) :=
    hdown.trans (hqueued ▸ List.prefix_append _ _)
  rcases queued_posts (idle id limit true) es with ⟨hposted, hall⟩
  refine ⟨⟨hqueued, hposted, hall, ?_, ?_⟩, ⟨?_, ?_, ?_⟩⟩
  · exact Client.exists_receives hheard
  · exact fun n hn => Client.receives_of_next hheard hn
  · exact Client.asked_run id Client.new fs
  · exact exists_obeys hup
  · exact fun hrunning hreachable n hn => obeys_of_read hup hrunning hreachable hn

/-- A client is given a number and a place in the queue, with a question between them, and asks for
a match and for the last column there can be.  Both streams are cut in the middle of a record. -/
theorem transparent_of_column :
    let down : List UInt8 := stream [.connected 2, .ping, .inQueue 258]
    let up : List UInt8 := stream [.ready 2, .pong, .takeTurn 2 255]
    let es : List Event :=
      [.post (.connected 2), .tick, .post (.inQueue 258), .write 20, .write 9, .write 20,
        .write 20, .arrive (up.take 20), .read, .arrive (up.drop 20)]
    let fs : List Client.Event :=
      [.feed (down.take 20), .next, .ready, .feed (down.drop 20), .next, .takeTurn 255]
    Client.heard fs <+: written (life ⟨5⟩ 3 true es).2 ∧
      arrived es <+: stream (Client.new.run fs).2.2 ∧
      Client.messages (Client.new.run (fs ++ List.replicate 3 .next)).2.1 =
        [.connected 2, .inQueue 258] ∧
      commands (life ⟨5⟩ 3 true (es ++ List.replicate 3 .read)).2 =
        [.connect ⟨5⟩, .ready ⟨5⟩, .turn ⟨5⟩ 255] := by
  intro down up es fs
  have hdown : Client.heard fs <+: written (life ⟨5⟩ 3 true es).2 := by decide +kernel
  have hup : arrived es <+: stream (Client.new.run fs).2.2 := by decide +kernel
  rcases transparent ⟨5⟩ 3 es fs hdown hup with ⟨hdownstream, hupstream⟩
  refine ⟨hdown, hup, ?_, ?_⟩
  · rw [(hdownstream.received_all 3 (by decide +kernel)).messages_eq]
    decide +kernel
  · rw [(hupstream.obeyed_all (by decide +kernel) (by decide +kernel) 3
      (by decide +kernel)).commands_eq]
    decide +kernel

end Relay

end FourInRow
