import FourInRow.Proofs.Relay.Reading

/-!
# What a relay tells the hall

Whatever happens, a relay registers its connection, then passes on the client's requests in the
order in which their records stand in the stream, and tells last of all that the connection is gone.
Records that carry no request leave no trace in this, and neither does the player number that a
record claims: two relays whose bytes differ in nothing else do the same, event by event.

Main results:

- Theorem `Account.eq_cut`: a client that closes has been heard to the end.
- Theorem `step_matches`: a step upon bytes that match comes to the same and leaves bytes that match.
- Theorem `run_matches`: so two relays whose bytes match do the same from then on.
- Theorem `reports_life`: the commands of a relay, in every course of events.
-/

namespace FourInRow

open Wire

/-! ## Bytes that are not looked at -/

/-- Where a record of a kind holds a player number. -/
def Wire.Kind.playerByte? : Kind → Option Nat
  | connected | gameEnd | ready | takeTurn | update => some 0
  | gameStart => some 3
  | _ => none

/-- Records that differ in the player number only, or carry no message at all. -/
inductive Wire.Record.Akin : Record → Record → Prop
  | refl (record : Record) : Akin record record
  /-- The records are alike but for the byte that holds the player number. -/
  | player {record record' : Record} {kind : Kind} {i : Nat} (htag : record.tag = kind.tag)
      (htag' : record'.tag = kind.tag) (hplayer : kind.playerByte? = some i)
      (hsame : ∀ j, j ≠ i → record.byte j = record'.byte j) : Akin record record'
  /-- Neither record carries a message. -/
  | malformed {record record' : Record} {e e' : Error} (h : Message.decode record = .error e)
      (h' : Message.decode record' = .error e') : Akin record record'

namespace Relay

/-- A relay makes the same of two records. -/
def Alike (id : ConnectionId) (record record' : Record) : Prop :=
  record.request? id = record'.request? id ∧ (record.IsPong ↔ record'.IsPong)

theorem decode_of_tag {record : Record} {kind : Kind} (htag : record.tag = kind.tag) :
    Message.decode record = Message.ofKind kind record := by
  rw [Message.decode, htag, Kind.ofTag?_tag]

/-- A relay makes the same of records that differ in the player number only, or carry no message
at all. -/
theorem alike_of_akin (id : ConnectionId) {record record' : Record}
    (h : Record.Akin record record') : Alike id record record' := by
  cases h with
  | refl => exact ⟨rfl, Iff.rfl⟩
  | malformed h h' => simp [Alike, Record.request?, Record.IsPong, h, h']
  | @player _ kind i htag htag' hplayer hsame =>
      rw [Alike, Record.request?, Record.request?, Record.IsPong, Record.IsPong,
        decode_of_tag htag, decode_of_tag htag']
      cases kind with
      | takeTurn =>
          cases hplayer
          simp only [Message.ofKind, hsame 1 (by decide), hsame 2 (by decide)]
          by_cases hflag : record'.byte 2 = requestFlag
          · simp [hflag]
          · simp [hflag]
      | connected | gameEnd | ready | update | gameStart => simp [Message.ofKind]
      | _ => cases hplayer

/-- Events that differ at most in the bytes that arrive, and not in their number. -/
inductive Event.Paced : Event → Event → Prop
  | same (e : Event) : Paced e e
  | arrive {bytes bytes' : List UInt8} (h : bytes.length = bytes'.length) :
      Paced (.arrive bytes) (.arrive bytes')

/-- As many bytes wait here as there, and a relay makes the same of the records that begin with
them, once more bytes have come here and there. -/
structure Matches (id : ConnectionId) (more more' bytes bytes' : List UInt8) : Prop where
  length_eq : bytes.length = bytes'.length
  alike : List.Forall₂ (Alike id) (Record.cut (bytes ++ more)).1 (Record.cut (bytes' ++ more')).1

section

variable {id : ConnectionId} {more more' bytes bytes' : List UInt8}

/-- Bytes match when those match that have come by then. -/
theorem Matches.arrive {chunk chunk' : List UInt8} (hchunk : chunk.length = chunk'.length)
    (h : Matches id (chunk ++ more) (chunk' ++ more') bytes bytes') :
    Matches id more more' (bytes ++ chunk) (bytes' ++ chunk') where
  length_eq := by rw [List.length_append, List.length_append, h.length_eq, hchunk]
  alike := by
    rw [List.append_assoc, List.append_assoc]
    exact h.alike

/-- Where a record waits here, one of which a relay makes the same waits there. -/
theorem Matches.of_record {record : Record} {rest : List UInt8}
    (h : Matches id more more' (record.bytes ++ rest) bytes') :
    ∃ (record' : Record) (rest' : List UInt8), bytes' = record'.bytes ++ rest' ∧
      Alike id record record' ∧ Matches id more more' rest rest' := by
  have hlength := h.length_eq
  have halike := h.alike
  rcases Record.short_or_record bytes' with hshort | ⟨record', rest', rfl⟩
  · rw [List.length_append, Record.length_bytes] at hlength
    omega
  · simp only [List.length_append, Record.length_bytes, Nat.add_left_cancel_iff] at hlength
    rw [List.append_assoc, List.append_assoc, Record.cut_append, Record.cut_append] at halike
    cases halike with
    | cons hhead htail => exact ⟨record', rest', rfl, hhead, hlength, htail⟩

end

/-- A relay with other bytes waiting. -/
def withInbox (r : Relay) (bytes : List UInt8) : Relay := { r with inbox := bytes }

/-- A tick has nothing to do with the bytes that wait. -/
theorem tick_withInbox (r : Relay) (bytes : List UInt8) :
    (r.withInbox bytes).tick = (r.tick.1.withInbox bytes, r.tick.2) ∧
      r.tick.1.inbox = r.inbox := by
  cases hverdict : r.heartbeat.tick.2 with
  | expire =>
      simp only [tick, withInbox, hverdict]
      exact ⟨rfl, rfl⟩
  | ping =>
      cases hreleased : r.released with
      | true => simp [tick, withInbox, hverdict, hreleased, finishWith]
      | false => simp [tick, withInbox, hverdict, hreleased]

/-- Neither has writing. -/
theorem write_withInbox (r : Relay) (bytes : List UInt8) (room : Nat) :
    (r.withInbox bytes).write room = ((r.write room).1.withInbox bytes, (r.write room).2) ∧
      (r.write room).1.inbox = r.inbox := by
  cases hunwritten : r.unwritten with
  | cons b more => simp [write, withInbox, hunwritten]
  | nil =>
      cases houtbox : r.outbox with
      | cons m rest => simp [write, withInbox, hunwritten, houtbox]
      | nil =>
          cases hreleased : r.released with
          | true => simp [write, withInbox, hunwritten, houtbox, hreleased, finishWith]
          | false => simp [write, withInbox, hunwritten, houtbox, hreleased]

/-- Reading comes to the same upon bytes that match, and leaves bytes that match. -/
theorem read_matches {r : Relay} {more more' bytes : List UInt8}
    (h : Matches r.id more more' r.inbox bytes) :
    ∃ bytes', (r.withInbox bytes).read = (r.read.1.withInbox bytes', r.read.2) ∧
      Matches r.id more more' r.read.1.inbox bytes' := by
  rcases Record.short_or_record r.inbox with hshort | ⟨record, rest, hinbox⟩
  · have hother : (r.withInbox bytes).inbox.length < Record.length := h.length_eq ▸ hshort
    refine ⟨bytes, ?_⟩
    rw [read_of_short hshort, read_of_short hother]
    cases hfinished : r.finished with
    | true => simpa [withInbox, finishWith, hfinished] using h
    | false => simpa [withInbox, hfinished] using h
  · rw [hinbox] at h
    rcases h.of_record with ⟨record', rest', rfl, ⟨hrequest, hpong⟩, hrest⟩
    have hother : (r.withInbox (record'.bytes ++ rest')).inbox = record'.bytes ++ rest' := rfl
    refine ⟨rest', ?_⟩
    rw [read_eq hinbox, read_eq hother]
    by_cases hanswer : record.IsPong
    · rw [if_pos hanswer, if_pos (hpong.1 hanswer)]
      exact ⟨rfl, hrest⟩
    · rw [if_neg hanswer, if_neg fun hanswer' => hanswer (hpong.2 hanswer')]
      have hsame : record'.request? (r.withInbox (record'.bytes ++ rest')).id =
          record.request? r.id := hrequest.symm
      rw [hsame]
      cases record.request? r.id with
      | none => exact ⟨rfl, hrest⟩
      | some c =>
          cases hreachable : r.reachable with
          | true => simpa [passOn, withInbox, hreachable] using hrest
          | false => simpa [passOn, withInbox, finishWith, hreachable] using hrest

/-- A step upon bytes that match comes to the same, and leaves bytes that match. -/
theorem step_matches {r : Relay} {e e' : Event} (hpaced : Event.Paced e e')
    {more more' bytes : List UInt8}
    (h : Matches r.id (e.bytes ++ more) (e'.bytes ++ more') r.inbox bytes)
    (hrunning : r.ending = none) :
    ∃ bytes', (r.withInbox bytes).step e' = ((r.step e).1.withInbox bytes', (r.step e).2) ∧
      Matches r.id more more' (r.step e).1.inbox bytes' := by
  have hstep : r.step e = r.act e := by simp [step, hrunning]
  have hstep' : (r.withInbox bytes).step e' = (r.withInbox bytes).act e' := by
    simp [step, withInbox, hrunning]
  rw [hstep, hstep']
  cases hpaced with
  | @arrive chunk chunk' hchunk => exact ⟨bytes ++ chunk', rfl, h.arrive hchunk⟩
  | same =>
      cases e with
      | arrive chunk => exact ⟨bytes ++ chunk, rfl, h.arrive rfl⟩
      | read => exact read_matches h
      | tick =>
          rcases tick_withInbox r bytes with ⟨htick, hinbox⟩
          exact ⟨bytes, htick, hinbox ▸ h⟩
      | write room =>
          rcases write_withInbox r bytes room with ⟨hwrite, hinbox⟩
          exact ⟨bytes, hwrite, hinbox ▸ h⟩
      | post m =>
          refine ⟨bytes, ?_⟩
          change Matches r.id more more' r.inbox bytes at h
          cases hreleased : r.released with
          | true => simpa [act, withInbox, hreleased] using h
          | false => simpa [act, withInbox, hreleased] using h
      | finish | release | writeFails | hallCloses => exact ⟨bytes, rfl, h⟩

/-- No event changes the connection that a relay speaks for. -/
theorem Stepped.id_eq {r r' : Relay} {e : Event} {actions : List Action}
    (h : Stepped r e r' actions) : r'.id = r.id := by
  cases h with
  | done => rfl
  | goes hrunning hgoes =>
      rcases hgoes.progress hrunning with ⟨rs, hprogress⟩
      exact hprogress.id_eq
  | ends hrunning hends => exact hends.closing.id_eq

/-- Two relays do the same in courses of events that differ in bytes that are not looked at. -/
theorem run_matches {es es' : List Event} (hpaced : List.Forall₂ Event.Paced es es') {r : Relay}
    {bytes : List UInt8} (h : Matches r.id (arrived es) (arrived es') r.inbox bytes) :
    ((r.withInbox bytes).run es').2 = (r.run es).2 := by
  induction hpaced generalizing r bytes with
  | nil => rfl
  | @cons e e' es es' hhead htail ih =>
      by_cases hended : r.ending.isSome = true
      · rw [run_of_ended hended, run_of_ended (r := r.withInbox bytes) hended]
      · have hrunning := Option.not_isSome_iff_eq_none.1 hended
        rcases step_matches hhead h hrunning with ⟨bytes', hstep, hnext⟩
        rw [← (Stepped.of_step r e).id_eq] at hnext
        simp only [run, hstep, ih hnext]

/-! ## The requests in a stream -/

/-- The commands that a byte stream asks for: it is cut into records, and those that carry no
request are dropped. -/
def requests (id : ConnectionId) (stream : List UInt8) : List Command :=
  (Record.cut stream).1.filterMap (Record.request? id)

/-- What a stream asks for is asked in the name of the connection. -/
theorem eq_of_mem_requests {id : ConnectionId} {stream : List UInt8} {c : Command}
    (h : c ∈ requests id stream) : c = .ready id ∨ ∃ column, c = .turn id column := by
  rcases List.mem_filterMap.1 h with ⟨record, -, hrequest⟩
  unfold Record.request? at hrequest
  split at hrequest
  · exact Or.inl (Option.some.inj hrequest).symm
  · next column _ => exact Or.inr ⟨column, (Option.some.inj hrequest).symm⟩
  · cases hrequest

/-- A client sends a stream: it arrives in chunks, from the front, and all of it before the
client's end of the connection is closed. -/
structure Delivers (es : List Event) (stream : List UInt8) : Prop where
  isPrefix : arrived es <+: stream
  whole : ∀ n < es.length, es[n]? = some .finish → arrived (es.take n) = stream

/-- What arrives in the beginning of a course of events comes first. -/
theorem arrived_isPrefix {before es : List Event} (h : before <+: es) :
    arrived before <+: arrived es := by
  rcases h with ⟨rest, rfl⟩
  rw [arrived_append]
  exact List.prefix_append _ _

/-- Once a client has closed, its whole stream has arrived. -/
theorem Delivers.arrived_eq {before es : List Event} {stream : List UInt8}
    (hes : Delivers es stream) (hbefore : before <+: es) (hfinish : .finish ∈ before) :
    arrived before = stream := by
  rcases List.mem_iff_getElem?.1 hfinish with ⟨n, hn⟩
  have hlt : n < before.length := (List.getElem?_eq_some_iff.1 hn).1
  have hfinish' : es[n]? = some .finish := by
    rcases hbefore with ⟨rest, rfl⟩
    rw [List.getElem?_append_left hlt, hn]
  have hfirst := hes.whole n (hlt.trans_le hbefore.length_le) hfinish'
  have htake : es.take n <+: before :=
    List.prefix_of_prefix_length_le (List.take_prefix n es) hbefore
      ((List.length_take_le n es).trans hlt.le)
  have hleft : stream <+: arrived before := hfirst ▸ arrived_isPrefix htake
  have hright : arrived before <+: stream := (arrived_isPrefix hbefore).trans hes.isPrefix
  exact hright.eq_of_length (le_antisymm hright.length_le hleft.length_le)

section

variable {id : ConnectionId} {limit : UInt32} {es : List Event} {r : Relay} {cs : List Command}
  {bs : List Heartbeat.Event} {rs : List Record} {stream : List UInt8}

/-- What has been read of a stream are its first records. -/
theorem Account.isPrefix_cut (h : Account id limit es r cs bs rs) (hes : Delivers es stream) :
    rs <+: (Record.cut stream).1 := by
  rcases h.arrived_eq with ⟨rest, harrived, -⟩
  exact Record.isPrefix_cut (harrived ▸ hes.isPrefix)

/-- A client that closes has been heard to the end. -/
theorem Account.eq_cut (h : Account id limit es r cs bs rs) (hes : Delivers es stream)
    (hclosed : r.ending = some .peerClosed) : rs = (Record.cut stream).1 := by
  rcases h.whole hclosed with ⟨before, tail, hbefore, hfinish, harrived, hshort⟩
  rw [hes.arrived_eq hbefore hfinish] at harrived
  rw [Record.cut_eq_iff.2 ⟨harrived, hshort⟩]

end

/-! ## The commands of a relay -/

/-- A relay from its registration on. -/
def life (id : ConnectionId) (limit : UInt32) (reachable : Bool) (es : List Event) :
    Relay × List Action :=
  (((start id limit reachable).1.run es).1,
    (start id limit reachable).2 ++ ((start id limit reachable).1.run es).2)

/-- What a relay tells the hall in a course of events in which a client sends a stream. -/
structure Reports (id : ConnectionId) (stream : List UInt8) (es : List Event) (r : Relay)
    (cs : List Command) : Prop where
  /-- The connection is registered first; then some requests are passed on; a relay that has ended
  has told that the connection is gone, as its last word, if the hall could be reached. -/
  trace : ∃ passed, cs = .connect id :: passed ++
      (if r.ending.isSome ∧ r.reachable then [.disconnect id] else []) ∧
    passed <+: requests id stream ∧
    (r.ending = some .peerClosed → passed = requests id stream) ∧
    ∀ c ∈ passed, c = .ready id ∨ ∃ column, c = .turn id column
  /-- Only an event makes the hall unreachable. -/
  reachable : r.reachable = false → .hallCloses ∈ es

/-- The account of a run tells what the hall has been told. -/
theorem Account.reports {id : ConnectionId} {limit : UInt32} {es : List Event} {r : Relay}
    {cs : List Command} {bs : List Heartbeat.Event} {rs : List Record} {stream : List UInt8}
    (h : Account id limit es r cs bs rs) (hes : Delivers es stream) :
    Reports id stream es r (.connect id :: cs) where
  trace := by
    have hpassed : rs.filterMap (Record.request? id) <+: requests id stream :=
      (h.isPrefix_cut hes).filterMap _
    refine ⟨rs.filterMap (Record.request? id), ?_, hpassed, fun hclosed => ?_, fun c hc => ?_⟩
    · rw [h.commands_eq, farewell, h.id_eq]
      simp
    · rw [h.eq_cut hes hclosed, requests]
    · exact eq_of_mem_requests (hpassed.subset hc)
  reachable := h.reachable

/-- What a relay tells the hall, whatever stream its client sends and in whatever course of events:
nothing if it cannot register; and otherwise the connection, the requests in the stream up to some
record, all of them if the client closes, and that the connection is gone.  Records that carry no
message, and the player numbers in records, make no difference to anything the relay does. -/
theorem reports_life (id : ConnectionId) (limit : UInt32) (stream : List UInt8)
    (es : List Event) (hes : Delivers es stream) :
    ((life id limit false es).1.ending = some .unregistered ∧
      commands (life id limit false es).2 = []) ∧
    Reports id stream es (life id limit true es).1 (commands (life id limit true es).2) ∧
    ∀ (reachable : Bool) (es' : List Event), List.Forall₂ Event.Paced es es' →
      List.Forall₂ Record.Akin (Record.cut (arrived es)).1 (Record.cut (arrived es')).1 →
      (life id limit reachable es').2 = (life id limit reachable es).2 := by
  have hunregistered : (start id limit false).1.ending.isSome = true := rfl
  refine ⟨?_, ?_, fun reachable es' hpaced hakin => ?_⟩
  · rw [life, run_of_ended hunregistered]
    exact ⟨rfl, rfl⟩
  · rcases account_run id limit es with ⟨rs, haccount⟩
    exact haccount.reports hes
  · have hmatches : Matches (start id limit reachable).1.id (arrived es) (arrived es')
        (start id limit reachable).1.inbox [] := by
      cases reachable with
      | _ => exact ⟨rfl, hakin.imp fun _ _ => alike_of_akin id⟩
    have hother : (start id limit reachable).1.withInbox [] = (start id limit reachable).1 := by
      cases reachable with
      | _ => rfl
    have hrun := run_matches hpaced hmatches
    rw [hother] at hrun
    rw [life, life, hrun]

/-- A relay whose client sends junk, a request, what no client should send, another request and the
beginning of a record, and is then gone.  It would do the same with other junk, and if the client
claimed to be another player. -/
theorem reports_life_of_junk :
    let records (tag : UInt8) (player : Player) : List Record :=
      [⟨tag, List.replicate payloadLength player, rfl⟩, (Message.ready player).encode,
        (Message.gameEnd player).encode, (Message.takeTurn player 255).encode]
    let stream (tag : UInt8) (player : Player) : List UInt8 :=
      (records tag player).flatMap Record.bytes ++ [7, 1, 2]
    let course (bytes : List UInt8) : List Event :=
      [.arrive (bytes.take 20), .read, .tick, .arrive (bytes.drop 20), .read, .write 9, .read,
        .read, .finish, .read, .release, .tick]
    Delivers (course (stream 200 1)) (stream 200 1) ∧
      List.Forall₂ Event.Paced (course (stream 200 1)) (course (stream 17 9)) ∧
      List.Forall₂ Record.Akin (Record.cut (arrived (course (stream 200 1)))).1
        (Record.cut (arrived (course (stream 17 9)))).1 ∧
      commands (life ⟨5⟩ 3 true (course (stream 17 9))).2 =
        [.connect ⟨5⟩, .ready ⟨5⟩, .turn ⟨5⟩ 255, .disconnect ⟨5⟩] := by
  intro records stream course
  have hdelivers : Delivers (course (stream 200 1)) (stream 200 1) :=
    ⟨by decide +kernel, by decide +kernel⟩
  have hpaced : List.Forall₂ Event.Paced (course (stream 200 1)) (course (stream 17 9)) :=
    .cons (.arrive rfl) (.cons (.same _) (.cons (.same _) (.cons (.arrive rfl)
      (List.forall₂_same.2 fun e _ => .same e))))
  have hcut (tag : UInt8) (player : Player) :
      Record.cut (stream tag player) = (records tag player, [7, 1, 2]) :=
    Record.cut_eq_iff.2 ⟨rfl, by decide⟩
  have harrived (tag : UInt8) (player : Player) :
      arrived (course (stream tag player)) = stream tag player := by
    simp [arrived, course, Event.bytes]
  have hakin : List.Forall₂ Record.Akin (Record.cut (arrived (course (stream 200 1)))).1
      (Record.cut (arrived (course (stream 17 9)))).1 := by
    rw [harrived, harrived, hcut, hcut]
    refine .cons (.malformed rfl rfl) (.cons (@Record.Akin.player _ _ .ready 0 rfl rfl rfl ?_)
      (.cons (@Record.Akin.player _ _ .gameEnd 0 rfl rfl rfl ?_)
        (.cons (@Record.Akin.player _ _ .takeTurn 0 rfl rfl rfl ?_) .nil)))
    all_goals
      intro j hj
      rw [Message.byte_encode, Message.byte_encode]
      cases j with
      | zero => exact absurd rfl hj
      | succ j => rfl
  rcases reports_life ⟨5⟩ 3 (stream 200 1) (course (stream 200 1)) hdelivers with
    ⟨-, hreports, hsame⟩
  rcases hreports.trace with ⟨passed, htrace, -, hwhole, -⟩
  have hclosed : (life ⟨5⟩ 3 true (course (stream 200 1))).1.ending = some .peerClosed := by
    decide +kernel
  have hreachable : (life ⟨5⟩ 3 true (course (stream 200 1))).1.reachable = true := by
    decide +kernel
  refine ⟨hdelivers, hpaced, hakin, ?_⟩
  rw [hsame true _ hpaced hakin, htrace, hwhole hclosed, hclosed, hreachable, requests, hcut]
  decide +kernel

end Relay

end FourInRow
