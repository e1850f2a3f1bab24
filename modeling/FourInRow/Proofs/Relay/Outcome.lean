import FourInRow.Proofs.Wire.Cut
import FourInRow.Relay.Basic

/-!
# What a relay does about an event

A relay that has ended does nothing.  One that has not either goes on or ends; `Relay.Goes` and
`Relay.Ends` list how, with the guards, the relay afterwards and what it does.  Later statements
about relays are case analyses over these relations.

Main results:

- Theorem `Stepped.of_step`: a step comes to one of the outcomes of `Stepped`.
- Theorem `exists_ends`: a relay that has ended in a course of events has ended by one of them.
- Theorem `Ends.run_eq`: what happens after that makes no difference.
-/

namespace FourInRow

/-- The command that a record stands for, if it is a client's request.  It is made in the name of
the connection that the record came from, whatever player number the record holds. -/
def Wire.Record.request? (id : ConnectionId) (record : Wire.Record) : Option Command :=
  match Message.decode record with
  | .ok (.ready _) => some (.ready id)
  | .ok (.takeTurn _ column) => some (.turn id column)
  | _ => none

/-- Does a record carry an answer to a question for a sign of life? -/
def Wire.Record.IsPong (record : Wire.Record) : Prop := Message.decode record = .ok .pong

instance (record : Wire.Record) : Decidable record.IsPong := by
  unfold Wire.Record.IsPong
  infer_instance

namespace Relay

open Wire

/-- The last word to the hall, once the relay has ended: the connection is gone.  It does not
arrive where the hall is not to be reached. -/
def farewell (r : Relay) : List Command :=
  if r.ending.isSome && r.reachable then [.disconnect r.id] else []

/-- How a relay goes on. -/
inductive Goes (r : Relay) : Event → Relay → List Action → Prop
  /-- Bytes wait to be read. -/
  | arrived {bytes : List UInt8} : Goes r (.arrive bytes) { r with inbox := r.inbox ++ bytes } []
  /-- It is noted that no more bytes will come. -/
  | finished : Goes r .finish { r with finished := true } []
  /-- A request is passed on. -/
  | passed {record : Record} {rest : List UInt8} {c : Command}
      (hinbox : r.inbox = record.bytes ++ rest) (hrequest : record.request? r.id = some c)
      (hreachable : r.reachable = true) : Goes r .read { r with inbox := rest } [.command c]
  /-- An answer is noted. -/
  | answered {record : Record} {rest : List UInt8} (hinbox : r.inbox = record.bytes ++ rest)
      (hpong : record.IsPong) :
      Goes r .read { r with inbox := rest, heartbeat := r.heartbeat.pong } []
  /-- A record is skipped. -/
  | skipped {record : Record} {rest : List UInt8} (hinbox : r.inbox = record.bytes ++ rest)
      (hrequest : record.request? r.id = none) (hpong : ¬ record.IsPong) :
      Goes r .read { r with inbox := rest } []
  /-- There is nothing to read yet. -/
  | waited (hshort : r.inbox.length < Record.length) (hopen : r.finished = false) :
      Goes r .read r []
  /-- A question for a sign of life is queued. -/
  | asked (halive : r.heartbeat.tick.2 = .ping) (hheld : r.released = false) :
      Goes r .tick { r with heartbeat := r.heartbeat.tick.1, outbox := r.outbox ++ [.ping] } []
  /-- A message of the hall is queued. -/
  | posted {m : Message} (hheld : r.released = false) :
      Goes r (.post m) { r with outbox := r.outbox ++ [m] } []
  /-- After the hall has let go there is nobody left to queue a message. -/
  | ignored {m : Message} (hreleased : r.released = true) : Goes r (.post m) r []
  /-- It is noted that the hall has let go. -/
  | letGo : Goes r .release { r with released := true } []
  /-- Nothing is there to be written, but more may come. -/
  | rested {room : Nat} (hunwritten : r.unwritten = []) (houtbox : r.outbox = [])
      (hheld : r.released = false) : Goes r (.write room) r []
  /-- The next record is begun. -/
  | begun {room : Nat} {m : Message} {rest : List Message} (hunwritten : r.unwritten = [])
      (houtbox : r.outbox = m :: rest) :
      Goes r (.write room) { r with outbox := rest, unwritten := m.encode.bytes.drop room }
        [.bytes (m.encode.bytes.take room)]
  /-- More of a record is written. -/
  | written {room : Nat} (hunwritten : r.unwritten ≠ []) :
      Goes r (.write room) { r with unwritten := r.unwritten.drop room }
        [.bytes (r.unwritten.take room)]
  /-- The hall is lost. -/
  | cutOff : Goes r .hallCloses { r with reachable := false } []

/-- How a relay ends: what is left to be noted, and why it ends. -/
inductive Ends (r : Relay) : Event → Relay → Ending → Prop
  /-- A request cannot be passed on. -/
  | hallClosed {record : Record} {rest : List UInt8} {c : Command}
      (hinbox : r.inbox = record.bytes ++ rest) (hrequest : record.request? r.id = some c)
      (hunreachable : r.reachable = false) : Ends r .read { r with inbox := rest } .hallClosed
  /-- All records have been read, and no more will come. -/
  | peerClosed (hshort : r.inbox.length < Record.length) (hfinished : r.finished = true) :
      Ends r .read r .peerClosed
  /-- Too many questions have gone unanswered. -/
  | expired (hsilent : r.heartbeat.tick.2 = .expire) :
      Ends r .tick { r with heartbeat := r.heartbeat.tick.1 } .expired
  /-- It is found out that the hall has let go. -/
  | released (halive : r.heartbeat.tick.2 = .ping) (hreleased : r.released = true) :
      Ends r .tick { r with heartbeat := r.heartbeat.tick.1 } .released
  /-- All is written, and nothing more can come. -/
  | drained {room : Nat} (hunwritten : r.unwritten = []) (houtbox : r.outbox = [])
      (hreleased : r.released = true) : Ends r (.write room) r .writeEnded
  /-- Writing fails. -/
  | writeFailed : Ends r .writeFails r .writeEnded

/-- The outcomes of a step. -/
inductive Stepped (r : Relay) (e : Event) : Relay → List Action → Prop
  /-- The relay has ended before. -/
  | done (hdone : r.ending.isSome = true) : Stepped r e r []
  /-- The relay goes on. -/
  | goes {r' : Relay} {actions : List Action} (hrunning : r.ending = none)
      (hgoes : Goes r e r' actions) : Stepped r e r' actions
  /-- The relay ends. -/
  | ends {r' : Relay} {why : Ending} (hrunning : r.ending = none) (hends : Ends r e r' why) :
      Stepped r e (r'.finishWith why).1 (r'.finishWith why).2

/-- What a relay does about a record: an answer is noted, a request is passed on, and any other
record is skipped. -/
theorem read_eq {r : Relay} {record : Record} {rest : List UInt8}
    (hinbox : r.inbox = record.bytes ++ rest) :
    r.read =
      if record.IsPong then ({ r with inbox := rest, heartbeat := r.heartbeat.pong }, [])
      else
        match record.request? r.id with
        | some c => passOn { r with inbox := rest } c
        | none => ({ r with inbox := rest }, []) := by
  rw [read, Record.split?_eq_some_iff.2 hinbox]
  cases hdecode : Message.decode record with
  | error e => simp [Record.IsPong, Record.request?, hdecode]
  | ok m => cases m <;> simp [Record.IsPong, Record.request?, receive, request?, hdecode]

/-- Where no record has arrived a relay waits, or ends. -/
theorem read_of_short {r : Relay} (hshort : r.inbox.length < Record.length) :
    r.read = if r.finished then r.finishWith .peerClosed else (r, []) := by
  rw [read, Record.split?_eq_none_iff.2 hshort]

/-- What reading comes to. -/
theorem Stepped.of_read {r : Relay} (hrunning : r.ending = none) :
    Stepped r .read r.read.1 r.read.2 := by
  rcases Record.short_or_record r.inbox with hshort | ⟨record, rest, hinbox⟩
  · rw [read_of_short hshort]
    by_cases hfinished : r.finished = true
    · rw [if_pos hfinished]
      exact .ends hrunning (.peerClosed hshort hfinished)
    · rw [if_neg hfinished]
      exact .goes hrunning (.waited hshort (Bool.eq_false_iff.2 hfinished))
  · rw [read_eq hinbox]
    by_cases hpong : record.IsPong
    · rw [if_pos hpong]
      exact .goes hrunning (.answered hinbox hpong)
    · rw [if_neg hpong]
      cases hrequest : record.request? r.id with
      | none => exact .goes hrunning (.skipped hinbox hrequest hpong)
      | some c =>
          simp only [passOn]
          by_cases hreachable : r.reachable = true
          · rw [if_pos hreachable]
            exact .goes hrunning (.passed hinbox hrequest hreachable)
          · rw [if_neg hreachable]
            exact .ends hrunning (.hallClosed hinbox hrequest (Bool.eq_false_iff.2 hreachable))

/-- What a tick comes to. -/
theorem Stepped.of_tick {r : Relay} (hrunning : r.ending = none) :
    Stepped r .tick r.tick.1 r.tick.2 := by
  unfold tick
  cases hverdict : r.heartbeat.tick.2 with
  | expire =>
      simp only [hverdict]
      exact .ends hrunning (.expired hverdict)
  | ping =>
      simp only [hverdict]
      by_cases hreleased : r.released = true
      · rw [if_pos hreleased]
        exact .ends hrunning (.released hverdict hreleased)
      · rw [if_neg hreleased]
        exact .goes hrunning (.asked hverdict (Bool.eq_false_iff.2 hreleased))

/-- What writing comes to. -/
theorem Stepped.of_write {r : Relay} (hrunning : r.ending = none) (room : Nat) :
    Stepped r (.write room) (r.write room).1 (r.write room).2 := by
  unfold write
  cases hunwritten : r.unwritten with
  | cons b bytes =>
      have hmore : r.unwritten ≠ [] := by simp [hunwritten]
      have hwritten : Goes r (.write room) _ _ := .written hmore
      simpa only [hunwritten] using Stepped.goes hrunning hwritten
  | nil =>
      cases houtbox : r.outbox with
      | cons m rest => exact .goes hrunning (.begun hunwritten houtbox)
      | nil =>
          by_cases hreleased : r.released = true
          · rw [if_pos hreleased]
            exact .ends hrunning (.drained hunwritten houtbox hreleased)
          · rw [if_neg hreleased]
            exact .goes hrunning (.rested hunwritten houtbox (Bool.eq_false_iff.2 hreleased))

/-- A step comes to one of the outcomes of `Stepped`. -/
theorem Stepped.of_step (r : Relay) (e : Event) : Stepped r e (r.step e).1 (r.step e).2 := by
  unfold step
  by_cases hdone : r.ending.isSome = true
  · rw [if_pos hdone]
    exact .done hdone
  · have hrunning := Option.not_isSome_iff_eq_none.1 hdone
    rw [if_neg hdone]
    cases e with
    | arrive bytes => exact .goes hrunning .arrived
    | finish => exact .goes hrunning .finished
    | read => exact .of_read hrunning
    | tick => exact .of_tick hrunning
    | post m =>
        by_cases hreleased : r.released = true
        · rw [act, if_pos hreleased]
          exact .goes hrunning (.ignored hreleased)
        · rw [act, if_neg hreleased]
          exact .goes hrunning (.posted (Bool.eq_false_iff.2 hreleased))
    | release => exact .goes hrunning .letGo
    | write room => exact .of_write hrunning room
    | writeFails => exact .ends hrunning .writeFailed
    | hallCloses => exact .goes hrunning .cutOff

/-- A relay that has ended does nothing more. -/
theorem run_of_ended {r : Relay} (hended : r.ending.isSome = true) (es : List Event) :
    r.run es = (r, []) := by
  induction es with
  | nil => rfl
  | cons e es ih => simp [run, step, hended, ih]

/-- A relay that goes on has not ended. -/
theorem Goes.running {r r' : Relay} {e : Event} {actions : List Action}
    (hgoes : Goes r e r' actions) (hrunning : r.ending = none) : r'.ending = none := by
  cases hgoes <;> exact hrunning

/-- A request is no answer. -/
theorem not_isPong_of_request? {id : ConnectionId} {record : Record} {c : Command}
    (h : record.request? id = some c) : ¬ record.IsPong := by
  intro hpong
  rw [Record.request?, show Message.decode record = .ok .pong from hpong] at h
  cases h

/-- The relation `Ends` holds only where the relay does end so. -/
theorem Ends.step_eq {r r' : Relay} {e : Event} {why : Ending} (hends : Ends r e r' why)
    (hrunning : r.ending = none) : r.step e = r'.finishWith why := by
  have hact : r.step e = r.act e := by simp [step, hrunning]
  rw [hact]
  cases hends with
  | hallClosed hinbox hrequest hunreachable =>
      rw [act, read_eq hinbox, if_neg (not_isPong_of_request? hrequest), hrequest]
      simp [passOn, hunreachable]
  | peerClosed hshort hfinished => rw [act, read_of_short hshort, if_pos hfinished]
  | expired hsilent => simp [act, tick, hsilent]
  | released halive hreleased => simp [act, tick, halive, hreleased]
  | drained hunwritten houtbox hreleased => simp [act, write, hunwritten, houtbox, hreleased]
  | writeFailed => rfl

/-- A relay that ends by an event does nothing more, whatever happens then. -/
theorem Ends.run_eq {r r' : Relay} {past : List Event} {e : Event} {why : Ending}
    (hends : Ends (r.run past).1 e r' why) (hrunning : (r.run past).1.ending = none)
    (rest : List Event) :
    r.run (past ++ e :: rest) =
      ((r'.finishWith why).1, (r.run past).2 ++ (r'.finishWith why).2) := by
  have hended : (r'.finishWith why).1.ending.isSome = true := rfl
  rw [run_append, run, hends.step_eq hrunning]
  simp [run_of_ended hended]

/-- A relay that has ended in a course of events has ended by one of them. -/
theorem exists_ends {r : Relay} (hrunning : r.ending = none) {es : List Event} {why : Ending}
    (hwhy : (r.run es).1.ending = some why) :
    ∃ past e rest r', es = past ++ e :: rest ∧ (r.run past).1.ending = none ∧
      Ends (r.run past).1 e r' why := by
  induction es generalizing r with
  | nil =>
      rw [show (r.run []).1.ending = none from hrunning] at hwhy
      cases hwhy
  | cons e es ih =>
      have hstepped := Stepped.of_step r e
      change ((r.step e).1.run es).1.ending = some why at hwhy
      generalize hnext : r.step e = next at hstepped hwhy
      rcases next with ⟨r₁, actions⟩
      cases hstepped with
      | done hdone =>
          rw [show r₁.ending = none from hrunning] at hdone
          cases hdone
      | goes _ hgoes =>
          rcases ih (hgoes.running hrunning) hwhy with ⟨past, e', rest, r', rfl, hpast, hends⟩
          refine ⟨e :: past, e', rest, r', rfl, ?_, ?_⟩
          · simpa [run, hnext] using hpast
          · simpa [run, hnext] using hends
      | @ends r' why' _ hends =>
          rw [run_of_ended rfl] at hwhy
          cases hwhy
          exact ⟨[], e, es, r', rfl, hrunning, hends⟩

/-- Whatever ends a relay, its last word to the hall is that the connection is gone. -/
theorem commands_finishWith (r : Relay) (why : Ending) :
    commands (r.finishWith why).2 = (r.finishWith why).1.farewell := by
  unfold finishWith farewell commands
  cases r.reachable <;> rfl

/-- Ending writes nothing. -/
theorem written_finishWith (r : Relay) (why : Ending) : written (r.finishWith why).2 = [] := by
  unfold finishWith written
  cases r.reachable <;> rfl

/-- A relay that has not ended says no farewell. -/
theorem farewell_of_running {r : Relay} (h : r.ending = none) : r.farewell = [] := by
  simp [farewell, h]

@[simp] theorem commands_append (actions actions' : List Action) :
    commands (actions ++ actions') = commands actions ++ commands actions' :=
  List.filterMap_append

@[simp] theorem written_append (actions actions' : List Action) :
    written (actions ++ actions') = written actions ++ written actions' :=
  List.flatMap_append

theorem written_bytes (bs : List UInt8) : written [.bytes bs] = bs :=
  List.append_nil bs

end Relay

end FourInRow
