import FourInRow.Proofs.Hall.Requests

/-!
# Lobbies are isolated

A command is heard in the lobby where its connection has a seat, and nowhere else.  What becomes of
that lobby and what its members hear of it depends on nothing but the lobby, the command, the random
draw and, where a seat is left, the queue that fills it: `Lobby.answer` says how.  A command of
somebody who has no seat comes to nothing, unless it leaves its place in the queue.

Main results:

- Theorem `seatFrom_fill`: filling up a lobby of a hall is filling up the lobby alone.
- Theorem `Confined.of_setLobby`: a change in one lobby is confined to it.
- Theorem `Confined.of_backfill`: so is a change that leaves seats to be filled.
- Theorem `lobbies_isolated`: what the commands of a connection change, and what they do not.
-/

namespace FourInRow

/-- The connection that a command is about, if it is one that has come before. -/
def Command.actor? : Command → Option ConnectionId
  | ready id | turn id _ | disconnect id => some id
  | connect _ | shutDown => none

/-! ## A lobby by itself -/

namespace Lobby

/-- Fills the free seats of a lobby from the front of a queue, past those who have stopped
listening. -/
def fill (l : Lobby) : List Peer → Lobby × Mail
  | [] => (l, [])
  | p :: rest =>
    if l.hasFreeSeat then
      if p.listening then
        match l.seat p with
        | none => (l, [])
        | some (_, l', mail) => ((l'.fill rest).1, mail ++ (l'.fill rest).2)
      else l.fill rest
    else (l, [])

/-- What a lobby does about a command of one of its members, and what it says.  Chance decides
something only when a member says ready, and the queue matters only when a member leaves. -/
def answer (l : Lobby) (draws : Draws) (queue : List Peer) : Command → Lobby × Mail
  | .ready id => ((l.ready draws id).1, (l.ready draws id).2.2)
  | .turn id column => l.turn id column
  | .disconnect id =>
    match l.leave id with
    | none => (l, [])
    | some (_, l', mail) => ((l'.fill queue).1, mail ++ (l'.fill queue).2)
  | .connect _ | .shutDown => (l, [])

/-- Filling up a lobby makes it talk to those who wait only. -/
theorem recipient_mem_fill {l : Lobby} {queue : List Peer} {e : ConnectionId × Message}
    (he : e ∈ (l.fill queue).2) : e.1 ∈ queue.map Peer.id := by
  induction queue generalizing l with
  | nil => cases he
  | cons p rest ih =>
      rw [List.map_cons, List.mem_cons]
      unfold fill at he
      split at he
      · split at he
        · split at he
          · cases he
          · next hseat =>
              rcases List.mem_append.1 he with he | he
              · exact Or.inl (recipient_of_seat hseat he)
              · exact Or.inr (ih he)
        · exact Or.inr (ih he)
      · cases he

end Lobby

namespace Hall

/-! ## Filling up -/

/-- Filling up a lobby of a hall is filling up the lobby alone. -/
theorem seatFrom_fill (queue : List Peer) {n : Nat} {h : Hall} {l : Lobby}
    (hl : h.lobbies[n]? = some l) :
    (seatFrom n h queue).1.lobbies[n]? = some (l.fill queue).1 ∧
      mailOf (seatFrom n h queue).2.2 = (l.fill queue).2 := by
  induction queue generalizing h l with
  | nil => exact ⟨hl, rfl⟩
  | cons p rest ih =>
      have hsame : h.hasFreeSeat n = l.hasFreeSeat := by simp [Hall.hasFreeSeat, hl]
      unfold seatFrom Lobby.fill
      rw [hsame]
      by_cases hfree : l.hasFreeSeat = true
      · rw [if_pos hfree, if_pos hfree]
        by_cases hlistening : p.listening = true
        · rw [if_pos hlistening, if_pos hlistening]
          cases hseat : l.seat p with
          | none =>
              have hplace : h.place n p = none := by simp [place, hl, hseat]
              rw [hplace]
              exact ⟨hl, rfl⟩
          | some r =>
              rcases r with ⟨player, l', mail⟩
              rw [place_eq_some_iff.2 ⟨l, player, l', hl, hseat, rfl⟩]
              have hl' : ({ h.setLobby n l' with index := h.index.insert p.id n } :
                  Hall).lobbies[n]? = some l' := by
                change (h.setLobby n l').lobbies[n]? = some l'
                rw [getElem?_setLobby hl, if_pos rfl]
              rcases ih hl' with ⟨hlobby, hmail⟩
              refine ⟨hlobby, ?_⟩
              rw [mailOf_append, mailOf_sends, hmail]
        · rw [if_neg hlistening, if_neg hlistening]
          exact ih hl
      · rw [if_neg hfree, if_neg hfree]
        exact ⟨hl, rfl⟩

/-- A lobby is filled up from the front of the queue. -/
theorem seatFrom_isSuffix (n : Nat) (h : Hall) (queue : List Peer) :
    (seatFrom n h queue).2.1 <:+ queue := by
  induction queue generalizing h with
  | nil => exact List.suffix_refl _
  | cons p rest ih =>
      unfold seatFrom
      split
      · split
        · split
          · exact List.suffix_refl _
          · exact (ih _).trans (List.suffix_cons p rest)
        · exact (ih _).trans (List.suffix_cons p rest)
      · exact List.suffix_refl _

/-- When a lobby is filled up, those who wait further hear of their places, and nobody else of
anything but its seat. -/
theorem mailOf_backfill {h : Hall} {n : Nat} {l : Lobby} (hl : h.lobbies[n]? = some l) :
    ∃ mail, mailOf (h.backfill n).2 = (l.fill h.queue).2 ++ mail ∧
      ∀ e ∈ mail, e.1 ∈ (h.backfill n).1.queue.map Peer.id := by
  have hmail := (seatFrom_fill h.queue hl).2
  unfold backfill
  simp only
  split
  · exact ⟨[], by simpa using hmail, fun e he => nomatch he⟩
  · refine ⟨_, by rw [mailOf_append, mailOf_sends, hmail], ?_⟩
    intro e he
    rcases mem_queue_of_announced he with ⟨p, hp, hid, -⟩
    exact List.mem_map.2 ⟨p, hp, hid⟩

/-- Where nobody waits nothing is done. -/
theorem backfill_of_nobody {h : Hall} (hqueue : h.queue = []) (n : Nat) :
    h.backfill n = (h, []) := by
  cases h
  cases hqueue
  rfl

/-- Whoever does not wait hears of nothing but seats when a lobby is filled up. -/
theorem messagesTo_backfill {h : Hall} {n : Nat} {l : Lobby} (hl : h.lobbies[n]? = some l)
    {id : ConnectionId} (hid : id ∉ (h.backfill n).1.queue.map Peer.id) :
    messagesTo (h.backfill n).2 id = (l.fill h.queue).2.messagesTo id := by
  rcases mailOf_backfill hl with ⟨mail, hmail, hwaiting⟩
  rw [← messagesTo_mailOf, hmail, Mail.messagesTo_append,
    Mail.messagesTo_eq_nil_of_notMem hwaiting hid, List.append_nil]

/-- Whoever waits after a lobby has been filled up has waited before. -/
theorem mem_queue_of_backfill {h : Hall} {n : Nat} {id : ConnectionId}
    (hid : id ∈ (h.backfill n).1.queue.map Peer.id) : id ∈ h.queue.map Peer.id := by
  rw [queue_backfill] at hid
  exact ((seatFrom_isSuffix n h h.queue).sublist.map Peer.id).subset hid

/-- Filling up a lobby is nothing to those who did not wait. -/
theorem messagesTo_backfill_eq_nil {h : Hall} {n : Nat} {l : Lobby} (hl : h.lobbies[n]? = some l)
    {id : ConnectionId} (hid : id ∉ h.queue.map Peer.id) :
    messagesTo (h.backfill n).2 id = [] := by
  rw [messagesTo_backfill hl fun hmem => hid (mem_queue_of_backfill hmem)]
  exact Mail.messagesTo_eq_nil_of_notMem (fun e he => Lobby.recipient_mem_fill he) hid

/-! ## Changes that are confined to a lobby -/

/-- What happens is confined to the lobby with number `n`: no other lobby changes, and none of its
members hears anything.  The lobby becomes, and its members hear, what has been worked out for it
alone. -/
structure Confined (h : Hall) (n : Nat) (l : Lobby) (h' : Hall) (effects : List Effect)
    (answer : Lobby × Mail) : Prop where
  length_eq : h'.lobbies.length = h.lobbies.length
  others_eq : ∀ m, m ≠ n → h'.lobbies[m]? = h.lobbies[m]?
  silent : ∀ m k, m ≠ n → h.lobbies[m]? = some k → ∀ p ∈ k.members, messagesTo effects p.id = []
  lobby_eq : h'.lobbies[n]? = some answer.1
  /-- Both those who were members and those who are now. -/
  heard_eq : ∀ id, id ∈ l.members.map Peer.id ∨ id ∈ answer.1.members.map Peer.id →
    messagesTo effects id = answer.2.messagesTo id

section

variable {h : Hall} {n : Nat} {l l' : Lobby} {mail : Mail}

/-- Whoever has a seat does not wait. -/
theorem Sound.not_mem_queue (hs : h.Sound) (hl : h.lobbies[n]? = some l) {id : ConnectionId}
    (hid : id ∈ l.members.map Peer.id) : id ∉ h.queue.map Peer.id := by
  intro hqueue
  rcases List.mem_map.1 hqueue with ⟨p, hp, rfl⟩
  exact hs.not_mem_members_of_queue hp hl hid

/-- A change in one lobby is confined to it, if the lobby talks to its members only. -/
theorem Confined.of_setLobby (hs : h.Sound) (hl : h.lobbies[n]? = some l)
    (hmail : ∀ e ∈ mail, e.1 ∈ l.members.map Peer.id) {h' : Hall}
    (hlobbies : h'.lobbies = (h.setLobby n l').lobbies) :
    Confined h n l h' (sends mail) (l', mail) where
  length_eq := by
    rw [hlobbies]
    exact List.length_set ..
  others_eq m hm := by rw [hlobbies, getElem?_setLobby hl, if_neg hm]
  silent m k hm hk p hp := by
    rw [messagesTo_sends]
    refine Mail.messagesTo_eq_nil_of_notMem hmail fun hmem => hm ?_
    exact hs.lobby_unique hk hl (List.mem_map_of_mem hp) hmem
  lobby_eq := by rw [hlobbies, getElem?_setLobby hl, if_pos rfl]
  heard_eq id _ := messagesTo_sends mail id

/-- So is a change that leaves seats to be filled from the queue. -/
theorem Confined.of_backfill (hs : h.Sound) (hl : h.lobbies[n]? = some l)
    (hmail : ∀ e ∈ mail, e.1 ∈ l.members.map Peer.id) (id : ConnectionId) {h' : Hall}
    (hs' : h'.Sound) (hlobbies : h'.lobbies = (h.setLobby n l').lobbies)
    (hqueue : h'.queue = h.queue) :
    Confined h n l (h'.backfill n).1 (sends mail ++ .release id :: (h'.backfill n).2)
      ((l'.fill h.queue).1, mail ++ (l'.fill h.queue).2) := by
  have hset : Confined h n l h' (sends mail) (l', mail) := .of_setLobby hs hl hmail hlobbies
  have hlobby : (h'.backfill n).1.lobbies[n]? = some (l'.fill h.queue).1 := by
    rw [lobbies_backfill, hqueue]
    exact (seatFrom_fill _ hset.lobby_eq).1
  have heffects : ∀ i, messagesTo (sends mail ++ .release id :: (h'.backfill n).2) i =
      messagesTo (sends mail) i ++ messagesTo (h'.backfill n).2 i := by
    intro i
    rw [messagesTo_append]
    rfl
  constructor
  · rw [lobbies_backfill, length_lobbies_seatFrom]
    exact hset.length_eq
  · intro m hm
    rw [lobbies_backfill, getElem?_seatFrom_of_ne hm]
    exact hset.others_eq m hm
  · intro m k hm hk p hp
    have hout : p.id ∉ h'.queue.map Peer.id := by
      rw [hqueue]
      exact hs.not_mem_queue hk (List.mem_map_of_mem hp)
    rw [heffects, hset.silent m k hm hk p hp, messagesTo_backfill_eq_nil hset.lobby_eq hout]
    rfl
  · exact hlobby
  · intro i hi
    have hout : i ∉ (h'.backfill n).1.queue.map Peer.id := by
      rcases hi with hbefore | hafter
      · exact fun hmem => hs.not_mem_queue hl hbefore (hqueue ▸ mem_queue_of_backfill hmem)
      · exact (hs'.moves (backfill_moves .review h' n)).not_mem_queue hlobby hafter
    rw [heffects, messagesTo_sends, messagesTo_backfill hset.lobby_eq hout, hqueue,
      Mail.messagesTo_append]

end

/-! ## The commands of those who have a seat -/

section

variable {h : Hall} {n : Nat} {l : Lobby} {id : ConnectionId}

/-- A hall in which nobody waits in vain has nothing to fill after a turn, for a turn leaves
everybody in place. -/
theorem Conserves.turn_eq (hs : h.Sound) (hc : h.Conserves) (hl : h.lobbies[n]? = some l)
    (hfind : h.index.find? id = some n) (column : UInt8) :
    h.turn id column = (h.setLobby n (l.turn id column).1, sends (l.turn id column).2) := by
  have hlobby := (hs.lodges n l hl).sound
  have hturned : Lobby.Turned l id column _ _ := .of_turn hlobby id column
  have hset : (h.setLobby n (l.turn id column).1).lobbies[n]? = some (l.turn id column).1 := by
    rw [getElem?_setLobby hl, if_pos rfl]
  have hnothing : (h.setLobby n (l.turn id column).1).backfill n =
      (h.setLobby n (l.turn id column).1, []) := by
    by_cases hwait : h.queue = []
    · exact backfill_of_nobody (h := h.setLobby n _) hwait n
    · refine backfill_of_taken ?_
      rw [Hall.hasFreeSeat, hset, Option.any_some]
      exact hlobby.no_free_seat_of_lineup (hlobby.turn hturned) (hc.isOpen.isOpen n l hl)
        hturned.lineup_eq ((hc.filled hwait).2 n l hl)
  rw [turn_eq_of_find? hfind hl, hnothing, List.append_nil]

/-- What a command of somebody in a seat comes to is confined to the lobby. -/
theorem Conserves.confined (hs : h.Sound) (hc : h.Conserves) (hl : h.lobbies[n]? = some l)
    (hid : id ∈ l.members.map Peer.id) {c : Command} (hactor : c.actor? = some id) :
    Confined h n l (h.handle c).1 (h.handle c).2 (l.answer h.draws h.queue c) := by
  have hfind : h.index.find? id = some n := (hs.index_iff id n).2 ⟨l, hl, hid⟩
  have hlobby := (hs.lodges n l hl).sound
  cases c with
  | connect | shutDown => cases hactor
  | ready i =>
      cases hactor
      have hreadied : Lobby.Readied l h.draws id _ _ _ := .of_ready l h.draws id
      simp only [handle, ready_eq_of_find? hfind hl]
      exact .of_setLobby hs hl (fun e he => hreadied.recipient_mem he) rfl
  | turn i column =>
      cases hactor
      have hturned : Lobby.Turned l id column _ _ := .of_turn hlobby id column
      simp only [handle, hc.turn_eq hs hl hfind column]
      exact .of_setLobby hs hl (fun e he => hturned.recipient_mem he) rfl
  | disconnect i =>
      cases hactor
      rcases Lobby.exists_leave hid with ⟨p, l', mail, hleave⟩
      have hleft := Lobby.Left.of_leave hleave
      simp only [handle, disconnect, hfind, hl, Option.bind_some, hleave, Lobby.answer]
      exact .of_backfill hs hl (fun e he => hleft.recipient_mem he) id (hs.left hl hleft) rfl rfl

end

/-! ## All commands -/

/-- What a command of a connection can change, and what not. -/
structure Isolated (h : Hall) (c : Command) (id : ConnectionId) : Prop where
  /-- Nothing comes of it if the connection neither has a seat nor waits. -/
  stranger : id ∉ h.held.map Peer.id → h.handle c = (h, [])
  /-- Whoever waits can only leave. -/
  waiting : id ∈ h.queue.map Peer.id → c ≠ .disconnect id → h.handle c = (h, [])
  /-- If the connection has a seat, what happens is confined to its lobby. -/
  confined : ∀ n l, h.lobbies[n]? = some l → id ∈ l.members.map Peer.id →
    Confined h n l (h.handle c).1 (h.handle c).2 (l.answer h.draws h.queue c)
  /-- As long as it does not leave, nobody comes or goes. -/
  hall : c ≠ .disconnect id → (h.handle c).1.queue = h.queue ∧
    (h.handle c).1.index = h.index ∧ (h.handle c).1.announced = h.announced

/-- A lobby with a member has seats. -/
theorem Sound.seats_of_mem {h : Hall} (hs : h.Sound) {n : Nat} {l : Lobby} {id : ConnectionId}
    (hl : h.lobbies[n]? = some l) (hid : id ∈ l.members.map Peer.id) :
    0 < h.settings.playersPerLobby.toNat := by
  have hmember : 0 < l.members.length := by
    rw [← List.length_map Peer.id]
    exact List.length_pos_of_mem hid
  rw [← (hs.lodges n l hl).capacity_eq]
  exact hmember.trans_le (Lobby.length_seated_le l.seats)

/-- Whoever has no seat can do nothing but leave. -/
theorem handle_of_unseated {h : Hall} {c : Command} {id : ConnectionId}
    (hactor : c.actor? = some id) (hfind : h.index.find? id = none)
    (hstays : c ≠ .disconnect id) : h.handle c = (h, []) := by
  cases c with
  | connect | shutDown => cases hactor
  | ready i =>
      cases hactor
      simp [handle, ready, hfind, sends]
  | turn i column =>
      cases hactor
      simp [handle, turn, hfind]
  | disconnect i =>
      cases hactor
      exact absurd rfl hstays

/-- Nothing comes of a command of somebody whom the hall does not hold. -/
theorem handle_of_stranger {h : Hall} {c : Command} {id : ConnectionId}
    (hactor : c.actor? = some id) (hid : ¬ h.Holds id) : h.handle c = (h, []) := by
  have hfind : h.index.find? id = none := find?_eq_none_of_not_holds hid
  by_cases hstays : c = .disconnect id
  · have hqueue : (h.queue.find? fun p => p.id = id) = none := by
      refine List.find?_eq_none.2 fun p hp heq => hid (Or.inr ?_)
      exact List.mem_map.2 ⟨p, hp, of_decide_eq_true heq⟩
    subst hstays
    simp only [handle, disconnect, hfind, hqueue]
  · exact handle_of_unseated hactor hfind hstays

/-- A sound hall in which nobody waits in vain, where lobbies have seats at all, isolates its
lobbies. -/
theorem Sound.isolated {h : Hall} (hs : h.Sound)
    (hc : 0 < h.settings.playersPerLobby.toNat → h.Conserves) {c : Command} {id : ConnectionId}
    (hactor : c.actor? = some id) : Isolated h c id where
  stranger hid := handle_of_stranger hactor fun hholds => hid ((hs.mem_held_iff id).2 hholds)
  waiting hid hstays := by
    rcases List.mem_map.1 hid with ⟨p, hp, rfl⟩
    exact handle_of_unseated hactor (hs.queue_unseated p hp) hstays
  confined n l hl hid := (hc (hs.seats_of_mem hl hid)).confined hs hl hid hactor
  hall hstays := by
    cases hfind : h.index.find? id with
    | none =>
        rw [handle_of_unseated hactor hfind hstays]
        exact ⟨rfl, rfl, rfl⟩
    | some n =>
        rcases (hs.index_iff id n).1 hfind with ⟨l, hl, hid⟩
        cases c with
        | connect | shutDown => cases hactor
        | disconnect i =>
            cases hactor
            exact absurd rfl hstays
        | ready i =>
            cases hactor
            simp only [handle, ready_eq_of_find? hfind hl]
            exact ⟨rfl, rfl, rfl⟩
        | turn i column =>
            cases hactor
            simp only [handle, (hc (hs.seats_of_mem hl hid)).turn_eq hs hl hfind column]
            exact ⟨rfl, rfl, rfl⟩

/-- In every run in which no connection is made twice, until the hall is shut, and whatever the
settings are: a command of a connection that has no seat changes nothing and says nothing to anybody,
unless it is to leave the queue.  The command of a member of a lobby changes no other lobby, and no
member of another one hears anything; what its own lobby becomes, and what those hear who were or
are its members, is worked out from the lobby, the command, the random draw and, where a seat is
left, the queue.  Unless somebody leaves, the queue, the index and the last count of the queue remain
as they are. -/
theorem lobbies_isolated (s : Settings) (d : Draws) (es : List Event)
    (hfresh : (arrivals es).Nodup) (hopen : .command .shutDown ∉ es) (c : Command)
    (id : ConnectionId) (hactor : c.actor? = some id) :
    Isolated ((Hall.new s d).run es).1 c id := by
  refine (sound_run s d hfresh).isolated (fun hseats => ?_) hactor
  rw [settings_run s d hfresh] at hseats
  exact conserves_run_of_seats hseats d hfresh hopen

/-- A member of the first lobby leaves, and its seat goes to the only one who waits; the match in the
second lobby goes on, and its players hear nothing of this. -/
theorem lobbies_isolated_of_queued :
    let s : Settings := { Settings.default with maxLobbies := 2 }
    let es : List Event :=
      [.command (.connect ⟨1⟩), .command (.connect ⟨2⟩), .command (.connect ⟨3⟩),
        .command (.connect ⟨4⟩), .command (.connect ⟨5⟩), .command (.ready ⟨3⟩),
        .command (.ready ⟨4⟩)]
    let c : Command := .disconnect ⟨1⟩
    let h := ((Hall.new s [1]).run es).1
    (arrivals es).Nodup ∧ .command .shutDown ∉ es ∧ c.actor? = some ⟨1⟩ ∧
      (∃ k ∈ h.lobbies[1]?, k.isPlaying = true ∧ (h.handle c).1.lobbies[1]? = some k ∧
        ∀ p ∈ k.members, messagesTo (h.handle c).2 p.id = []) ∧
      ∃ l ∈ h.lobbies[0]?, (h.handle c).1.lobbies[0]? = some (l.answer h.draws h.queue c).1 ∧
        (l.answer h.draws h.queue c).1.members.map Peer.id = [⟨5⟩, ⟨2⟩] ∧
        messagesTo (h.handle c).2 ⟨5⟩ = [.connected 1] := by
  intro s es c h
  have hfresh : (arrivals es).Nodup := by decide
  have hopen : .command .shutDown ∉ es := by decide
  have hisolated : Isolated h c ⟨1⟩ := lobbies_isolated s [1] es hfresh hopen c ⟨1⟩ rfl
  obtain ⟨l, hl, hmember, hnow, hmail⟩ : ∃ l ∈ h.lobbies[0]?, ⟨1⟩ ∈ l.members.map Peer.id ∧
      (l.answer h.draws h.queue c).1.members.map Peer.id = [⟨5⟩, ⟨2⟩] ∧
        (l.answer h.draws h.queue c).2.messagesTo ⟨5⟩ = [.connected 1] := by decide +kernel
  obtain ⟨k, hk, hplaying⟩ : ∃ k ∈ h.lobbies[1]?, k.isPlaying = true := by decide +kernel
  clear_value h
  have hconfined := hisolated.confined 0 l hl hmember
  have hfive : ⟨5⟩ ∈ (l.answer h.draws h.queue c).1.members.map Peer.id := by
    rw [hnow]
    exact List.mem_cons_self
  exact ⟨hfresh, hopen, rfl,
    ⟨k, hk, hplaying, (hconfined.others_eq 1 (by decide)).trans hk,
      hconfined.silent 1 k (by decide) hk⟩,
    l, hl, hconfined.lobby_eq, hnow, (hconfined.heard_eq ⟨5⟩ (Or.inr hfive)).trans hmail⟩

end Hall

end FourInRow
