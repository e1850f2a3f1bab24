import FourInRow.Proofs.Lobby.Advance
import FourInRow.Proofs.Lobby.Standing
import FourInRow.Proofs.Match.Rotation

/-!
# Matches begin without delay

In a lobby that a match can be played in no match is waited for in vain: as soon as the last seat is
taken and the last member is ready a match begins, and it is the match that the members are told of.

Main results:

- Theorem `Advances.prompt`: whatever happens to a lobby, it does not leave a match waiting.
- Theorem `Advances.announced`: whatever happens, the running match is the one announced last.
- Theorem `Readied.announces`: every announcement is of the match that has just begun.
-/

namespace FourInRow

/-- The newest announcement of a match among some messages. -/
def newestStart (ms : List Message) : Option Message :=
  (ms.filter fun m => m.kind = .gameStart).getLast?

/-- What is said about anything else leaves the newest announcement. -/
theorem newestStart_append_of_kind_ne {ms ms' : List Message}
    (h : ∀ m ∈ ms', m.kind ≠ .gameStart) : newestStart (ms ++ ms') = newestStart ms := by
  have hnone : (ms'.filter fun m => m.kind = .gameStart) = [] :=
    List.filter_eq_nil_iff.2 fun m hm => by simpa using h m hm
  rw [newestStart, List.filter_append, hnone, List.append_nil, newestStart]

/-- An announcement is the newest one when it is made. -/
theorem newestStart_concat {ms : List Message} {m : Message} (h : m.kind = .gameStart) :
    newestStart (ms ++ [m]) = some m := by
  simp [newestStart, List.filter_append, h]

/-- A request announces nothing. -/
theorem Peer.kind_of_mem_request_ne (p : Peer) (player : Player) :
    ∀ m ∈ p.request player, m.kind ≠ .gameStart := by
  intro m hm
  unfold Peer.request at hm
  split at hm
  · rw [List.mem_singleton.1 hm]
    exact Wire.Kind.noConfusion
  · cases hm

namespace Lobby

/-! ## Who is ready -/

/-- Is every seat taken by a peer that is ready? -/
def AllReady (l : Lobby) : Prop := ∀ seat ∈ l.seats, ∃ p, seat = some p ∧ p.ready = true

/-- All are ready exactly if there are as many members as seats, and the members are. -/
theorem allReady_iff {l : Lobby} :
    l.AllReady ↔ l.members.length = l.capacity ∧ ∀ p ∈ l.members, p.ready = true := by
  constructor
  · intro h
    refine ⟨?_, fun p hp => ?_⟩
    · refine List.filterMap_length_eq_length.2 fun seat hseat => ?_
      rcases h seat hseat with ⟨p, rfl, -⟩
      rfl
    · rcases h (some p) (mem_members.1 hp) with ⟨q, hq, hready⟩
      cases hq
      exact hready
  · rintro ⟨hfull, hready⟩ seat hseat
    have hsome := List.filterMap_length_eq_length.1 hfull seat hseat
    rcases Option.isSome_iff_exists.1 hsome with ⟨p, rfl⟩
    exact ⟨p, rfl, hready p (mem_members.2 hseat)⟩

/-- The last one to say so makes everybody ready. -/
theorem Sound.allReady_noteReady_iff {l : Lobby} (h : l.Sound) {id : ConnectionId} {p : Peer}
    (hp : l.member? id = some p) (hready : p.ready = false) :
    (l.noteReady id).AllReady ↔ l.readied + 1 = l.players ∧ l.isFull = true := by
  have hcount := h.countP_noteReady hp hready
  have hlength := length_members_of_lineup_eq (lineup_noteReady l id)
  rw [allReady_iff, capacity_noteReady, isFull, beq_iff_eq, h.players_eq, ← List.countP_eq_length,
    hcount, hlength]
  omega

/-- Nobody is ready right after a match. -/
theorem not_allReady_endMatch {l : Lobby} (hseats : 0 < l.capacity) (winner : Player) :
    ¬ (l.endMatch winner).1.AllReady := by
  intro h
  rcases allReady_iff.1 h with ⟨hfull, hready⟩
  rw [capacity_of_lineup_eq (lineup_endMatch l winner)] at hfull
  rw [members_endMatch] at hfull hready
  cases hmembers : l.members with
  | nil =>
      rw [hmembers] at hfull
      exact hseats.ne hfull
  | cons p ps =>
      rw [hmembers] at hready
      exact absurd (hready _ List.mem_cons_self) (by simp)

/-! ## No match is waited for in vain -/

/-- Can a match be played in a lobby?  There have to be seats enough and a board. -/
structure Playable (l : Lobby) : Prop where
  seats : Match.minPlayers.toNat ≤ l.capacity
  exists_size : ∃ size, Board.Size.check l.columns l.rows = .ok size

/-- The number of seats is a number of players. -/
theorem Playable.minPlayers_le {l : Lobby} (h : l.Playable) (hs : l.Sound) :
    Match.minPlayers ≤ UInt8.ofNat l.capacity := by
  have hle := hs.capacity_le
  rw [UInt8.le_iff_toNat_le, UInt8.toNat_ofNat_of_lt' (by simp only [UInt8.size]; omega)]
  exact h.seats

theorem Playable.capacity_pos {l : Lobby} (h : l.Playable) : 0 < l.capacity :=
  Nat.lt_of_lt_of_le (by decide) h.seats

/-- Does a match run as soon as all are ready? -/
def Prompt (l : Lobby) : Prop := l.AllReady → l.isPlaying = true

/-- A member that says ready last makes a match begin. -/
theorem Prompt.ready {l l' : Lobby} {d d' : Draws} {id : ConnectionId} {mail : Mail}
    (h : l.Prompt) (hs : l.Sound) (hplayable : l.Playable) (hr : Readied l d id l' d' mail) :
    l'.Prompt := by
  cases hr with
  | ignored => exact h
  | noted _ hp hready hwait =>
      exact fun hall => absurd ((hs.allReady_noteReady_iff hp hready).1 hall) hwait
  | unplayable _ _ _ _ _ hsize =>
      rcases hplayable.exists_size with ⟨size, hok⟩
      rw [hsize] at hok
      cases hok
  | begun => exact fun _ => rfl

theorem Prompt.turn {l l' : Lobby} {id : ConnectionId} {column : UInt8} {mail : Mail}
    (h : l.Prompt) (hplayable : l.Playable) (ht : Turned l id column l' mail) : l'.Prompt := by
  cases ht with
  | stranger => exact h
  | idle => exact h
  | rejected => exact h
  | moved => exact fun _ => rfl
  | finished => exact fun hall => absurd hall (not_allReady_endMatch hplayable.capacity_pos _)

/-- A lobby that somebody has left is not full. -/
theorem Prompt.leave {l l' : Lobby} {id : ConnectionId} {p : Peer} {mail : Mail}
    (hplayable : l.Playable) (hl : Left l id p l' mail) : l'.Prompt := by
  cases hl with
  | idle hp hidle =>
      intro hall
      have hfull := (allReady_iff.1 hall).1
      rcases mem_of_member? hp with ⟨hmem, rfl⟩
      have hlt : (l.members.filter fun q => q.id ≠ p.id).length < l.members.length :=
        List.length_filter_lt_length_iff_exists.2 ⟨p, hmem, by simp⟩
      have hle : l.members.length ≤ l.capacity := length_seated_le l.seats
      rw [members_vacate, capacity_vacate] at hfull
      omega
  | brokenOff =>
      refine fun hall => absurd hall (not_allReady_endMatch ?_ _)
      rw [capacity_vacate]
      exact hplayable.capacity_pos

/-- Whatever happens to a lobby, it does not leave a match waiting. -/
theorem Advances.prompt {l l' : Lobby} {mail : Mail} (ha : l.Advances mail l') (hs : l.Sound)
    (hplayable : l.Playable) (h : l.Prompt) : l'.Prompt := by
  cases ha with
  | same => exact h
  | seated hseat =>
      intro hall
      have hnew := (perm_members_seat hseat).mem_iff.2 List.mem_cons_self
      have hready := (allReady_iff.1 hall).2 _ hnew
      rw [assign_ready] at hready
      cases hready
  | readied hreadied => exact h.ready hs hplayable hreadied
  | turned hturned => exact h.turn hplayable hturned
  | left hleft => exact .leave hplayable hleft
  | closed =>
      intro hall
      have hfull := (allReady_iff.1 hall).1
      rw [members_emptied, (fixed_emptied l).capacity_eq] at hfull
      exact absurd hfull hplayable.capacity_pos.ne
  | hungUp id =>
      intro hall
      refine h fun seat hseat => ?_
      rcases hall _ (List.mem_map_of_mem hseat) with ⟨p, hp, hready⟩
      rcases Option.map_eq_some_iff.1 hp with ⟨q, rfl, rfl⟩
      refine ⟨q, rfl, ?_⟩
      split at hready <;> exact hready

/-! ## The match that is announced -/

/-- The announcement of a match in a lobby. -/
def announcement (l : Lobby) (first : Player) : Message :=
  .gameStart (UInt8.ofNat l.capacity) l.columns l.rows first

/-- Is the running match, with its first player, the one that the members were told of last? -/
def Announced (l : Lobby) (heard : ConnectionId → List Message) : Prop :=
  ∀ game accepting, l.phase = .playing game accepting → ∃ first,
    game.Stems (UInt8.ofNat l.capacity) first l.columns l.rows ∧
      ∀ p ∈ l.members, p.listening = true → newestStart (heard p.id) = some (l.announcement first)

theorem announcement_of_fixed {l l' : Lobby} (h : Fixed l l') (first : Player) :
    l'.announcement first = l.announcement first := by
  simp only [announcement, h.capacity_eq, h.columns_eq, h.rows_eq]

theorem announced_of_idle {l : Lobby} (hidle : l.isPlaying = false)
    (heard : ConnectionId → List Message) : l.Announced heard :=
  fun game accepting hphase => absurd hphase (phase_ne_of_idle hidle game accepting)

/-- A size that is accepted has the given dimensions. -/
theorem dimensions_of_check {columns rows : UInt8} {size : Board.Size}
    (h : Board.Size.check columns rows = .ok size) : size.columns = columns ∧ size.rows = rows := by
  unfold Board.Size.check at h
  split at h
  · cases h
    exact ⟨rfl, rfl⟩
  · cases h

/-- Other mail to the members leaves the announcement as it was. -/
theorem Announced.of_kinds {l l' : Lobby} {heard : ConnectionId → List Message} {mail : Mail}
    {kinds : List Wire.Kind} (h : l.Announced heard) (hmail : mail.OfKinds kinds)
    (hkinds : .gameStart ∉ kinds) (hphase : l'.phase = l.phase) (hfixed : Fixed l l')
    (hmembers : ∀ p ∈ l'.members, p.listening = true → p ∈ l.members) :
    l'.Announced fun id => heard id ++ mail.messagesTo id := by
  intro game accepting hplaying
  rcases h game accepting (hphase ▸ hplaying) with ⟨first, hstems, htold⟩
  refine ⟨first, ?_, fun p hp hlistening => ?_⟩
  · rw [hfixed.capacity_eq, hfixed.columns_eq, hfixed.rows_eq]
    exact hstems
  rw [newestStart_append_of_kind_ne fun m hm => hmail.kind_ne hkinds hm,
    announcement_of_fixed hfixed]
  exact htold p (hmembers p hp hlistening) hlistening

/-- The match that begins is announced. -/
theorem announced_withMatch {l : Lobby} (hs : l.Sound) {first : Player} {size : Board.Size}
    (hsize : Board.Size.check l.columns l.rows = .ok size)
    (hfirst : (Match.start (UInt8.ofNat l.capacity) first size).current = first)
    (heard : ConnectionId → List Message) :
    (l.withMatch first size).Announced fun id =>
      heard id ++ (l.openingMail first size).messagesTo id := by
  intro game accepting hphase
  cases hphase
  rcases dimensions_of_check hsize with ⟨hcolumns, hrows⟩
  have hstems := Match.stems_start hfirst
  rw [hcolumns, hrows] at hstems
  refine ⟨first, hstems, fun p hp hlistening => ?_⟩
  have htold := messagesTo_openingMail hs.nodup first size (p := p) hp
  change newestStart (heard p.id ++ (l.openingMail first size).messagesTo p.id) = _
  rw [htold, Peer.hears, if_pos hlistening, List.append_cons,
    newestStart_append_of_kind_ne (p.kind_of_mem_request_ne first), hcolumns, hrows]
  exact newestStart_concat rfl

/-- Whoever is drawn to begin begins. -/
theorem current_of_begun {l : Lobby} (hs : l.Sound) {id : ConnectionId} {p : Peer}
    (hp : l.member? id = some p) (d : Draws) (size : Board.Size) :
    (Match.start (UInt8.ofNat (l.noteReady id).capacity)
      (UInt8.ofNat ((d.choose l.capacity).1 + 1)) size).current =
        UInt8.ofNat ((d.choose l.capacity).1 + 1) := by
  have hseats : 0 < l.capacity :=
    (List.length_pos_of_mem (mem_of_member? hp).1).trans_le (length_seated_le l.seats)
  rw [capacity_noteReady]
  exact current_start hs.capacity_le hseats d size

/-- Whatever happens to a lobby, the running match is the one that the members were told of last. -/
theorem Advances.announced {l l' : Lobby} {mail : Mail} (ha : l.Advances mail l') (hs : l.Sound)
    {heard : ConnectionId → List Message} (h : l.Announced heard) :
    l'.Announced fun id => heard id ++ mail.messagesTo id := by
  cases ha with
  | same => exact h.of_kinds .nil List.not_mem_nil rfl (.refl l) fun p hp _ => hp
  | seated hseat =>
      refine announced_of_idle ?_ _
      have hphase := (hs.hasFreeSeat_iff.1 (seat_eq_some_iff.1 hseat).1).1
      rcases seat_eq_some_iff.1 hseat with ⟨-, i, -, -, rfl, -⟩
      simp [isPlaying, game?, hphase]
  | readied hreadied =>
      cases hreadied with
      | ignored => exact h.of_kinds .nil List.not_mem_nil rfl (.refl l) fun p hp _ => hp
      | noted hidle => exact announced_of_idle (l := l.noteReady _) hidle _
      | unplayable hidle => exact announced_of_idle (l := l.noteReady _) hidle _
      | begun hidle hp hready hall hfull hsize =>
          exact announced_withMatch (hs.noteReady hidle hp hready) hsize
            (current_of_begun hs hp _ _) heard
  | turned hturned =>
      have hkinds := hturned.ofKinds
      cases hturned with
      | stranger => exact h.of_kinds hkinds (by decide) rfl (.refl l) fun p hp _ => hp
      | idle => exact h.of_kinds hkinds (by decide) rfl (.refl l) fun p hp _ => hp
      | rejected => exact h.of_kinds hkinds (by decide) rfl (.refl l) fun p hp _ => hp
      | @moved p game game' accepting hp hphase hturned hgoing =>
          rintro _ _ ⟨⟩
          rcases h game accepting hphase with ⟨first, hstems, htold⟩
          refine ⟨first, hstems.turn hturned, fun q hq hlistening => ?_⟩
          rw [newestStart_append_of_kind_ne fun m hm => hkinds.kind_ne (by decide) hm]
          exact htold q hq hlistening
      | finished => exact announced_of_idle rfl _
  | left hleft =>
      cases hleft with
      | idle hp hidle => exact announced_of_idle (l := l.vacate _ _) hidle _
      | brokenOff => exact announced_of_idle rfl _
  | closed => exact announced_of_idle rfl _
  | hungUp id =>
      exact h.of_kinds .nil List.not_mem_nil rfl (fixed_hangUp l id) fun p hp hlistening =>
        mem_of_listening_hangUp hp hlistening

/-- Every announcement is of the match that has just begun, and for a member that listens. -/
theorem Readied.announces {l l' : Lobby} {d d' : Draws} {id i : ConnectionId} {mail : Mail}
    (hs : l.Sound) (hplayable : l.Playable) (hr : Readied l d id l' d' mail) {m : Message}
    (hm : m ∈ mail.messagesTo i) (hkind : m.kind = .gameStart) :
    ∃ game accepting, l'.phase = .playing game accepting ∧ game.turns = 0 ∧
      (∃ p ∈ l'.members, p.id = i ∧ p.listening = true) ∧
        m = .gameStart game.players game.board.size.columns game.board.size.rows game.current := by
  have hi : i ∈ l'.members.map Peer.id := by
    rw [map_id_of_lineup_eq hr.lineup_eq]
    rcases List.mem_filterMap.1 hm with ⟨e, he, hsome⟩
    split at hsome
    · next heq => exact heq ▸ hr.recipient_mem he
    · cases hsome
  rcases List.mem_map.1 hi with ⟨p, hp, rfl⟩
  cases hr with
  | @begun q size hidle hq hready hall hfull hsize =>
      have hs' := hs.noteReady hidle hq hready
      have hfirst := current_of_begun hs hq d size
      have hplayers : Match.minPlayers ≤ UInt8.ofNat (l.noteReady id).capacity := by
        rw [capacity_noteReady]
        exact hplayable.minPlayers_le hs
      have hdimensions := (Match.stems_start hfirst).hasDimensions hplayers
      rw [messagesTo_openingMail hs'.nodup _ _ hp] at hm
      unfold Peer.hears at hm
      split at hm
      · next hlistening =>
          refine ⟨_, _, rfl, rfl, ⟨p, hp, rfl, hlistening⟩, ?_⟩
          rcases List.mem_cons.1 hm with rfl | hm
          · rw [hfirst, hdimensions.1]
            rfl
          · exact absurd hkind (p.kind_of_mem_request_ne _ m hm)
      · cases hm
  | _ => cases hm

end Lobby

end FourInRow
