import FourInRow.Proofs.Lobby.Foyer
import FourInRow.Proofs.Lobby.Prompt

/-!
# Readiness in any order

It does not matter in which order the members of a lobby say that they are ready, nor how often they
say it, nor who else says it: what comes of it is told by the set of those who have said so.  If
they have made everybody ready a match begins, at the call of the one that the others have waited
for, with the next first player that chance chooses.

Main results:

- Theorem `Readied.readyAll`: what comes of several calls, from what comes of the first one.
- Theorem `run_ready`: what comes of any calls, told by the set of the callers.
- Theorem `Readied.begins_iff`: which call makes a match begin.
- Theorem `ready_confluent`: calls of the same callers come to the same.
-/

namespace FourInRow

/-- A peer, ready if it is among those who say so. -/
def Peer.noted (p : Peer) (ids : List ConnectionId) : Peer :=
  if p.id ∈ ids then { p with ready := true } else p

/-- A choice uses up one of the numbers that were drawn. -/
theorem Draws.choose_snd (n : Nat) (d : Draws) : (choose n d).2 = d.tail := by
  cases d <;> rfl

namespace Peer

@[simp] theorem noted_nil (p : Peer) : p.noted [] = p := by simp [noted]

/-- Saying so again makes no difference to whoever is ready. -/
theorem noted_of_ready {p : Peer} (h : p.ready = true) (ids : List ConnectionId) :
    p.noted ids = p := by
  unfold noted
  split
  · rw [← h]
  · rfl

/-- One caller after the others, or all of them together. -/
theorem noted_cons (p : Peer) (id : ConnectionId) (ids : List ConnectionId) :
    p.noted (id :: ids) = (if p.id = id then { p with ready := true } else p).noted ids := by
  unfold noted
  by_cases hid : p.id = id
  · simp [hid]
  · simp [hid]

end Peer

namespace Lobby

instance (l : Lobby) : Decidable l.AllReady :=
  decidable_of_iff (l.members.length = l.capacity ∧ ∀ p ∈ l.members, p.ready = true)
    allReady_iff.symm

/-! ## What several calls come to -/

/-- The lobby after it has been noted that some are ready. -/
def noteAll (l : Lobby) (ids : List ConnectionId) : Lobby :=
  { l with
    seats := l.seats.map (Option.map fun p => p.noted ids)
    readied := l.members.countP fun p => (p.noted ids).ready }

/-- What comes of several calls between matches, whatever their order: a match begins if everybody
is ready now and was not before. -/
def readyAll (l : Lobby) (d : Draws) (ids : List ConnectionId) : Lobby × Draws × Mail :=
  if l.isPlaying then (l, d, [])
  else if (l.noteAll ids).AllReady ∧ ¬ l.AllReady then (l.noteAll ids).beginMatch d
  else (l.noteAll ids, d, [])

/-- Only what is noted of the members matters. -/
theorem noteAll_congr {l : Lobby} {ids ids' : List ConnectionId}
    (h : ∀ p ∈ l.members, p.noted ids = p.noted ids') : l.noteAll ids = l.noteAll ids' := by
  have hseats : l.seats.map (Option.map fun p => p.noted ids) =
      l.seats.map (Option.map fun p => p.noted ids') := map_seats_congr h
  rw [noteAll, noteAll, hseats, List.countP_congr fun p hp => by rw [h p hp]]

/-- Nothing is noted where nobody calls. -/
theorem Sound.noteAll_nil {l : Lobby} (h : l.Sound) : l.noteAll [] = l := by
  have hseats : l.seats.map (Option.map fun p => p.noted []) = l.seats :=
    map_seats_eq_self fun p _ => p.noted_nil
  have hreadied : (l.members.countP fun p => (p.noted []).ready) = l.readied := by
    simp only [Peer.noted_nil, h.readied_eq]
  rw [noteAll, hseats, hreadied]

/-- Where everybody is ready nothing is left to be noted. -/
theorem Sound.noteAll_of_allReady {l : Lobby} (h : l.Sound) (hall : l.AllReady)
    (ids : List ConnectionId) : l.noteAll ids = l := by
  have hsame : l.noteAll ids = l.noteAll [] := noteAll_congr fun p hp => by
    rw [Peer.noted_of_ready ((allReady_iff.1 hall).2 p hp), p.noted_nil]
  rw [hsame, h.noteAll_nil]

/-- Whoever is ready already makes no difference. -/
theorem Sound.noteAll_cons_of_ready {l : Lobby} (h : l.Sound) {id : ConnectionId}
    (hready : ∀ p, l.member? id = some p → p.ready = true) (ids : List ConnectionId) :
    l.noteAll (id :: ids) = l.noteAll ids := by
  refine noteAll_congr fun p hp => ?_
  rw [Peer.noted_cons]
  by_cases hid : p.id = id
  · have hp' := hready p ((member?_eq_some_iff h.nodup).2 ⟨hp, hid⟩)
    rw [if_pos hid, ← hp']
  · rw [if_neg hid]

/-- One caller before the others is noted like one among them. -/
theorem noteAll_noteReady (l : Lobby) (id : ConnectionId) (ids : List ConnectionId) :
    (l.noteReady id).noteAll ids = l.noteAll (id :: ids) := by
  have hseats : (l.noteReady id).seats.map (Option.map fun p => p.noted ids) =
      l.seats.map (Option.map fun p => p.noted (id :: ids)) := by
    simp only [noteReady, updateMember, map_map_seats, Peer.noted_cons]
  have hcount : ((l.noteReady id).members.countP fun p => (p.noted ids).ready) =
      l.members.countP fun p => (p.noted (id :: ids)).ready := by
    simp only [members_noteReady, List.countP_map, Function.comp_def, Peer.noted_cons]
  rw [noteAll, hseats, hcount]
  rfl

/-- What comes of several calls is told by the set of the callers. -/
theorem readyAll_congr (l : Lobby) (d : Draws) {ids ids' : List ConnectionId}
    (h : ∀ id, id ∈ ids ↔ id ∈ ids') : l.readyAll d ids = l.readyAll d ids' := by
  have hnoted : l.noteAll ids = l.noteAll ids' := noteAll_congr fun p _ => by
    simp only [Peer.noted, h]
  rw [readyAll, readyAll, hnoted]

/-! ## The call that makes a match begin -/

/-- Whoever is not ready keeps a lobby from being so. -/
theorem not_allReady_of_mem {l : Lobby} {p : Peer} (hp : p ∈ l.members)
    (hready : p.ready = false) : ¬ l.AllReady := by
  intro h
  have := (allReady_iff.1 h).2 p hp
  rw [hready] at this
  cases this

/-- Is this connection all that a full lobby waits for? -/
structure LacksOnly (l : Lobby) (id : ConnectionId) : Prop where
  full : l.members.length = l.capacity
  exists_member : ∃ p ∈ l.members, p.id = id ∧ p.ready = false
  others_ready : ∀ q ∈ l.members, q.id ≠ id → q.ready = true

/-- A lobby lacks only a member if it would be ready with it. -/
theorem lacksOnly_iff {l : Lobby} {id : ConnectionId} {p : Peer}
    (hp : l.member? id = some p) (hready : p.ready = false) :
    l.LacksOnly id ↔ (l.noteReady id).AllReady := by
  have hlength := length_members_of_lineup_eq (lineup_noteReady l id)
  rw [allReady_iff, capacity_noteReady, hlength, members_noteReady, List.forall_mem_map]
  constructor
  · intro hlacks
    refine ⟨hlacks.full, fun q hq => ?_⟩
    split
    · rfl
    · next hother => exact hlacks.others_ready q hq hother
  · rintro ⟨hfull, hall⟩
    have hmem := mem_of_member? hp
    refine ⟨hfull, ⟨p, hmem.1, hmem.2, hready⟩, fun q hq hne => ?_⟩
    have hq' := hall q hq
    rwa [if_neg hne] at hq'

/-- A call makes a match begin exactly if it comes from the only one that a full lobby has waited
for, and the board is playable. -/
theorem Readied.begins_iff {l l' : Lobby} {d d' : Draws} {id : ConnectionId} {mail : Mail}
    (h : l.Sound) (hr : Readied l d id l' d' mail) :
    l.isPlaying = false ∧ l'.isPlaying = true ↔
      l.isPlaying = false ∧ l.LacksOnly id ∧
        ∃ size, Board.Size.check l.columns l.rows = .ok size := by
  refine and_congr_right fun hidle => ?_
  cases hr with
  | ignored hignored =>
      rw [hidle] at hignored ⊢
      have hready := hignored.resolve_left Bool.false_ne_true
      refine ⟨fun hplaying => absurd hplaying Bool.false_ne_true, ?_⟩
      rintro ⟨⟨-, ⟨p, hp, hid, hnot⟩, -⟩, -⟩
      rw [hready p ((member?_eq_some_iff h.nodup).2 ⟨hp, hid⟩)] at hnot
      cases hnot
  | noted _ hp hready hwait =>
      rw [lacksOnly_iff hp hready, h.allReady_noteReady_iff hp hready]
      refine ⟨fun hplaying => ?_, fun hall => absurd hall.1 hwait⟩
      exact absurd (hidle.symm.trans hplaying) Bool.false_ne_true
  | unplayable _ hp hready _ _ hsize =>
      refine ⟨fun hplaying => ?_, ?_⟩
      · exact absurd (hidle.symm.trans hplaying) Bool.false_ne_true
      · rintro ⟨-, size, hok⟩
        rw [hsize] at hok
        cases hok
  | begun _ hp hready hall hfull hsize =>
      rw [lacksOnly_iff hp hready, h.allReady_noteReady_iff hp hready]
      exact ⟨fun _ => ⟨⟨hall, hfull⟩, _, hsize⟩, fun _ => rfl⟩

/-! ## Call by call -/

/-- What comes of several calls, from what comes of the first one. -/
theorem Readied.readyAll {l l' : Lobby} {d d' : Draws} {id : ConnectionId} {mail : Mail}
    (h : l.Sound) (hr : Readied l d id l' d' mail) (ids : List ConnectionId) :
    l.readyAll d (id :: ids) =
      ((l'.readyAll d' ids).1, (l'.readyAll d' ids).2.1, mail ++ (l'.readyAll d' ids).2.2) := by
  cases hr with
  | ignored hignored =>
      by_cases hplaying : l.isPlaying = true
      · simp [Lobby.readyAll, hplaying]
      · rw [Lobby.readyAll, h.noteAll_cons_of_ready (hignored.resolve_left hplaying)]
        rfl
  | @noted p hidle hp hready hwait =>
      have hbefore := not_allReady_of_mem (mem_of_member? hp).1 hready
      have hafter : ¬ (l.noteReady id).AllReady := by
        rwa [h.allReady_noteReady_iff hp hready]
      have hidle' : (l.noteReady id).isPlaying = false := hidle
      simp [Lobby.readyAll, hidle, hidle', hbefore, hafter, noteAll_noteReady]
  | @unplayable p e hidle hp hready hall hfull hsize =>
      -- everybody is ready from now on, so that no later call tries to begin a match again
      have hbefore := not_allReady_of_mem (mem_of_member? hp).1 hready
      have hafter := (h.allReady_noteReady_iff hp hready).2 ⟨hall, hfull⟩
      have hidle' : (l.noteReady id).isPlaying = false := hidle
      have hsame := (h.noteReady hidle hp hready).noteAll_of_allReady hafter ids
      rw [noteAll_noteReady] at hsame
      have hbegin := beginMatch_of_error (l := l.noteReady id) hsize d
      simp [Lobby.readyAll, hidle, hidle', hbefore, hafter, noteAll_noteReady, hsame, hbegin]
  | @begun p size hidle hp hready hall hfull hsize =>
      -- the others are not noted any more, but there is nobody left to be noted
      have hbefore := not_allReady_of_mem (mem_of_member? hp).1 hready
      have hafter := (h.allReady_noteReady_iff hp hready).2 ⟨hall, hfull⟩
      have hsame := (h.noteReady hidle hp hready).noteAll_of_allReady hafter ids
      rw [noteAll_noteReady] at hsame
      have hbegin := beginMatch_of_ok (l := l.noteReady id) hsize d
      have hplaying : ∀ first, ((l.noteReady id).withMatch first size).isPlaying = true :=
        fun _ => rfl
      simp [Lobby.readyAll, hidle, hbefore, hafter, hsame, hbegin, hplaying]

/-- Nothing comes of no calls. -/
theorem Sound.readyAll_nil {l : Lobby} (h : l.Sound) (d : Draws) :
    l.readyAll d [] = (l, d, []) := by
  simp [readyAll, h.noteAll_nil]

/-- However many calls there are, one choice is used up at most. -/
theorem draws_readyAll (l : Lobby) (d : Draws) (ids : List ConnectionId) :
    (l.readyAll d ids).2.1 = d ∨ (l.readyAll d ids).2.1 = d.tail := by
  unfold readyAll
  split
  · exact Or.inl rfl
  · split
    · right
      cases hsize : Board.Size.check l.columns l.rows with
      | error e => rw [beginMatch_of_error (l := l.noteAll ids) hsize, Draws.choose_snd]
      | ok size => rw [beginMatch_of_ok (l := l.noteAll ids) hsize, Draws.choose_snd]
    · exact Or.inl rfl

end Lobby

namespace Foyer

/-- What comes of any calls is told by the set of the callers. -/
theorem run_ready {f : Foyer} (h : f.lobby.Sound) (ids : List ConnectionId) :
    f.run (ids.map .ready) =
      ({ f with
          lobby := (f.lobby.readyAll f.draws ids).1
          draws := (f.lobby.readyAll f.draws ids).2.1 },
        (f.lobby.readyAll f.draws ids).2.2) := by
  induction ids generalizing f with
  | nil => rw [h.readyAll_nil]; rfl
  | cons id ids ih =>
      have hreadied := Lobby.Readied.of_ready f.lobby f.draws id
      have hrest := ih (f := (f.step (.ready id)).1) (h.ready hreadied)
      rw [hreadied.readyAll h ids, List.map_cons, run]
      simp only [hrest]
      rfl

/-- Whatever has happened to a lobby of any size and for any board: calls of the same callers, in
any order and as often as they like, those of strangers included, come to the same lobby, leave the
same choices to chance, and tell everybody the same.  They use up one choice at most.  Whatever has
been called before, a call makes a match begin only if it comes from the one member that a full
lobby has waited for. -/
theorem ready_confluent (number : Nat) (capacity columns rows : UInt8) (outside : List Peer)
    (draws : Draws) (es : List Event) {ids ids' : List ConnectionId}
    (hsame : ∀ id, id ∈ ids ↔ id ∈ ids') :
    let f := ((⟨Lobby.new number capacity columns rows, outside, draws⟩ : Foyer).run es).1
    f.run (ids.map .ready) = f.run (ids'.map .ready) ∧
      ((f.run (ids.map .ready)).1.draws = f.draws ∨
        (f.run (ids.map .ready)).1.draws = f.draws.tail) ∧
      ∀ (before : List ConnectionId) (id : ConnectionId),
        let g := (f.run (before.map .ready)).1
        g.lobby.isPlaying = false ∧ (g.step (.ready id)).1.lobby.isPlaying = true ↔
          g.lobby.isPlaying = false ∧ g.lobby.LacksOnly id ∧
            ∃ size, Board.Size.check columns rows = .ok size := by
  intro f
  rcases kept_run_new number capacity columns rows outside draws es with ⟨hsound, hfixed⟩
  refine ⟨?_, ?_, fun before id => ?_⟩
  · rw [run_ready hsound, run_ready hsound, f.lobby.readyAll_congr f.draws hsame]
  · rw [run_ready hsound]
    exact f.lobby.draws_readyAll f.draws ids
  · intro g
    rcases kept_run hsound (before.map .ready) with ⟨hsound', hfixed'⟩
    have hboard := hfixed.trans hfixed'
    have hiff := (Lobby.Readied.of_ready g.lobby g.draws id).begins_iff hsound'
    rw [hboard.columns_eq, hboard.rows_eq] at hiff
    exact hiff

/-- The second member, the first one twice and a stranger in between, and the same three the other
way round: both times a match begins, and the second member has the first turn. -/
theorem ready_confluent_of_two :
    let f := ((new 2 7 6 [1]).run [.openDoors, .enter ⟨1⟩, .enter ⟨2⟩]).1
    let r := f.run ([⟨2⟩, ⟨1⟩, ⟨9⟩, ⟨1⟩].map .ready)
    f.run ([⟨1⟩, ⟨9⟩, ⟨2⟩].map .ready) = r ∧ r.1.lobby.isPlaying = true ∧ r.1.draws = [] ∧
      r.2 = [(⟨1⟩, .gameStart 2 7 6 2), (⟨2⟩, .gameStart 2 7 6 2), (⟨2⟩, .turnRequest 2)] := by
  have hsame : ∀ id : ConnectionId, id ∈ [⟨1⟩, ⟨9⟩, ⟨2⟩] ↔ id ∈ [⟨2⟩, ⟨1⟩, ⟨9⟩, ⟨1⟩] := by
    intro id
    simp only [List.mem_cons, List.not_mem_nil, or_false]
    tauto
  refine ⟨(ready_confluent 0 2 7 6 [] [1] [.openDoors, .enter ⟨1⟩, .enter ⟨2⟩] hsame).1, ?_⟩
  decide +kernel

end Foyer

end FourInRow
