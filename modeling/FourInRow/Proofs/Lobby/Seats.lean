import FourInRow.Lobby.Play
import Mathlib

/-!
# Seats and members

How the operations on a row of seats look from the members' side: a newcomer joins the members,
somebody who leaves is missing from them, and what is done to every member is done to the list.

Main results:

- Theorem `perm_seated_set`: taking a free seat adds one member.
- Theorem `seated_map`: changing every member keeps the seats.
- Theorem `seated_clear`: clearing somebody's seat removes that member only.
- Theorem `member?_eq_some_iff`: a member is found by its connection.
-/

namespace FourInRow

namespace Lobby

/-! ## Members of a row of seats -/

/-- The peers in a row of seats, in order. -/
def seated (seats : List (Option Peer)) : List Peer := seats.filterMap fun s => s

theorem members_eq_seated (l : Lobby) : l.members = seated l.seats := rfl

theorem mem_seated {seats : List (Option Peer)} {p : Peer} :
    p ∈ seated seats ↔ some p ∈ seats := by
  simp [seated]

theorem mem_members {l : Lobby} {p : Peer} : p ∈ l.members ↔ some p ∈ l.seats := mem_seated

/-- A member sits in some seat. -/
theorem exists_seat_of_mem {l : Lobby} {p : Peer} (h : p ∈ l.members) :
    ∃ i : Nat, l.seats[i]? = some (some p) :=
  List.getElem?_of_mem (mem_members.1 h)

theorem mem_of_seat {l : Lobby} {i : Nat} {p : Peer} (h : l.seats[i]? = some (some p)) :
    p ∈ l.members :=
  mem_members.2 (List.mem_of_getElem? h)

/-- Taking a free seat adds one member. -/
theorem perm_seated_set {seats : List (Option Peer)} {i : Nat} (h : seats[i]? = some none)
    (p : Peer) : (seated (seats.set i (some p))).Perm (p :: seated seats) := by
  induction seats generalizing i with
  | nil => simp at h
  | cons s seats ih =>
      cases i with
      | zero =>
          have hs : s = none := by simpa using h
          subst s
          exact List.Perm.refl _
      | succ i =>
          have := ih (by simpa using h)
          cases s with
          | none => exact this
          | some q => exact (this.cons q).trans (List.Perm.swap p q _)

/-- There are no more members than seats. -/
theorem length_seated_le (seats : List (Option Peer)) :
    (seated seats).length ≤ seats.length :=
  List.length_filterMap_le _ _

/-- Where there are fewer members than seats, a seat is free. -/
theorem exists_free_seat {seats : List (Option Peer)}
    (h : (seated seats).length < seats.length) : ∃ i, seats.findIdx? Option.isNone = some i := by
  cases hfind : seats.findIdx? Option.isNone with
  | some i => exact ⟨i, rfl⟩
  | none =>
      exfalso
      rw [List.findIdx?_eq_none_iff] at hfind
      have hall : ∀ s ∈ seats, ((fun s => s) s).isSome = true := by
        intro s hs
        have := hfind s hs
        cases s with
        | none => simp at this
        | some p => rfl
      have := List.filterMap_length_eq_length.2 hall
      rw [seated, this] at h
      exact lt_irrefl _ h

/-- Where every seat is taken somebody sits in each of them. -/
theorem exists_seat_of_full {l : Lobby} (hfull : l.members.length = l.capacity) {i : Nat}
    (hi : i < l.capacity) : ∃ p, l.seats[i]? = some (some p) := by
  have hall := List.filterMap_length_eq_length.1 hfull
  have hi' : i < l.seats.length := hi
  rcases Option.isSome_iff_exists.1 (hall l.seats[i] (List.getElem_mem hi')) with ⟨p, hp⟩
  exact ⟨p, by rw [List.getElem?_eq_getElem hi', hp]⟩

/-! ## Changing and removing members -/

/-- What is done to every member keeps the seats. -/
theorem seated_map (seats : List (Option Peer)) (f : Peer → Peer) :
    seated (seats.map (Option.map f)) = (seated seats).map f := by
  induction seats with
  | nil => rfl
  | cons s seats ih =>
      cases s with
      | none => exact ih
      | some p => exact congrArg (f p :: ·) ih

/-- Only what is done to the members counts. -/
theorem map_seats_congr {seats : List (Option Peer)} {f g : Peer → Peer}
    (h : ∀ p ∈ seated seats, f p = g p) :
    seats.map (Option.map f) = seats.map (Option.map g) := by
  refine List.map_congr_left fun s hs => ?_
  cases s with
  | none => rfl
  | some p => exact congrArg some (h p (mem_seated.2 hs))

/-- What changes no member changes no seat. -/
theorem map_seats_eq_self {seats : List (Option Peer)} {f : Peer → Peer}
    (h : ∀ p ∈ seated seats, f p = p) : seats.map (Option.map f) = seats := by
  rw [map_seats_congr h, Option.map_id_fun', List.map_id]

/-- Two things are done to the members one after the other. -/
theorem map_map_seats (seats : List (Option Peer)) (f g : Peer → Peer) :
    (seats.map (Option.map f)).map (Option.map g) =
      seats.map (Option.map fun p => g (f p)) := by
  rw [List.map_map, Option.map_comp_map]
  rfl

@[simp] theorem members_updateMember (l : Lobby) (id : ConnectionId) (f : Peer → Peer) :
    (l.updateMember id f).members = l.members.map fun p => if p.id = id then f p else p :=
  seated_map l.seats _

@[simp] theorem members_hangUp (l : Lobby) (id : ConnectionId) :
    (l.hangUp id).members = l.members.map fun p => if p.id = id then p.hangUp else p :=
  members_updateMember l id Peer.hangUp

/-- Clearing somebody's seat removes that member only. -/
theorem seated_clear (seats : List (Option Peer)) (id : ConnectionId) :
    seated (seats.map fun s => if s.any (fun q => q.id = id) then none else s) =
      (seated seats).filter fun p => p.id ≠ id := by
  induction seats with
  | nil => rfl
  | cons s seats ih =>
      cases s with
      | none => exact ih
      | some p =>
          by_cases hp : p.id = id
          · simpa [seated, hp] using ih
          · simpa [seated, hp] using ih

/-- Where connections are different, a member stands between others with other connections. -/
theorem exists_split {ps : List Peer} (hnodup : (ps.map Peer.id).Nodup) {p : Peer}
    (hp : p ∈ ps) :
    ∃ before after, ps = before ++ p :: after ∧ ∀ q ∈ before ++ after, q.id ≠ p.id := by
  rcases List.append_of_mem hp with ⟨before, after, rfl⟩
  refine ⟨before, after, rfl, fun q hq heq => ?_⟩
  have hperm : ((p :: (before ++ after)).map Peer.id).Nodup :=
    (List.perm_middle.map Peer.id).nodup_iff.1 hnodup
  exact (List.nodup_cons.1 hperm).1 (heq ▸ List.mem_map_of_mem hq)

/-- Changing one member by its connection changes no other. -/
theorem map_update_split {before after : List Peer} {p : Peer}
    (h : ∀ q ∈ before ++ after, q.id ≠ p.id) (f : Peer → Peer) :
    ((before ++ p :: after).map fun q => if q.id = p.id then f q else q) =
      before ++ f p :: after := by
  have hkeep : ∀ qs : List Peer, (∀ q ∈ qs, q.id ≠ p.id) →
      (qs.map fun q => if q.id = p.id then f q else q) = qs := by
    intro qs hqs
    rw [List.map_congr_left fun q hq => if_neg (hqs q hq), List.map_id']
  rw [List.map_append, List.map_cons, if_pos rfl,
    hkeep before fun q hq => h q (List.mem_append_left _ hq),
    hkeep after fun q hq => h q (List.mem_append_right _ hq)]

/-- Removing one member by its connection removes no other. -/
theorem filter_split {before after : List Peer} {p : Peer}
    (h : ∀ q ∈ before ++ after, q.id ≠ p.id) :
    ((before ++ p :: after).filter fun q => q.id ≠ p.id) = before ++ after := by
  have hkeep : ∀ qs : List Peer, (∀ q ∈ qs, q.id ≠ p.id) →
      (qs.filter fun q => q.id ≠ p.id) = qs := by
    intro qs hqs
    rw [List.filter_eq_self]
    intro q hq
    simpa using hqs q hq
  rw [List.filter_append, List.filter_cons_of_neg (by simp),
    hkeep before fun q hq => h q (List.mem_append_left _ hq),
    hkeep after fun q hq => h q (List.mem_append_right _ hq)]

/-! ## Finding members -/

/-- A member that is found is one. -/
theorem mem_of_member? {l : Lobby} {id : ConnectionId} {p : Peer} (h : l.member? id = some p) :
    p ∈ l.members ∧ p.id = id :=
  ⟨List.mem_of_find?_eq_some h, by simpa using List.find?_some h⟩

theorem member?_eq_none_iff {l : Lobby} {id : ConnectionId} :
    l.member? id = none ↔ id ∉ l.members.map Peer.id := by
  simp [member?]

/-- Where connections are different, a connection leads to its member. -/
theorem member?_eq_some_iff {l : Lobby} (hnodup : (l.members.map Peer.id).Nodup)
    {id : ConnectionId} {p : Peer} : l.member? id = some p ↔ p ∈ l.members ∧ p.id = id := by
  constructor
  · exact mem_of_member?
  · rintro ⟨hp, rfl⟩
    cases hfind : l.member? p.id with
    | none => exact absurd (List.mem_map_of_mem hp) (member?_eq_none_iff.1 hfind)
    | some q =>
        rcases mem_of_member? hfind with ⟨hq, hid⟩
        rw [List.inj_on_of_nodup_map hnodup hq hp hid]

end Lobby

end FourInRow
