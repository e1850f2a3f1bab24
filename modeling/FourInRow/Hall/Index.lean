import FourInRow.Identity

/-!
# The index of a hall

Which lobby holds a connection.  Every connection has one entry at most.

Component: `GameServer`, its map from connections to lobbies.
-/

namespace FourInRow

/-- The numbers of the lobbies that hold connections. -/
abbrev Hall.Index := List (ConnectionId × Nat)

namespace Hall.Index

/-- The lobby that holds a connection. -/
def find? (ix : Index) (id : ConnectionId) : Option Nat :=
  (List.find? (fun e => e.1 = id) ix).map fun e => e.2

/-- Forgets a connection. -/
def remove (ix : Index) (id : ConnectionId) : Index :=
  ix.filter fun e => e.1 ≠ id

/-- Notes the lobby of a connection in place of what was noted before. -/
def insert (ix : Index) (id : ConnectionId) (lobby : Nat) : Index :=
  (id, lobby) :: ix.remove id

theorem find?_cons (e : ConnectionId × Nat) (ix : Index) (id : ConnectionId) :
    find? (e :: ix) id = if id = e.1 then some e.2 else ix.find? id := by
  by_cases h : id = e.1
  · simp [find?, h]
  · simp [find?, h, Ne.symm h]

theorem find?_remove (ix : Index) (id id' : ConnectionId) :
    (ix.remove id).find? id' = if id' = id then none else ix.find? id' := by
  induction ix with
  | nil => simp [remove, find?]
  | cons e ix ih =>
    by_cases he : e.1 = id
    · have skip : remove (e :: ix) id = remove ix id := by simp [remove, he]
      rw [skip, ih, find?_cons, he]
      split <;> rfl
    · have keep : remove (e :: ix) id = e :: remove ix id := by simp [remove, he]
      rw [keep, find?_cons, find?_cons, ih]
      by_cases h : id' = e.1
      · simp [h, he]
      · simp [h]

theorem find?_insert (ix : Index) (id id' : ConnectionId) (lobby : Nat) :
    (ix.insert id lobby).find? id' = if id' = id then some lobby else ix.find? id' := by
  rw [insert, find?_cons, find?_remove]
  split <;> rfl

end Hall.Index

end FourInRow
