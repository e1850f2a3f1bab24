import FourInRow.Board.Size
import Mathlib

/-!
# Guarded steps

Counts, player numbers and coordinates are kept in a few bits each, seats and slots are looked up by
their numbers, and chance needs something to choose from.  Here each of these steps is guarded: what
its type cannot hold, what is not there, and a choice from nothing are faults.  An operation that is
built from guarded steps and comes to no fault is safe to carry out on a machine.

Main results:

- Theorem `count_eq_error_iff`: which counts do not fit.
- Theorems `count_eq_ok`, `countDown_eq_ok`, `coordinate_eq_ok`, `byte_eq_ok`, `entry_eq_ok`: which
  guarded steps come to no fault.
-/

namespace FourInRow

namespace Guard

/-- Why a guarded step cannot be taken. -/
inductive Fault
  /-- A number does not fit its type. -/
  | overflow
  /-- A list has no entry with this number. -/
  | outOfBounds
  /-- There is nothing to choose from. -/
  | noChoice
  /-- A board reports an error in the middle of a turn. -/
  | failed (cause : Board.Error)
deriving DecidableEq, Repr

/-! ## Steps -/

/-- A count that is kept in so many bits. -/
def count (bits n : Nat) : Except Fault Nat :=
  if n < 2 ^ bits then .ok n else .error .overflow

/-- A count that goes down by one. -/
def countDown (n : Nat) : Except Fault Nat :=
  if 0 < n then .ok (n - 1) else .error .overflow

/-- A coordinate, which may be negative and is kept in 16 bits. -/
def coordinate (z : Int) : Except Fault Int :=
  if -2 ^ 15 ≤ z ∧ z < 2 ^ 15 then .ok z else .error .overflow

/-- The byte with the given value. -/
def byte (z : Int) : Except Fault UInt8 :=
  if 0 ≤ z ∧ z < 2 ^ 8 then .ok (UInt8.ofNat z.toNat) else .error .overflow

/-- The entry of a list with the given number. -/
def entry {α : Type} (xs : List α) (i : Nat) : Except Fault α :=
  match xs[i]? with
  | some x => .ok x
  | none => .error .outOfBounds

/-! ## Sequences of steps -/

/-- After a step without a fault comes the next one. -/
@[simp] theorem ok_bind {α β : Type} (a : α) (f : α → Except Fault β) :
    (Except.ok a >>= f) = f a :=
  rfl

/-- A fault is the end. -/
@[simp] theorem error_bind {α β : Type} (e : Fault) (f : α → Except Fault β) :
    (Except.error e >>= f) = .error e :=
  rfl

@[simp] theorem pure_eq_ok {α : Type} (a : α) : (pure a : Except Fault α) = .ok a := rfl

/-! ## Steps without a fault -/

theorem count_eq_ok {bits n : Nat} (h : n < 2 ^ bits) : count bits n = .ok n := if_pos h

/-- The counts that do not fit are those from the next power of two on. -/
theorem count_eq_error_iff {bits n : Nat} {e : Fault} :
    count bits n = .error e ↔ e = .overflow ∧ 2 ^ bits ≤ n := by
  unfold count
  split
  · next h => simp [not_le.2 h]
  · next h => simp [not_lt.1 h, eq_comm]

theorem countDown_eq_ok {n : Nat} (h : 0 < n) : countDown n = .ok (n - 1) := if_pos h

theorem coordinate_eq_ok {z : Int} (h : -2 ^ 15 ≤ z) (h' : z < 2 ^ 15) : coordinate z = .ok z :=
  if_pos ⟨h, h'⟩

theorem byte_eq_ok {z : Int} (h : 0 ≤ z) (h' : z < 2 ^ 8) :
    byte z = .ok (UInt8.ofNat z.toNat) :=
  if_pos ⟨h, h'⟩

/-- A number that fits a byte is that byte's. -/
theorem byte_natCast {n : Nat} (h : n < 2 ^ 8) : byte n = .ok (UInt8.ofNat n) := by
  rw [byte_eq_ok (by omega) (by omega), Int.toNat_natCast]

theorem entry_eq_ok {α : Type} {xs : List α} {i : Nat} {x : α} (h : xs[i]? = some x) :
    entry xs i = .ok x := by
  rw [entry, h]

end Guard

end FourInRow
