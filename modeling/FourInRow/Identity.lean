/-!
# Identifiers

A connection is known by a 128-bit identifier from the moment it is accepted, wherever it waits
or plays.  Its text is the usual grouping of 32 hexadecimal digits.  A lobby is known by its
number.

Components: `ConnectionId` and `LobbyId`.
-/

namespace FourInRow

/-- What identifies a connection. -/
structure ConnectionId where
  bits : BitVec 128
deriving DecidableEq, Repr

namespace ConnectionId

/-- The identifier with the given number. -/
def ofNat (n : Nat) : ConnectionId := ⟨BitVec.ofNat 128 n⟩

/-- The number of an identifier. -/
def toNat (id : ConnectionId) : Nat := id.bits.toNat

/-- The hexadecimal digits of an identifier, the highest one first. -/
def digits (id : ConnectionId) : List Char :=
  (List.range 32).map fun i => Nat.digitChar (id.toNat >>> (4 * (31 - i)) % 16)

/-- Parts a list into groups of the given lengths; the last group takes what is left. -/
def group : List Nat → List Char → List (List Char)
  | [], ds => [ds]
  | n :: ns, ds => ds.take n :: group ns (ds.drop n)

/-- The text of an identifier: groups of 8, 4, 4, 4 and 12 hexadecimal digits. -/
def render (id : ConnectionId) : String :=
  "-".intercalate ((group [8, 4, 4, 4] id.digits).map String.ofList)

end ConnectionId

/-- The text that names a lobby. -/
def lobbyName (number : Nat) : String := s!"lobby-{number}"

end FourInRow
