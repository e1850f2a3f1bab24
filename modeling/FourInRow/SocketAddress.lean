import FourInRow.CommandLine.Number
import FourInRow.IpAddress

/-!
# Socket addresses

A socket address is a host and a port, parted by the last colon of its text.  The host is an IP
address or the name of the machine itself.  Where eight groups stand between brackets, the port is
written with digits alone; otherwise it may have a plus sign.
-/

namespace FourInRow

/-- An IP address and a port. -/
structure SocketAddress where
  ip : IpAddress
  port : Nat
deriving DecidableEq, Repr

namespace SocketAddress

/-- Ports are numbers of 16 bits. -/
def inRange (port : Option Nat) : Option Nat := port.filter fun n => n < UInt16.size

/-- The name by which a machine calls itself. -/
def ownName : String := "localhost"

/-- The address of a host. -/
def host? (s : List Char) : Option IpAddress :=
  if s.map Char.toLower = ownName.toList then some .loopback
  else
    match IpAddress.v4? s with
    | some bits => some (.v4 bits)
    | none => (IpAddress.scoped? s).map .v6

/-- Parts a text at its last colon. -/
def splitPort (s : List Char) : Option (List Char × List Char) :=
  match s.reverse.dropWhile (· ≠ ':') with
  | [] => none
  | _ :: host => some (host.reverse, (s.reverse.takeWhile (· ≠ ':')).reverse)

/-- Eight groups between brackets, and a port. -/
def bracketed? (s : List Char) : Option SocketAddress :=
  match s.dropWhile (· ≠ ']') with
  | ']' :: ':' :: port => do
    let groups ← IpAddress.scoped? (s.takeWhile (· ≠ ']'))
    let port ← inRange (Digits.inBase? 10 port)
    return ⟨.v6 groups, port⟩
  | _ => none

/-- The address that a text names. -/
def ofText? (text : String) : Option SocketAddress :=
  match text.toList with
  | '[' :: s => bracketed? s
  | s => do
    let (host, port) ← splitPort s
    let ip ← host? host
    let port ← inRange (CommandLine.natural? port)
    return ⟨ip, port⟩

end SocketAddress

end FourInRow
