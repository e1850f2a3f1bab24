import FourInRow.Bot.Basic
import FourInRow.CommandLine.Number
import FourInRow.CommandLine.Scan

/-!
# Launching a bot

A bot is told the address of a server and how many matches to play.
-/

namespace FourInRow

namespace Bot

open CommandLine

/-- The options of a bot: the number of matches. -/
def specs : List (Spec Nat) := [⟨"matches", some 'm', integerBelow? UInt32.size⟩]

/-- What a bot is told. -/
structure Orders where
  address : String
  goal : Nat
deriving DecidableEq, Repr

/-- Reads a command line.  One match is played where no number is given, and the server is looked
for at the default address where no address is. -/
def Orders.parse (defaultAddress : String) (args : List String) : Except Stop Orders :=
  (Arguments.none.scan specs args).map fun a =>
    ⟨a.operand.getD defaultAddress, a.values.head?.getD 1⟩

/-- The exit code of a bot. -/
def Status.exitCode : Status → UInt32
  | failed _ => 1
  | _ => 0

end Bot

end FourInRow
