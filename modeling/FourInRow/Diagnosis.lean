import FourInRow.Bot.Basic
import FourInRow.CommandLine.Launch

/-!
# Diagnoses

A program that fails names its failure in its last line: the name of the fault and, in brackets,
what it is about.
-/

namespace FourInRow

/-- A text between quotation marks. -/
def quoted (s : String) : String := "\"" ++ s ++ "\""

/-- Names a board error. -/
def Board.Error.diagnosis : Board.Error → String
  | invalidDimensions columns rows =>
    s!"InvalidDimensions \x7b columns: {columns}, rows: {rows} \x7d"
  | columnOutOfRange column => s!"ColumnOutOfRange({column})"
  | slotOutOfRange column row => s!"SlotOutOfRange \x7b column: {column}, row: {row} \x7d"

/-- Names a record error. -/
def Wire.Error.diagnosis : Wire.Error → String
  | unknownMessageType tag => s!"UnknownMessageType({tag})"
  | unknownTurnResult code => s!"UnknownTurnResult({code})"

/-- Names a fault of settings. -/
def Settings.Fault.diagnosis (f : Settings.Fault) : String :=
  "InvalidConfig(" ++ quoted f.reason ++ ")"

/-- Names what is wrong with a settings file. -/
def Settings.FileError.diagnosis : Settings.FileError → String
  | notFound => "Io(NotFound)"
  | notText => "Io(InvalidData)"
  | json .truncated => "Json(Eof)"
  | json .malformed => "Json(Syntax)"
  | json .mismatched => "Json(Data)"

/-- Names the failure of a launch. -/
def Launch.Failure.diagnosis : Launch.Failure → String
  | file cause => cause.diagnosis
  | settings fault => fault.diagnosis
  | bind => "Io(AddrNotAvailable)"

/-- Names the failure of a bot. -/
def Bot.Error.diagnosis : Bot.Error → String
  | connectionLost => "Io(UnexpectedEof)"
  | malformed cause => "Protocol(" ++ cause.diagnosis ++ ")"
  | board cause => cause.diagnosis

end FourInRow
