import FourInRow.Wire.Record

/-!
# Streams of records

A byte stream is read record by record.  All records have one length, so one that carries no
message does not disturb those after it; a record that is cut short by the end of the stream is
lost.

Components: `read_frame`, `read_message` and `write_message`.
-/

namespace FourInRow

namespace Wire

/-- What comes of reading one record off a stream. -/
inductive Reading
  /-- A message. -/
  | message (m : Message)
  /-- A record that carries no message. -/
  | malformed (e : Error)
  /-- The stream has ended. -/
  | endOfStream
deriving DecidableEq, Repr

/-- What a record is read as. -/
def Record.reading (r : Record) : Reading :=
  match Message.decode r with
  | .ok m => .message m
  | .error e => .malformed e

/-- Reads a whole stream up to its end. -/
def readAll (stream : List UInt8) : List Reading :=
  (Record.cut stream).1.map Record.reading ++ [.endOfStream]

end Wire

end FourInRow
