import FourInRow.Json.Skip
import FourInRow.Settings.Basic

/-!
# Settings in a document

Settings are read from a JSON text, an object with one member for each setting or an array of
their values in order.  What is missing keeps its default.  An object may have its members in any
order and others besides, which are skipped; a setting must not be given twice.

Component: `ServerConfig`, its `from_json_file`.
-/

namespace FourInRow

namespace Settings

open Json

/-- The names of the settings. -/
inductive Field
  | bindAddress
  | maxLobbies
  | playersPerLobby
  | boardColumns
  | boardRows
  | pingInterval
  | maxMissedPings
  | queueInterval
deriving DecidableEq, Repr

namespace Field

/-- All settings, in the order of an array. -/
def all : List Field :=
  [bindAddress, maxLobbies, playersPerLobby, boardColumns, boardRows, pingInterval,
    maxMissedPings, queueInterval]

/-- The key of a setting. -/
def key : Field → String
  | bindAddress => "bind_addr"
  | maxLobbies => "max_lobbies"
  | playersPerLobby => "players_per_lobby"
  | boardColumns => "board_columns"
  | boardRows => "board_rows"
  | pingInterval => "ping_interval_ms"
  | maxMissedPings => "max_missed_pings"
  | queueInterval => "queue_update_interval_ms"

/-- The setting with the given key. -/
def ofKey? (key : List Char) : Option Field := all.find? fun f => f.key.toList = key

end Field

/-! ## Values -/

/-- The fault of a value that is not of the kind that is asked for.  The value is read as far as
that takes to see whether it breaks the grammar; lists and objects are not looked into. -/
def mismatch (s : List Char) : Error :=
  let fault {α : Type} : Except Error α → Error
    | .error e => e
    | .ok _ => .mismatched
  match s with
  | [] => .truncated
  | c :: r =>
    if c = '"' then fault (string r)
    else if c = 'n' then fault (word ['u', 'l', 'l'] r)
    else if c = 't' then fault (word ['r', 'u', 'e'] r)
    else if c = 'f' then fault (word ['a', 'l', 's', 'e'] r)
    else if c = '[' ∨ c = '{' then .mismatched
    else if c = '-' ∨ c.isDigit then
      match Literal.read .truncated s with
      | .error e => e
      | .ok (l, _) => if l.isTooLarge then .malformed else .mismatched
    else .malformed

/-- Reads a string value. -/
def readString (s : List Char) : Except Error (String × List Char) :=
  match skipBlanks s with
  | '"' :: r => (string r).map fun p => (String.ofList p.1, p.2)
  | s' => .error (mismatch s')

/-- Reads a whole number below a bound. -/
def readBelow (bound : Nat) (s : List Char) : Except Error (Nat × List Char) :=
  let s' := skipBlanks s
  match s' with
  | [] => .error .truncated
  | c :: _ =>
    if c = '-' ∨ c.isDigit then
      match Literal.read .truncated s' with
      | .error e => .error e
      | .ok (l, r) =>
        match l.natural? with
        | some n => if n < bound then .ok (n, r) else .error .mismatched
        | none => .error (if l.isTooLarge then .malformed else .mismatched)
    else
      .error (mismatch s')

/-- Reads the value of a setting into settings. -/
def readValue (settings : Settings) (field : Field) (s : List Char) :
    Except Error (Settings × List Char) :=
  match field with
  | .bindAddress =>
    (readString s).map fun p => ({ settings with bindAddress := p.1 }, p.2)
  | .maxLobbies =>
    (readBelow UInt64.size s).map fun p =>
      ({ settings with maxLobbies := UInt64.ofNat p.1 }, p.2)
  | .playersPerLobby =>
    (readBelow UInt8.size s).map fun p =>
      ({ settings with playersPerLobby := UInt8.ofNat p.1 }, p.2)
  | .boardColumns =>
    (readBelow UInt8.size s).map fun p =>
      ({ settings with boardColumns := UInt8.ofNat p.1 }, p.2)
  | .boardRows =>
    (readBelow UInt8.size s).map fun p =>
      ({ settings with boardRows := UInt8.ofNat p.1 }, p.2)
  | .pingInterval =>
    (readBelow UInt64.size s).map fun p =>
      ({ settings with pingInterval := UInt64.ofNat p.1 }, p.2)
  | .maxMissedPings =>
    (readBelow UInt32.size s).map fun p =>
      ({ settings with maxMissedPings := UInt32.ofNat p.1 }, p.2)
  | .queueInterval =>
    (readBelow UInt64.size s).map fun p =>
      ({ settings with queueInterval := UInt64.ofNat p.1 }, p.2)

/-! ## Objects and arrays -/

/-- Reads the colon between a key and its value. -/
def readColon (s : List Char) : Except Error (List Char) :=
  match skipBlanks s with
  | [] => .error .truncated
  | c :: r => if c = ':' then .ok r else .error .malformed

/-- Reads a member whose opening quote has been read, into settings and into the list of those
that have been given. -/
def readMember (settings : Settings) (given : List Field) (s : List Char) :
    Except Error (Settings × List Field × List Char) := do
  let (key, s) ← string s
  match Field.ofKey? key with
  | none =>
    let s ← readColon s
    let s ← skipValue s
    return (settings, given, s)
  | some field =>
    if field ∈ given then throw .mismatched
    let s ← readColon s
    let (settings, s) ← readValue settings field s
    return (settings, field :: given, s)

/-- Reads the members of an object that follow its first one, and its end.  The last argument
bounds their number. -/
def readMembers (settings : Settings) (given : List Field) (s : List Char) :
    Nat → Except Error (Settings × List Char)
  | 0 => .error .truncated
  | fuel + 1 =>
    match skipBlanks s with
    | [] => .error .truncated
    | c :: r =>
      if c = '}' then .ok (settings, r)
      else if c = ',' then
        match skipBlanks r with
        | [] => .error .truncated
        | d :: r' =>
          if d = '"' then
            match readMember settings given r' with
            | .error e => .error e
            | .ok (settings', given', s') => readMembers settings' given' s' fuel
          else .error .malformed
      else .error .malformed

/-- Reads an object whose opening brace has been read. -/
def readObject (s : List Char) : Except Error (Settings × List Char) :=
  match skipBlanks s with
  | [] => .error .truncated
  | c :: r =>
    if c = '}' then .ok (default, r)
    else if c = '"' then
      match readMember default [] r with
      | .error e => .error e
      | .ok (settings, given, s') => readMembers settings given s' (s'.length + 1)
    else .error .malformed

/-- Reads the elements of an array that follow its first one, and its end. -/
def readElements (settings : Settings) (s : List Char) :
    List Field → Except Error (Settings × List Char)
  | [] =>
    match skipBlanks s with
    | [] => .error .truncated
    | c :: r => if c = ']' then .ok (settings, r) else .error .malformed
  | field :: fields =>
    match skipBlanks s with
    | [] => .error .truncated
    | c :: r =>
      if c = ']' then .ok (settings, r)
      else if c = ',' then
        match skipBlanks r with
        | [] => .error .truncated
        | d :: r' =>
          if d = ']' then .error .malformed
          else
            match readValue settings field (d :: r') with
            | .error e => .error e
            | .ok (settings', s') => readElements settings' s' fields
      else .error .malformed

/-- Reads an array whose opening bracket has been read. -/
def readArray (s : List Char) : Except Error (Settings × List Char) :=
  match skipBlanks s with
  | [] => .error .truncated
  | c :: r =>
    if c = ']' then .ok (default, r)
    else
      match readValue default .bindAddress (c :: r) with
      | .error e => .error e
      | .ok (settings, s') => readElements settings s' Field.all.tail

/-! ## Documents -/

/-- Reads a whole text as settings. -/
def ofText (s : List Char) : Except Error Settings :=
  let answer : Except Error (Settings × List Char) :=
    match skipBlanks s with
    | [] => .error .truncated
    | c :: r =>
      if c = '{' then readObject r
      else if c = '[' then readArray r
      else .error (mismatch (c :: r))
  match answer with
  | .error e => .error e
  | .ok (settings, rest) => if (skipBlanks rest).isEmpty then .ok settings else .error .malformed

/-- Why settings cannot be read from a file. -/
inductive FileError
  /-- There is no such file. -/
  | notFound
  /-- The file holds something else than text. -/
  | notText
  /-- The text does not hold settings. -/
  | json (cause : Json.Error)
deriving DecidableEq, Repr

/-- Reads settings from the bytes of a file, or from no file at all. -/
def ofFile : Option ByteArray → Except FileError Settings
  | none => .error .notFound
  | some bytes =>
    match String.fromUTF8? bytes with
    | none => .error .notText
    | some text => (ofText text.toList).mapError .json

end Settings

end FourInRow
