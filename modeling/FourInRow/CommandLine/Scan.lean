/-!
# Arguments

A program is called with one operand at most and with options that take a value each.  A value
follows its option after an equals sign, directly after a short option, or as the next argument;
there it must not look like an option itself.  Two dashes end the options.  Arguments are looked
at from left to right, and the first one that asks for help, asks for the version or is misused
decides the call.
-/

namespace FourInRow

namespace CommandLine

/-- An option: its names, and how its value is read. -/
structure Spec (α : Type) where
  long : String
  short : Option Char
  read : String → Option α

/-- Why a program does not go on after its arguments. -/
inductive Stop
  /-- Help is asked for. -/
  | help
  /-- The version is asked for. -/
  | version
  /-- The program is called in a wrong way. -/
  | misuse
deriving DecidableEq, Repr

/-- The exit code of a program that does not go on. -/
def Stop.exitCode : Stop → UInt32
  | misuse => 2
  | _ => 0

/-- The arguments of a call: the operand, and the options by their long names. -/
structure Arguments (α : Type) where
  operand : Option String
  options : List (String × α)

/-- A call without arguments. -/
def Arguments.none {α : Type} : Arguments α := ⟨Option.none, []⟩

/-- What an argument is. -/
inductive Shape (α : Type)
  /-- The end of the options. -/
  | endOfOptions
  /-- The operand. -/
  | operand
  /-- An option with its value. -/
  | withValue (spec : Spec α) (value : List Char)
  /-- An option whose value is the next argument. -/
  | wanting (spec : Spec α)
  /-- An argument that decides the call. -/
  | stop (why : Stop)

/-- Parts a text at its first equals sign. -/
def splitValue (s : List Char) : List Char × Option (List Char) :=
  match s.dropWhile (· ≠ '=') with
  | [] => (s, none)
  | _ :: value => (s.takeWhile (· ≠ '='), some value)

/-- What a long option is, given without its two dashes. -/
def longShape {α : Type} (specs : List (Spec α)) (s : List Char) : Shape α :=
  let (name, value) := splitValue s
  if name = "help".toList then .stop (if value.isNone then .help else .misuse)
  else if name = "version".toList then .stop (if value.isNone then .version else .misuse)
  else
    match specs.find? fun spec => spec.long.toList = name with
    | none => .stop .misuse
    | some spec =>
      match value with
      | none => .wanting spec
      | some v => .withValue spec v

/-- What a short option is, given without its dash. -/
def shortShape {α : Type} (specs : List (Spec α)) (c : Char) (s : List Char) : Shape α :=
  if c = 'h' then .stop .help
  else if c = 'V' then .stop .version
  else
    match specs.find? fun spec => spec.short = some c with
    | none => .stop .misuse
    | some spec =>
      match s with
      | [] => .wanting spec
      | '=' :: v => .withValue spec v
      | v => .withValue spec v

/-- What an argument is. -/
def shape {α : Type} (specs : List (Spec α)) (arg : String) : Shape α :=
  match arg.toList with
  | ['-', '-'] => .endOfOptions
  | '-' :: '-' :: s => longShape specs s
  | '-' :: c :: s => shortShape specs c s
  | _ => .operand

/-- Does an argument look like an option? -/
def looksLikeOption (arg : String) : Bool :=
  match arg.toList with
  | '-' :: _ :: _ => true
  | _ => false

namespace Arguments

variable {α : Type}

/-- Adds the operand, of which there is one at most. -/
def addOperand (a : Arguments α) (arg : String) : Except Stop (Arguments α) :=
  match a.operand with
  | Option.none => .ok { a with operand := some arg }
  | some _ => .error .misuse

/-- Adds all arguments that are left as operands. -/
def addOperands (a : Arguments α) : List String → Except Stop (Arguments α)
  | [] => .ok a
  | arg :: rest =>
    match a.addOperand arg with
    | .error e => .error e
    | .ok a' => a'.addOperands rest

/-- Adds an option, which must not be given twice, with a value that can be read. -/
def addOption (a : Arguments α) (spec : Spec α) (value : String) : Except Stop (Arguments α) :=
  if a.options.any fun o => o.1 = spec.long then .error .misuse
  else
    match spec.read value with
    | Option.none => .error .misuse
    | some v => .ok { a with options := a.options ++ [(spec.long, v)] }

/-- Adds arguments from left to right. -/
def scan (specs : List (Spec α)) (a : Arguments α) : List String → Except Stop (Arguments α)
  | [] => .ok a
  | arg :: rest =>
    match shape specs arg with
    | .endOfOptions => a.addOperands rest
    | .stop why => .error why
    | .operand =>
      match a.addOperand arg with
      | .error e => .error e
      | .ok a' => scan specs a' rest
    | .withValue spec value =>
      match a.addOption spec (String.ofList value) with
      | .error e => .error e
      | .ok a' => scan specs a' rest
    | .wanting spec =>
      match rest with
      | [] => .error .misuse
      | value :: rest' =>
        if looksLikeOption value then .error .misuse
        else
          match a.addOption spec value with
          | .error e => .error e
          | .ok a' => scan specs a' rest'

/-- The values of the options that are given. -/
def values (a : Arguments α) : List α := a.options.map fun o => o.2

end Arguments

end CommandLine

end FourInRow
