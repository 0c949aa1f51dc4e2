import Templating.Path
import Templating.Text.Plain

/-!
# Command line arguments

The arguments of the program are options, each at most once, and one template. Options that take
a value take the rest of their argument, or else the next argument unless that is an option
itself; behind `--` there are no options. Short options can be run together.

A value is looked at only when the next option or the end is reached, and is not when an argument
before that has no meaning at all.
-/

namespace Templating

/-- What the arguments ask for. -/
structure Arguments where
  /-- The template; the standard input when there is none. -/
  input : Option Path
  /-- Where rooted paths begin. -/
  base : Option Path
  /-- The configuration file. -/
  config : Option Path
  /-- Show the text of the result instead of its outline. -/
  textOnly : Bool
  deriving DecidableEq, Repr, Inhabited

namespace Arguments

/-- Arguments that take a value. -/
inductive Slot where
  | input
  | base
  | config
  deriving DecidableEq, Repr

/-- The argument as it is shown. -/
def Slot.text : Slot → String
  | .input => "[INPUT]"
  | .base => "--basedir <BASEDIR>"
  | .config => "--config <CONFIG>"

/-- Options. -/
inductive Switch where
  | value (slot : Slot)
  | textOnly
  | help
  deriving DecidableEq, Repr

/-- The option as it is shown. -/
def Switch.text : Switch → String
  | .value slot => slot.text
  | .textOnly => "--text"
  | .help => "--help"

/-- The option of a long name. -/
def Switch.ofLong? : List Char → Option Switch
  | ['b', 'a', 's', 'e', 'd', 'i', 'r'] => some (.value .base)
  | ['c', 'o', 'n', 'f', 'i', 'g'] => some (.value .config)
  | ['t', 'e', 'x', 't'] => some .textOnly
  | ['h', 'e', 'l', 'p'] => some .help
  | _ => none

/-- The option of a letter. -/
def Switch.ofShort? : Char → Option Switch
  | 'b' => some (.value .base)
  | 'c' => some (.value .config)
  | 't' => some .textOnly
  | 'h' => some .help
  | _ => none

/-- Why arguments have no meaning. -/
inductive UsageError where
  | unexpectedArgument (arg : String)
  | missingValue (slot : Slot)
  | repeated (option : Switch)
  /-- A value for an option that takes none. -/
  | unexpectedValue (value : String) (option : Switch)
  deriving DecidableEq, Repr

/-- The error in words, in which arguments stand as plain text. -/
def UsageError.message : UsageError → String
  | .unexpectedArgument arg => "unexpected argument '" ++ Text.plain arg ++ "' found"
  | .missingValue slot => "a value is required for '" ++ slot.text ++ "' but none was supplied"
  | .repeated option => "the argument '" ++ option.text ++ "' cannot be used multiple times"
  | .unexpectedValue value option =>
    "unexpected value '" ++ Text.plain value ++ "' for '" ++ option.text ++
      "' found; no more were expected"

/-- Why reading arguments ends early. -/
inductive Exit where
  | usage (error : UsageError)
  /-- Help is asked for. -/
  | help
  deriving DecidableEq, Repr

/-- Arguments read so far. -/
structure Progress where
  arguments : Arguments
  /-- The last argument that takes a value, with the value if it has come. -/
  pending : Option (Slot × Option String)
  /-- There was a template. -/
  inputSeen : Bool
  /-- There was a `--`. -/
  onlyInput : Bool
  deriving Inhabited

namespace Progress

/-- Nothing read. -/
def start : Progress := ⟨⟨none, none, none, false⟩, none, false, false⟩

/-- The value read for a slot. -/
def valueOf (s : Progress) : Slot → Option Path
  | .input => s.arguments.input
  | .base => s.arguments.base
  | .config => s.arguments.config

/-- Set the value of a slot. -/
def setValue (a : Arguments) (value : Path) : Slot → Arguments
  | .input => { a with input := some value }
  | .base => { a with base := some value }
  | .config => { a with config := some value }

/-- Take a value for a slot. -/
def take (s : Progress) (slot : Slot) (value : String) : Except Exit Progress :=
  if (s.valueOf slot).isSome then .error (.usage (.repeated (.value slot)))
  else if value.isEmpty then .error (.usage (.missingValue slot))
  else .ok { s with arguments := setValue s.arguments ⟨value⟩ slot }

/-- Take the value that is pending. -/
def settle (s : Progress) : Except Exit Progress :=
  match s.pending with
  | none => .ok s
  | some (slot, none) => .error (.usage (.missingValue slot))
  | some (slot, some value) => { s with pending := none }.take slot value

/-- Take an argument that is no option. -/
def positional (s : Progress) (arg : String) : Except Exit Progress :=
  if s.inputSeen then .error (.usage (.unexpectedArgument arg))
  else
    match s.settle with
    | .error e => .error e
    | .ok s => .ok { s with pending := some (.input, some arg), inputSeen := true }

/-- Take an option, with the value attached to it. -/
def option (s : Progress) (o : Switch) (attached : Option String) : Except Exit Progress :=
  match s.settle with
  | .error e => .error e
  | .ok s =>
    match o with
    | .help => .error .help
    | .textOnly =>
      if s.arguments.textOnly then .error (.usage (.repeated .textOnly))
      else .ok { s with arguments := { s.arguments with textOnly := true } }
    | .value slot =>
      match attached with
      | some value => s.take slot value
      | none => .ok { s with pending := some (slot, none) }

/-- Take a long option, given without its dashes. -/
def long (s : Progress) (body : List Char) : Except Exit Progress :=
  let name := body.takeWhile (· ≠ '=')
  let attached : Option String :=
    match body.drop name.length with
    | _ :: value => some (String.ofList value)
    | [] => none
  match Switch.ofLong? name, attached with
  | none, _ => .error (.usage (.unexpectedArgument ("--" ++ String.ofList name)))
  | some (.value slot), attached => s.option (.value slot) attached
  | some o, some value => .error (.usage (.unexpectedValue value o))
  | some o, none => s.option o none

/-- Take short options that are run together, given without the dash. -/
def shorts (s : Progress) : List Char → Except Exit Progress
  | [] => .ok s
  | c :: rest =>
    match Switch.ofShort? c with
    | none => .error (.usage (.unexpectedArgument (String.ofList ['-', c])))
    | some (.value slot) =>
      let attached : Option String :=
        match rest with
        | [] => none
        | '=' :: value => some (String.ofList value)
        | value => some (String.ofList value)
      s.option (.value slot) attached
    | some o =>
      match s.option o none with
      | .error e => .error e
      | .ok s => shorts s rest

/-- Take an argument. -/
def next (s : Progress) (arg : String) : Except Exit Progress :=
  if s.onlyInput then s.positional arg
  else
    match arg.toList with
    | ['-', '-'] => .ok { s with onlyInput := true }
    | '-' :: '-' :: body => s.long body
    | '-' :: c :: rest => s.shorts (c :: rest)
    | _ =>
      match s.pending with
      | some (slot, none) => .ok { s with pending := some (slot, some arg) }
      | _ => s.positional arg

end Progress

/-- The meaning of arguments. -/
def ofList (args : List String) : Except Exit Arguments :=
  match args.foldlM Progress.next .start with
  | .error e => .error e
  | .ok s => s.settle.map Progress.arguments

end Arguments

end Templating
