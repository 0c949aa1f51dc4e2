import Templating.CommandLine.Arguments
import Templating.Compilation
import Templating.Error.Report
import Templating.Node.Outline

/-!
# The command line

What the program does for given arguments, as a function of what it can read: it compiles a
template and shows the outline or the text of the result. Everything that is read is listed, so a
run can be repeated with more files known until it needs no other.
-/

namespace Templating

/-- What the program is run with. -/
structure Invocation where
  args : List String
  /-- The standard input, unless it is a terminal. -/
  input : Option (List UInt8)
  /-- The content of a file, or why there is none. -/
  read : Path → Except String (List UInt8)

/-- What a run leaves. -/
structure Outcome where
  status : Nat
  /-- What is written to the standard output. -/
  output : String
  /-- What is written to the standard error output. -/
  complaint : String
  /-- The files read, in order. -/
  reads : List Path
  deriving DecidableEq, Repr

namespace CommandLine

/-- How to call the program. -/
def usage : String := "Usage: template-linker [OPTIONS] [INPUT]\n"

/-- The answer when help is asked for. -/
def help : String :=
  "Resolve template inheritance, includes and filters into one tree\n\n" ++ usage ++
  "\nArguments:\n" ++
  "  [INPUT]  Entry template (reads from stdin if not provided)\n" ++
  "\nOptions:\n" ++
  "  -b, --basedir <BASEDIR>  Root for template paths starting with \u0060/\u0060\n" ++
  "  -c, --config <CONFIG>    Configuration file (TOML format)\n" ++
  "  -t, --text               Print the linked text instead of the tree outline\n" ++
  "  -h, --help               Print help\n"

/-- The complaint when there is nothing to compile. -/
def noInput : String :=
  "No input. Pass a template file or pipe one on stdin (see --help).\n"

/-- The outcome of arguments without a meaning. -/
def misused (e : Arguments.UsageError) : Outcome :=
  ⟨2, "", "error: " ++ e.message ++ "\n\n" ++ usage ++
    "\nFor more information, try '--help'.\n", []⟩

/-- The outcome of a run that has failed. -/
def failed (complaint : String) (reads : List Path) : Outcome := ⟨1, "", complaint ++ "\n", reads⟩

/-- The status when an error cannot be shown. -/
def aborted : Nat := 101

/-- The configuration that arguments name, with the files read for it. -/
def configure (call : Invocation) (a : Arguments) : Except Outcome (Config × List Path) :=
  let based (c : Config) : Config :=
    match a.base with
    | some dir => c.withBase dir
    | none => c
  match a.config with
  | none => .ok (based .standard, [])
  | some p =>
    match Config.ofFile call.read p with
    | .ok c => .ok (based c, [p])
    | .error e =>
      .error (failed ("Error loading config '" ++ p.text ++ "': " ++ e.message) [p])

/-- The text that the report on an error shows, with the files read for it: that of the file the
error points at, else that of the template, else what was on the standard input. -/
def reportSource (call : Invocation) (a : Arguments) (e : TemplateError) (text : String) :
    String × List Path :=
  match e.file?.or a.input with
  | some p => (((Config.readText call.read p).toOption).getD "", [p])
  | none => (text, [])

/-- The outcome of a compilation. `text` is what was on the standard input. -/
def conclude (call : Invocation) (a : Arguments) (text : String) (reads : List Path) :
    Except TemplateError Linked → Outcome
  | .ok linked =>
    let nodes := linked.root.nodes
    ⟨0, if a.textOnly then Node.shownTextAll nodes else Node.outline nodes ++ "\n", "", reads⟩
  | .error e =>
    let (source, more) := reportSource call a e text
    match e.reportText source with
    | .ok report => failed ("Error: " ++ report) (reads ++ more)
    | .error .reversedSpan => ⟨aborted, "", "\nThe error cannot be shown.\n", reads ++ more⟩

/-- The files read in the course of a compilation. -/
def filesRead (log : List Deed) : List Path :=
  log.filterMap fun d =>
    match d with
    | .read p => some p
    | .called _ => none

/-- Compile what arguments name. -/
def compile (depth : Nat) (call : Invocation) (a : Arguments) : Option Outcome :=
  match configure call a with
  | .error o => some o
  | .ok (config, reads) =>
    let caps := config.capabilities call.read
    match a.input with
    | some p =>
      (compileFile caps config.filters depth p).map fun x =>
        conclude call a "" (reads ++ filesRead x.log) x.result
    | none =>
      match Utf8.decode? (call.input.getD []) with
      | none => some (failed ("Error reading from stdin: " ++ Config.invalidText) reads)
      | some text =>
        (compileSource caps config.filters depth ⟨text, none⟩).map fun x =>
          conclude call a text (reads ++ filesRead x.log) x.result

/-- Run the program. Documents can be nested to the given depth; there is no outcome when that is
not enough. -/
def run (depth : Nat) (call : Invocation) : Option Outcome :=
  match Arguments.ofList call.args with
  | .error .help => some ⟨0, help, "", []⟩
  | .error (.usage e) => some (misused e)
  | .ok a =>
    if a.input.isNone && call.input.isNone then some ⟨2, "", noInput, []⟩
    else compile depth call a

end CommandLine

end Templating
