import Templating.Constant.Literal
import Templating.Logged
import Templating.Text.Utf8

/-!
# Filters

A filter turns text into text, with options. A filter set registers filters by name, with names
that stand for other names, and with options that hold where a template sets none.
-/

namespace Templating

/-- What a filter is told besides its input. -/
structure FilterOptions where
  attrs : Options
  /-- The file that the input comes from. -/
  file : Option Path

/-- A text transformation. -/
structure Filter where
  /-- The output for a text, or a complaint. -/
  render : String → FilterOptions → Except String String
  /-- Whether the filter takes the bytes of a file as they are. -/
  acceptsBytes : Bool
  /-- The output for bytes, or a complaint. -/
  renderBytes : List UInt8 → FilterOptions → Except String String

/-- A filter of texts. -/
def Filter.ofText (render : String → FilterOptions → Except String String) : Filter :=
  { render, acceptsBytes := false, renderBytes := fun raw => render (Utf8.decodeLossy raw) }

/-- What a filter is applied to. -/
inductive FilterInput where
  | text (value : String)
  | bytes (raw : List UInt8)
  deriving DecidableEq, Repr

/-- The application of a filter, by the name it is registered under. -/
structure FilterCall where
  name : String
  input : FilterInput
  options : FilterOptions

/-- Registered filters. -/
structure FilterSet where
  filters : Table String Filter
  /-- Names that stand for other names. -/
  aliases : Table String String
  /-- Options by the name written in templates. -/
  defaults : Table String Options
  /-- The value of an option's expression, or the part of it that is not constant. -/
  evaluate : String → Except String Constant

namespace FilterSet

/-- No filters; expressions are literals. -/
def empty : FilterSet := ⟨.empty, .empty, .empty, Literal.evaluate⟩

/-- Register a filter. -/
def withFilter (s : FilterSet) (name : String) (f : Filter) : FilterSet :=
  { s with filters := s.filters.insert name f }

/-- Let a name stand for another one. -/
def withAlias (s : FilterSet) (name target : String) : FilterSet :=
  { s with aliases := s.aliases.insert name target }

/-- Set an option for every use of a filter under the written name. -/
def withDefault (s : FilterSet) (filter option : String) (value : Constant) : FilterSet :=
  let options := (s.defaults.get? filter).getD .empty
  { s with defaults := s.defaults.insert filter (options.insert option value) }

/-- A filter is registered under the name. -/
def contains (s : FilterSet) (name : String) : Bool := s.filters.contains name

/-- The registered name that a written name stands for. One step is taken; a second one is
refused. -/
def resolveName (s : FilterSet) (name : String) (site : Position) : Except TemplateError String :=
  match s.aliases.get? name with
  | none => .ok name
  | some target =>
    match s.aliases.get? target with
    | some next => .error (.structural (.aliasChain name target next) site)
    | none => .ok target

/-- The filter that a written name stands for, with its registered name. -/
def lookup (s : FilterSet) (name : String) (site : Position) :
    Except TemplateError (String × Filter) :=
  match s.resolveName name site with
  | .error e => .error e
  | .ok resolved =>
    match s.filters.get? resolved with
    | some f => .ok (resolved, f)
    | none => .error (.structural (.unknownFilter resolved) site)

/-- The options written in a template; a later one of the same name wins. -/
def foldAttrs (s : FilterSet) (site : Position) : Options → List Attr → Except TemplateError Options
  | folded, [] => .ok folded
  | folded, a :: rest =>
    match a.value with
    | .flag => foldAttrs s site (folded.insert a.name (.bool true)) rest
    | .expr text =>
      match s.evaluate text with
      | .ok value => foldAttrs s site (folded.insert a.name value) rest
      | .error part => .error (.structural (.optionNotConstant part) site)

/-- Add the entries of `defaults` whose names are not set. -/
def addDefaults (folded defaults : Options) : Options :=
  defaults.entries.foldl
    (fun os e => if os.contains e.1 then os else os.insert e.1 e.2) folded

/-- The options of a use of a filter: those written, then the defaults of the written name. -/
def options (s : FilterSet) (use : FilterUse) (file : Option Path) :
    Except TemplateError FilterOptions :=
  match s.foldAttrs use.position .empty use.attrs with
  | .error e => .error e
  | .ok folded =>
    match s.defaults.get? use.name with
    | some defaults => .ok ⟨addDefaults folded defaults, file⟩
    | none => .ok ⟨folded, file⟩

end FilterSet

end Templating
