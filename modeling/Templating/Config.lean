import Templating.Filter.Builtin
import Templating.Loading.Capabilities
import Templating.Toml.Reader

/-!
# Configuration

What a compilation needs beyond the template: the base directory and the filters. A configuration
can be read from a TOML text with the keys `basedir`, `filter_aliases` and `filter_options`.
-/

namespace Templating

/-- A configuration. -/
structure Config where
  /-- Where rooted paths begin. -/
  base : Option Path
  filters : FilterSet

/-- The constant that a TOML value stands for; tables and dates stand for none. -/
def Constant.ofToml? : Toml → Option Constant
  | .string s => some (.string s)
  | .integer i => some (.number (Binary64.ofInt i))
  | .float x => some (.number x)
  | .bool b => some (.bool b)
  | .array items => (ofItems? items).map Constant.array
  | .dateTime _ | .table .. => none
where
  /-- The constants that several values stand for. -/
  ofItems? : List Toml → Option (List Constant)
    | [] => some []
    | v :: vs =>
      match Constant.ofToml? v, ofItems? vs with
      | some c, some cs => some (c :: cs)
      | _, _ => none

namespace Config

/-- The built-in filters and no base directory. -/
def standard : Config := ⟨none, .builtin⟩

/-- Set the base directory. -/
def withBase (c : Config) (base : Path) : Config := { c with base := some base }

/-- Add the aliases of a table. -/
def addAliases? (s : FilterSet) : Toml.Entries → Option FilterSet
  | [] => some s
  | (name, .string target) :: rest => addAliases? (s.withAlias name target) rest
  | _ => none

/-- Add the default options of a table for one filter. -/
def addOptions? (filter : String) (s : FilterSet) : Toml.Entries → Option FilterSet
  | [] => some s
  | (option, v) :: rest =>
    match Constant.ofToml? v with
    | some c => addOptions? filter (s.withDefault filter option c) rest
    | none => none

/-- Add the default options of a table of filters. -/
def addFilterOptions? (s : FilterSet) : Toml.Entries → Option FilterSet
  | [] => some s
  | (filter, v) :: rest =>
    match v.entries?.bind (addOptions? filter s) with
    | some s => addFilterOptions? s rest
    | none => none

/-- Take in the entries of a document. Other keys than the three are refused. -/
def ofEntries? (c : Config) : Toml.Entries → Option Config
  | [] => some c
  | ("basedir", .string s) :: rest => ofEntries? (c.withBase ⟨s⟩) rest
  | ("filter_aliases", v) :: rest =>
    match v.entries?.bind (addAliases? c.filters) with
    | some s => ofEntries? { c with filters := s } rest
    | none => none
  | ("filter_options", v) :: rest =>
    match v.entries?.bind (addFilterOptions? c.filters) with
    | some s => ofEntries? { c with filters := s } rest
    | none => none
  | _ => none

/-- The configuration of a TOML text. -/
def ofText (text : String) : Except ConfigError Config :=
  match (Toml.Reader.document? text).bind (ofEntries? standard) with
  | some c => .ok c
  | none => .error .malformed

/-- Why a file that is not UTF-8 cannot be read as text. -/
def invalidText : String := "stream did not contain valid UTF-8"

/-- The text of a file. -/
def readText (read : Path → Except String (List UInt8)) (p : Path) : Except String String :=
  match read p with
  | .error reason => .error reason
  | .ok raw =>
    match Utf8.decode? raw with
    | some text => .ok text
    | none => .error invalidText

/-- The configuration of a file. A relative base directory is taken below the directory of the
file. -/
def ofFile (read : Path → Except String (List UInt8)) (p : Path) : Except ConfigError Config :=
  match readText read p with
  | .error reason => .error (.unreadable reason)
  | .ok text =>
    match ofText text with
    | .error e => .error e
    | .ok c =>
      match c.base, p.parent? with
      | some base, some dir => .ok (if base.isAbsolute then c else c.withBase (dir.join base))
      | _, _ => .ok c

/-- The default language and resolution over a way to read files, below the base directory. -/
def capabilities (c : Config) (read : Path → Except String (List UInt8)) : Capabilities :=
  .standard read c.base

end Config

end Templating
