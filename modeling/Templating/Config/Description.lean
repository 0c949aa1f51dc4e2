import Templating.Config
import Templating.Text.Quoted

/-!
# Descriptions

Configurations on one line, for people who look for mistakes in them. Texts are quoted, numbers
show that they are numbers, and every table is in the order of its keys.
-/

namespace Templating

/-- Entries in braces. -/
def describeEntries {α : Type} (describe : α → String) (es : List (String × α)) : String :=
  "\x7b" ++ ", ".intercalate (es.map fun e => Text.quoted e.1 ++ ": " ++ describe e.2) ++ "\x7d"

namespace Constant

mutual

/-- A value with its kind. -/
def describe : Constant → String
  | .bool b => "Bool(" ++ (if b then "true" else "false") ++ ")"
  | .number x => "Number(" ++ Binary64.format Binary64.explicit x ++ ")"
  | .string s => "String(" ++ Text.quoted s ++ ")"
  | .array items => "Array([" ++ ", ".intercalate (describeAll items) ++ "])"
  | .null => "Null"
  termination_by structural c => c

/-- Several values with their kinds. -/
def describeAll : List Constant → List String
  | [] => []
  | c :: cs => describe c :: describeAll cs
  termination_by structural cs => cs

end

end Constant

/-- The options by name. -/
def Options.describe (os : Options) : String := describeEntries Constant.describe os.sorted

/-- What is registered, replaced and preset. -/
def FilterSet.describe (s : FilterSet) : String :=
  let names := s.filters.sorted.map fun e => Text.quoted e.1
  "FilterConfig \x7b filters: [" ++ ", ".intercalate names ++ "], aliases: " ++
    describeEntries Text.quoted s.aliases.sorted ++ ", defaults: " ++
    describeEntries Options.describe s.defaults.sorted ++ ", .. \x7d"

/-- Where rooted paths begin. -/
def Capabilities.describe (caps : Capabilities) : String :=
  let base :=
    match caps.base with
    | some dir => "Some(" ++ Text.quoted dir.text ++ ")"
    | none => "None"
  "Capabilities \x7b basedir: " ++ base ++ ", .. \x7d"

end Templating
