import Templating.Binary64.Decimal
import Templating.Table

/-!
# Constants

The values that a filter option can have.
-/

namespace Templating

/-- A constant value. -/
inductive Constant where
  | bool (value : Bool)
  | number (value : Binary64)
  | string (value : String)
  | array (items : List Constant)
  | null
  deriving Repr, Inhabited

namespace Constant

mutual

/-- The value as text. The items of an array are joined by commas, at every depth. -/
def toText : Constant → String
  | .bool b => if b then "true" else "false"
  | .number x => x.toText
  | .string s => s
  | .array items => ",".intercalate (textsOf items)
  | .null => "null"
  termination_by structural c => c

/-- The texts of several values. -/
def textsOf : List Constant → List String
  | [] => []
  | c :: cs => toText c :: textsOf cs
  termination_by structural cs => cs

end

/-- The text of a string value. -/
def string? : Constant → Option String
  | .string s => some s
  | _ => none

/-- The truth of a truth value. -/
def bool? : Constant → Option Bool
  | .bool b => some b
  | _ => none

/-- The number of a number value. -/
def number? : Constant → Option Binary64
  | .number x => some x
  | _ => none

end Constant

/-- Option values by name. -/
abbrev Options := Table String Constant

end Templating
