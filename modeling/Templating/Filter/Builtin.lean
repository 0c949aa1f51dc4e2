import Templating.Filter
import Templating.Text.Base64
import Templating.Text.Uppercase

/-!
# Built-in filters
-/

namespace Templating

/-- Turns text to upper case. -/
def Filter.upper : Filter := .ofText fun text _ => .ok (Text.upper text)

/-- Writes bytes in base 64; a text stands for its bytes. -/
def Filter.base64 : Filter :=
  { render := fun text _ => .ok (Base64.encode (Utf8.encode text))
    acceptsBytes := true
    renderBytes := fun raw _ => .ok (Base64.encode raw) }

/-- The filters that need no registration. -/
def FilterSet.builtin : FilterSet :=
  (FilterSet.empty.withFilter "upper" .upper).withFilter "base64" .base64

end Templating
