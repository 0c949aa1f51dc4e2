import Templating.Error
import Templating.Text.Blank

/-!
# Resolution of references

The default rule from the path written in a template to the file it names. A path that begins
with a slash is taken below the base directory, any other below the directory of the file that
holds the reference.
-/

namespace Templating

/-- The file named by `written` in the file `source`. -/
def resolveReference (base : Option Path) (written : String) (source : Option Path) :
    Except TemplateError Path :=
  let path := Text.trim written
  match path.toList with
  | '/' :: rooted =>
    match base with
    | none => .error (.resolution path .noBaseDirectory [])
    | some dir => .ok (dir.join ⟨String.ofList rooted⟩).normalize
  | _ =>
    match source with
    | none => .error (.resolution path .noFileName [])
    | some file => .ok ((file.parent?.getD ⟨""⟩).join ⟨path⟩).normalize

end Templating
