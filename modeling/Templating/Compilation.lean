import Templating.Config
import Templating.Filter.Rendering
import Templating.Linking
import Templating.Loading

/-!
# Compilation

From a template to one tree: loading, rendering of filters, linking.
-/

namespace Templating

/-- Something done outside the compiler. -/
inductive Deed where
  | read (file : Path)
  | called (call : FilterCall)

/-- A compilation: an answer with what was done for it, unless documents are nested too deep. -/
abbrev Compilation (α : Type) := Option (Logged Deed α)

/-- Change how things done are written down. -/
def Logged.relabel {ω ω' α : Type} (f : ω → ω') (x : Logged ω α) : Logged ω' α :=
  ⟨x.log.map f, x.result⟩

/-- Render and link a loaded document. -/
def finish (filters : FilterSet) (n : Node) : Logged Deed Linked := do
  let n ← (filters.render n).relabel Deed.called
  Logged.ofExcept (link n)

/-- Render and link what is loaded. -/
def finishLoad (filters : FilterSet) (x : Load Node) : Compilation Linked :=
  Option.map (fun (y : Logged Path Node) => (y.relabel Deed.read).bind (finish filters)) x

/-- Compile a document that is already read. -/
def compileDocument (caps : Capabilities) (filters : FilterSet) (depth : Nat) (n : Node) :
    Compilation Linked :=
  finishLoad filters (loadDocument caps depth n)

/-- Compile a text. -/
def compileSource (caps : Capabilities) (filters : FilterSet) (depth : Nat) (src : Source) :
    Compilation Linked :=
  finishLoad filters (loadSource caps depth src)

/-- Compile a file. -/
def compileFile (caps : Capabilities) (filters : FilterSet) (depth : Nat) (p : Path) :
    Compilation Linked :=
  finishLoad filters (loadFile caps depth p)

end Templating
