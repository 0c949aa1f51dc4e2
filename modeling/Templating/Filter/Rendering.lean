import Templating.Filter

/-!
# Rendering filters

Every outermost filter of a document, and every raw include with filters, becomes one text. The
loaded documents that the document depends on are rendered as well.
-/

namespace Templating

/-- The texts among nodes, joined. -/
def directText : List Node → String
  | [] => ""
  | .text v _ :: ns => v ++ directText ns
  | _ :: ns => directText ns

namespace FilterSet

/-- Apply a filter to a text, or to the bytes of a file when there are any and the filter takes
them. -/
def apply (s : FilterSet) (use : FilterUse) (options : FilterOptions) (text : String)
    (raw : Option (List UInt8)) : Logged FilterCall String :=
  match s.lookup use.name use.position with
  | .error e => .fail e
  | .ok (name, f) =>
    let (input, output) : FilterInput × Except String String :=
      match raw with
      | some bytes =>
        if f.acceptsBytes then (.bytes bytes, f.renderBytes bytes options)
        else (.text text, f.render text options)
      | none => (.text text, f.render text options)
    { log := [⟨name, input, options⟩]
      result := output.mapError fun complaint =>
        .filterFailed use.name complaint use.position }

/-- Fold the options of a filter and apply it. -/
def applyWith (s : FilterSet) (use : FilterUse) (file : Option Path) (text : String)
    (raw : Option (List UInt8)) : Logged FilterCall String :=
  match s.options use file with
  | .error e => .fail e
  | .ok options => s.apply use options text raw

/-- Send a text through filters, the first of the list first. Only the first sees the bytes. -/
def applyChain (s : FilterSet) (file : Option Path) :
    List FilterUse → String → Option (List UInt8) → Logged FilterCall String
  | [], text, _ => .pure text
  | use :: rest, text, raw =>
    (s.applyWith use file text raw).bind fun output => applyChain s file rest output none

/-- The text of a raw include with filters. The filter named last is applied first. -/
def renderRaw (s : FilterSet) (file : Reference) (filters : List FilterUse) (site : Position) :
    Logged FilterCall String :=
  match file.raw, file.text with
  | some bytes, some text => s.applyChain file.target filters.reverse text (some bytes)
  | _, _ => .fail (.unloaded .includesRaw file.path site)

mutual

/-- Render the filters of a document. -/
def render (s : FilterSet) : Node → Logged FilterCall Node
  | .group ⟨ns, p⟩ => do
    let ns ← renderAll s ns
    pure (.group ⟨ns, p⟩)
  | .block h ns => do
    let ns ← renderAll s ns
    pure (.block h ns)
  | .inherits f d p => do
    let d ← renderDocument s d
    pure (.inherits f d p)
  | .includes f d b p => do
    let d ← renderDocument s d
    let b ← renderBody s b
    pure (.includes f d b p)
  | .includesRaw f d filters p =>
    if filters.isEmpty then do
      let d ← renderDocument s d
      pure (.includesRaw f d filters p)
    else do
      let text ← s.renderRaw f filters p
      pure (.text text p)
  | .mixin h b => do
    let b ← renderBody s b
    pure (.mixin h b)
  | .filter use ⟨ns, _⟩ => do
    -- a filter that begins with a filter takes in what that one gives
    let ns ← match ns with
      | .filter u b :: rest => renderAll s (.filter u b :: rest)
      | ns => pure ns
    let text ← s.applyWith use use.position.file (directText ns) none
    pure (.text text use.position)
  | .yield p => pure (.yield p)
  | .text v p => pure (.text v p)
  | .tag h ⟨ns, p⟩ => do
    let ns ← renderAll s ns
    pure (.tag h ⟨ns, p⟩)
  termination_by structural n => n

/-- Render the filters of several nodes. -/
def renderAll (s : FilterSet) : List Node → Logged FilterCall (List Node)
  | [] => pure []
  | n :: ns => do
    let n ← render s n
    let ns ← renderAll s ns
    pure (n :: ns)
  termination_by structural ns => ns

/-- Render the filters of a loaded document. -/
def renderDocument (s : FilterSet) : Option Node → Logged FilterCall (Option Node)
  | none => pure none
  | some d => do
    let d ← render s d
    pure (some d)
  termination_by structural d => d

/-- Render the filters of a nested sequence. -/
def renderBody (s : FilterSet) : Option Block → Logged FilterCall (Option Block)
  | none => pure none
  | some ⟨ns, p⟩ => do
    let ns ← renderAll s ns
    pure (some ⟨ns, p⟩)
  termination_by structural b => b

end

end FilterSet

end Templating
