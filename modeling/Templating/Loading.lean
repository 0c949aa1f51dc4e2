import Templating.Loading.Capabilities
import Templating.Logged
import Templating.Text.Utf8

/-!
# Loading

Loading fills the references of a document with the files they name, and reads those that are
templates as documents, whose references are loaded in turn. The files that are open, outermost
first, are kept in mind: a template that refers to one of them would be nested in itself.

Documents can be nested to a given depth. Loading below it has no answer (`none`); a deeper bound
changes no answer that is there. The log lists the files that were read, in order.
-/

namespace Templating

/-- A loading: an answer with the files read for it, unless documents are nested too deep. -/
def Load (α : Type) : Type := Option (Logged Path α)

namespace Load

variable {α β : Type}

/-- A value that nothing had to be read for. -/
protected def pure (a : α) : Load α := some (.pure a)

/-- One loading after another. -/
protected def bind (x : Load α) (f : α → Load β) : Load β :=
  match x with
  | none => none
  | some ⟨log, .error e⟩ => some ⟨log, .error e⟩
  | some ⟨log, .ok a⟩ =>
    match f a with
    | none => none
    | some y => some ⟨log ++ y.log, y.result⟩

instance : Monad Load where
  pure := Load.pure
  bind := Load.bind

instance : LawfulMonad Load := LawfulMonad.mk' Load
  (fun x => by
    match x with
    | none => rfl
    | some ⟨log, .error e⟩ => rfl
    | some ⟨log, .ok a⟩ =>
      simp only [Functor.map, Load.bind, Load.pure, Logged.pure, Function.comp_apply, id_eq,
        List.append_nil]
      rfl)
  (fun a f => by
    simp only [pure, bind, Load.pure, Logged.pure, Load.bind]
    cases f a <;> rfl)
  (fun x f g => by
    match x with
    | none => rfl
    | some ⟨log, .error e⟩ => rfl
    | some ⟨log, .ok a⟩ =>
      simp only [bind, Load.bind]
      match f a with
      | none => rfl
      | some ⟨log', .error e⟩ => rfl
      | some ⟨log', .ok b⟩ =>
        simp only
        cases g b with
        | none => rfl
        | some y =>
          simp only [List.append_assoc]
          rfl)

/-- An answer that nothing had to be read for. -/
def ofExcept (r : Except TemplateError α) : Load α := some (.ofExcept r)

/-- The same with another error. -/
def mapError (f : TemplateError → TemplateError) (x : Load α) : Load α :=
  x.map (Logged.mapError f)

/-- Read a file. -/
def read (caps : Capabilities) (p : Path) : Load (List UInt8) :=
  some ⟨[p], (caps.read p).mapError fun reason => .read p reason []⟩

end Load

/-- Refuse a reference to a file that is open. The chain runs from the first mention of the file
to the reference. -/
def checkCircular (opened : List Path) (written : String) (target : Path) :
    Except TemplateError Unit :=
  match opened.dropWhile fun p => !p.same target with
  | [] => .ok ()
  | chain => .error (.resolution written (.circular (chain ++ [target])) [])

/-- How to open the document of a file: the open files, the text, and the file name. -/
abbrev Opener := List Path → String → Path → Load Node

section

variable (caps : Capabilities) (openDocument : Opener) (opened : List Path)

/-- Find and read the file of a reference, and read it as a document if it is to be a template.
Errors note the site of the reference. -/
def fetch (asTemplate : Bool) (file : Reference) (site : Position) :
    Load (Reference × Option Node) :=
  Load.mapError (fun e => e.via site) do
    let target ← Load.ofExcept (caps.resolve caps.base file.path file.source)
    if asTemplate then
      Load.ofExcept (checkCircular opened file.path target)
    let raw ← Load.read caps target
    let text := Utf8.decodeLossy raw
    let document ←
      if asTemplate then do
        let d ← openDocument (opened ++ [target]) text target
        pure (some d)
      else pure none
    pure ({ file with target := some target, raw := some raw, text := some text }, document)

mutual

/-- Load the references of a document. A reference that is loaded is kept, and its document is
looked through. -/
def populate : Node → Load Node
  | .group ⟨ns, p⟩ => do
    let ns ← populateAll ns
    pure (.group ⟨ns, p⟩)
  | .block h ns => do
    let ns ← populateAll ns
    pure (.block h ns)
  | .inherits f d p =>
    if f.isLoaded then do
      let d ← populateDocument d
      pure (.inherits f d p)
    else do
      let (f, d) ← fetch caps openDocument opened true f p
      pure (.inherits f d p)
  | .includes f d b p =>
    if f.isLoaded then do
      let d ← populateDocument d
      let b ← populateBody b
      pure (.includes f d b p)
    else do
      let (f, d) ← fetch caps openDocument opened true f p
      let b ← populateBody b
      pure (.includes f d b p)
  | .includesRaw f d filters p =>
    if f.isLoaded then do
      let d ← populateDocument d
      pure (.includesRaw f d filters p)
    else do
      let (f, _) ← fetch caps openDocument opened false f p
      let d ← populateDocument d
      pure (.includesRaw f d filters p)
  | .mixin h b => do
    let b ← populateBody b
    pure (.mixin h b)
  | .filter use ⟨ns, p⟩ => do
    let ns ← populateAll ns
    pure (.filter use ⟨ns, p⟩)
  | .yield p => pure (.yield p)
  | .text v p => pure (.text v p)
  | .tag h ⟨ns, p⟩ => do
    let ns ← populateAll ns
    pure (.tag h ⟨ns, p⟩)
  termination_by structural n => n

/-- Load the references of several nodes. -/
def populateAll : List Node → Load (List Node)
  | [] => pure []
  | n :: ns => do
    let n ← populate n
    let ns ← populateAll ns
    pure (n :: ns)
  termination_by structural ns => ns

/-- Load the references of a document beside a reference. -/
def populateDocument : Option Node → Load (Option Node)
  | none => pure none
  | some d => do
    let d ← populate d
    pure (some d)
  termination_by structural d => d

/-- Load the references of a nested sequence. -/
def populateBody : Option Block → Load (Option Block)
  | none => pure none
  | some ⟨ns, p⟩ => do
    let ns ← populateAll ns
    pure (some ⟨ns, p⟩)
  termination_by structural b => b

end

end

/-- Read a text as a document and load its references. -/
def openText (caps : Capabilities) : Nat → List Path → Source → Load Node
  | 0, _, _ => none
  | depth + 1, opened, src => do
    let ls ← Load.ofExcept (caps.lex src)
    let n ← Load.ofExcept (caps.parse ls src)
    populate caps (fun opened text file => openText caps depth opened ⟨text, some file⟩) opened n

/-- Load a document that is already read. -/
def loadDocument (caps : Capabilities) (depth : Nat) (n : Node) : Load Node :=
  populate caps (fun opened text file => openText caps depth opened ⟨text, some file⟩) [] n

/-- Load the document of a text. -/
def loadSource (caps : Capabilities) (depth : Nat) (src : Source) : Load Node :=
  openText caps depth src.file.toList src

/-- Load the document of a file. -/
def loadFile (caps : Capabilities) (depth : Nat) (p : Path) : Load Node := do
  let raw ← Load.read caps p
  loadSource caps depth ⟨Utf8.decodeLossy raw, some p⟩

end Templating
