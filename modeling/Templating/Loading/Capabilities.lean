import Templating.Document
import Templating.Loading.Resolution

/-!
# Capabilities

What loading works with: how a text is lexed and parsed, how a reference is resolved, and how a
file is read.
-/

namespace Templating

/-- The collaborators of loading. -/
structure Capabilities where
  lex : Source → Except TemplateError (List Lexeme)
  parse : List Lexeme → Source → Except TemplateError Node
  /-- The file named by a written path, given the base directory and the file that holds it. -/
  resolve : Option Path → String → Option Path → Except TemplateError Path
  /-- The content of a file, or why there is none. -/
  read : Path → Except String (List UInt8)
  /-- Where rooted paths begin. -/
  base : Option Path

/-- A set of capabilities in which some may be missing. -/
structure CapabilityDraft where
  lex : Option (Source → Except TemplateError (List Lexeme))
  parse : Option (List Lexeme → Source → Except TemplateError Node)
  resolve : Option (Option Path → String → Option Path → Except TemplateError Path)
  read : Path → Except String (List UInt8)
  base : Option Path

namespace CapabilityDraft

/-- The default language and resolution over a way to read files. -/
def standard (read : Path → Except String (List UInt8)) (base : Option Path) : CapabilityDraft :=
  { lex := some Source.tokens
    parse := some fun ls src => src.documentOf ls
    resolve := none
    read, base }

/-- Complete a draft. Lexing and parsing have to be there; lexing is asked for first. -/
def complete (d : CapabilityDraft) : Except ConfigError Capabilities :=
  match d.lex, d.parse with
  | some lex, some parse =>
    .ok { lex, parse, resolve := d.resolve.getD resolveReference, read := d.read, base := d.base }
  | none, _ => .error (.missingCapability "lex")
  | some _, none => .error (.missingCapability "parse")

end CapabilityDraft

/-- The default language and resolution over a way to read files. -/
def Capabilities.standard (read : Path → Except String (List UInt8)) (base : Option Path) :
    Capabilities :=
  { lex := Source.tokens
    parse := fun ls src => src.documentOf ls
    resolve := resolveReference
    read, base }

/-- The default draft is complete. -/
theorem CapabilityDraft.complete_standard (read : Path → Except String (List UInt8))
    (base : Option Path) :
    (CapabilityDraft.standard read base).complete = .ok (Capabilities.standard read base) := by
  simp only [complete, standard, Capabilities.standard, Option.getD_none]

end Templating
