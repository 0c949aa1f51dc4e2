import Templating.Grammar.Failure
import Templating.Node
import Templating.Source
import Templating.Token.Lexer
import Templating.Text.Quoted

/-!
# Errors

What can end the compilation of a template, each with its cause, and the one place where causes
are put into words. Errors that belong to a reference carry a trace: the positions of the
references that led to them, innermost first.
-/

namespace Templating

/-- What is wrong with a template text. -/
inductive Fault where
  /-- No token starts with this. -/
  | badCharacter (text : String)
  /-- The tokens do not make a document. -/
  | grammar (reason : Grammar.Reason)
  /-- A complaint in words, with what was expected. -/
  | stated (message : String) (expected : List String)
  deriving DecidableEq, Repr

/-- A fault and the part of the text it points at. -/
structure SyntaxError where
  span : Span
  fault : Fault
  deriving DecidableEq, Repr

namespace SyntaxError

/-- The complaint in words. -/
def message (e : SyntaxError) : String :=
  match e.fault with
  | .badCharacter text => "Unexpected character " ++ Text.quoted text
  | .grammar (.unexpected (some t) _) => "Unexpected " ++ t.describe
  | .grammar (.unexpected none _) => "Unexpected end of input"
  | .grammar .rawIncludeBody => "Raw includes cannot have a body"
  | .stated text _ => text

/-- What was expected, in the order in which it was tried. -/
def expected (e : SyntaxError) : List String :=
  match e.fault with
  | .grammar (.unexpected _ es) => es.map Grammar.Expectation.describe
  | .stated _ es => es
  | _ => []

/-- The error on one line. -/
def toText (e : SyntaxError) : String :=
  "Parse error at " ++ toString e.span.start ++ ".." ++ toString e.span.stop ++ ": " ++ e.message

/-- The error of a place where lexing stopped. -/
def ofRefusal (r : Lexer.Refusal) : SyntaxError := ⟨r.span, .badCharacter r.text⟩

/-- The error of a failure of the grammar. -/
def ofFailure (f : Grammar.Failure) : SyntaxError := ⟨f.span, .grammar f.reason⟩

end SyntaxError

/-- Names of the rules that a template can break. -/
inductive RuleCode where
  | inheritNotFirst
  | strayNodes
  | unexpectedBlock
  | aliasChain
  | optionNotConstant
  | unknownFilter
  deriving DecidableEq, Repr

namespace RuleCode

/-- Every code. -/
def all : List RuleCode :=
  [.inheritNotFirst, .strayNodes, .unexpectedBlock, .aliasChain, .optionNotConstant,
    .unknownFilter]

/-- The code as it is shown. -/
def text : RuleCode → String
  | .inheritNotFirst => "EXTENDS_NOT_FIRST"
  | .strayNodes => "UNEXPECTED_NODES_IN_EXTENDING_ROOT"
  | .unexpectedBlock => "UNEXPECTED_BLOCK"
  | .aliasChain => "FILTER_ALIAS_CHAIN"
  | .optionNotConstant => "FILTER_OPTION_NOT_CONSTANT"
  | .unknownFilter => "UNKNOWN_FILTER"

/-- The code shown as `s`. -/
def ofText? (s : String) : Option RuleCode := all.find? fun c => c.text == s

end RuleCode

/-- How a template breaks a rule of inheritance or of filters. -/
inductive Violation where
  /-- An inherit statement that is not the first of its document. -/
  | inheritNotFirst
  /-- Something at the top of an inheriting document that has no place in the parent. -/
  | strayNodes
  /-- A block that no ancestor has. -/
  | unexpectedBlock (name : String)
  /-- An alias whose target is an alias. -/
  | aliasChain (name target next : String)
  /-- An option whose expression is not constant. -/
  | optionNotConstant (expr : String)
  /-- A filter that is not registered. -/
  | unknownFilter (name : String)
  /-- A complaint in words. -/
  | stated (code : RuleCode) (message : String)
  deriving DecidableEq, Repr

namespace Violation

/-- The rule that is broken. -/
def code : Violation → RuleCode
  | .inheritNotFirst => .inheritNotFirst
  | .strayNodes => .strayNodes
  | .unexpectedBlock _ => .unexpectedBlock
  | .aliasChain .. => .aliasChain
  | .optionNotConstant _ => .optionNotConstant
  | .unknownFilter _ => .unknownFilter
  | .stated c _ => c

/-- The violation in words. -/
def message : Violation → String
  | .inheritNotFirst =>
    "Declaration of template inheritance (\"extends\") should be the first thing in the file. " ++
      "There can only be one extends statement per file."
  | .strayNodes =>
    "Only named blocks and mixins can appear at the top level of an extending template"
  | .unexpectedBlock name => "Unexpected block " ++ name
  | .aliasChain name target next =>
    "The filter \"" ++ name ++ "\" is an alias for \"" ++ target ++
      "\", which is an alias for \"" ++ next ++ "\". Chains of filter aliases are not supported."
  | .optionNotConstant expr =>
    expr ++ " is not constant. All filters are rendered compile-time so filter options must be " ++
      "constants."
  | .unknownFilter name => "filter \"" ++ name ++ "\" does not exist"
  | .stated _ text => text

end Violation

/-- Why a reference names no file. -/
inductive Unresolved where
  /-- A rooted path, and no base directory to take it from. -/
  | noBaseDirectory
  /-- A relative path in a text without a file name. -/
  | noFileName
  /-- The file is being loaded already; from its first to its second mention. -/
  | circular (chain : List Path)
  /-- A complaint in words. -/
  | stated (message : String)
  deriving DecidableEq, Repr

/-- The reason in words. -/
def Unresolved.message : Unresolved → String
  | .noBaseDirectory =>
    "the \"basedir\" option is required to use includes and extends with \"absolute\" paths"
  | .noFileName =>
    "the \"filename\" option is required to use includes and extends with \"relative\" paths"
  | .circular chain =>
    "circular template reference: " ++ " -> ".intercalate (chain.map Path.text)
  | .stated text => text

/-- What is missing or wrong in a configuration. -/
inductive ConfigError where
  | missingCapability (name : String)
  /-- The configuration file cannot be read. -/
  | unreadable (reason : String)
  /-- The configuration text is not what it should be. -/
  | malformed
  deriving DecidableEq, Repr

/-- The error in words. -/
def ConfigError.message : ConfigError → String
  | .missingCapability name => "the \"" ++ name ++ "\" capability is required"
  | .unreadable reason => "Failed to read configuration file: " ++ reason
  | .malformed => "Failed to parse configuration TOML: TOML parse error"

/-- The statements that refer to a file. -/
inductive ReferenceKind where
  | inherits
  | includes
  | includesRaw
  deriving DecidableEq, Repr

/-- The name of the kind of node. -/
def ReferenceKind.text : ReferenceKind → String
  | .inherits => "Extends"
  | .includes => "Include"
  | .includesRaw => "RawInclude"

/-- What ends the compilation of a template. -/
inductive TemplateError where
  | config (error : ConfigError)
  /-- A reference names no file. -/
  | resolution (path : String) (cause : Unresolved) (trace : List Position)
  /-- A file cannot be read. -/
  | read (path : Path) (reason : String) (trace : List Position)
  /-- A text is no template. -/
  | malformed (source : Source) (errors : List SyntaxError) (trace : List Position)
  /-- A rule is broken. -/
  | structural (violation : Violation) (position : Position)
  | filterFailed (name message : String) (position : Position)
  /-- A document of this kind of node. -/
  | notABlock (found : String)
  /-- A reference whose content is needed was not loaded. -/
  | unloaded (kind : ReferenceKind) (path : String) (position : Position)
  deriving DecidableEq, Repr

namespace TemplateError

/-- A position on a line of its own. -/
def siteText (p : Position) : String := "\n    at " ++ p.toText

/-- A trace, a line for each position. -/
def traceText (trace : List Position) : String := String.join (trace.map siteText)

/-- The error in words. -/
def message : TemplateError → String
  | .config e => "invalid configuration: " ++ e.message
  | .resolution _ cause trace => cause.message ++ traceText trace
  | .read path reason trace => "failed to read " ++ path.text ++ ": " ++ reason ++ traceText trace
  | .malformed source errors trace =>
    "syntax error in " ++ Position.fileText source.file ++ ": " ++
      "; ".intercalate (errors.map SyntaxError.toText) ++ traceText trace
  | .structural v p => v.code.text ++ ": " ++ v.message ++ siteText p
  | .filterFailed name text p => "filter \"" ++ name ++ "\" failed: " ++ text ++ siteText p
  | .notABlock found => "the top level element should always be a block, found " ++ found
  | .unloaded kind path p =>
    kind.text ++ " of \"" ++ path ++ "\" was linked before it was loaded" ++ siteText p

/-- Note the reference that led to the error, for the errors that keep a trace. -/
def via (e : TemplateError) (site : Position) : TemplateError :=
  match e with
  | .resolution path cause trace => .resolution path cause (trace ++ [site])
  | .read path reason trace => .read path reason (trace ++ [site])
  | .malformed source errors trace => .malformed source errors (trace ++ [site])
  | _ => e

/-- The code of a broken rule. -/
def code? : TemplateError → Option RuleCode
  | .structural v _ => some v.code
  | _ => none

/-- Where the offending node stands, if the error has one. -/
def position? : TemplateError → Option Position
  | .structural _ p => some p
  | .filterFailed _ _ p => some p
  | .unloaded _ _ p => some p
  | .resolution _ _ trace => trace.head?
  | .read _ _ trace => trace.head?
  | _ => none

/-- The file the error points at. -/
def file? (e : TemplateError) : Option Path :=
  match e with
  | .malformed source _ _ => source.file
  | _ => e.position?.bind Position.file

/-- The line the error points at. -/
def line? (e : TemplateError) : Option Nat := e.position?.map Position.line

end TemplateError

/-- Read a text as tokens. -/
def Source.lexemes (src : Source) : Except SyntaxError (List Lexeme) :=
  (Lexer.lexemes src.text).mapError SyntaxError.ofRefusal

end Templating
