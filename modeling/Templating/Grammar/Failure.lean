import Templating.Token

/-!
# Failures of the grammar

Alternatives that fail leave their failure behind. Of all failures one is kept: the one that got
furthest, counted in tokens. Failures that got equally far are joined, so that what each of them
expected is remembered in the order in which it was tried.
-/

namespace Templating.Grammar

/-- What would have been accepted at some place. -/
inductive Expectation where
  | token (t : Token)
  | endOfText
  deriving DecidableEq, Repr

/-- How an expectation is named in messages. -/
def Expectation.describe : Expectation → String
  | .token t => t.describe
  | .endOfText => "end of input"

/-- Why the grammar did not go on. -/
inductive Reason where
  /-- A token, or the end of the text, that does not fit. -/
  | unexpected (found : Option Token) (expected : List Expectation)
  /-- An include of a file that is no template has content for its yield points. -/
  | rawIncludeBody
  deriving DecidableEq, Repr

/-- A failure, the number of tokens before it, and the part of the text it points at. -/
structure Failure where
  index : Nat
  span : Span
  reason : Reason
  deriving DecidableEq, Repr

/-- Both lists in order, without repeating members of the first. -/
def joinExpected (old new : List Expectation) : List Expectation :=
  new.foldl (fun all e => if e ∈ all then all else all ++ [e]) old

/-- Join the reasons of two failures at one place. The older one's token is kept; a reason that
is no misfit wins. -/
def Reason.join : Reason → Reason → Reason
  | .unexpected found expected, .unexpected found' expected' =>
    .unexpected (found.or found') (joinExpected expected expected')
  | .unexpected _ _, r => r
  | r, _ => r

/-- The failure to keep, of the one kept so far and a new one. -/
def keepFurthest (kept : Option Failure) (new : Failure) : Option Failure :=
  match kept with
  | none => some new
  | some old =>
    if old.index < new.index then some new
    else if new.index < old.index then some old
    else some { old with reason := old.reason.join new.reason }

end Templating.Grammar
