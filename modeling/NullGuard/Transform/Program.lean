import NullGuard.Text.Word
import NullGuard.Transform.Calls

/-!
# Transforming a program

A program whose text cannot mention the helper is left alone without looking at
its tree. Otherwise it is analysed, the rewrite is planned, and the plan is
carried out; each of the three can reject the program. The report says what was
done and what was left.
-/

namespace NullGuard.Transform

open NullGuard.Text
open NullGuard.Tree NullGuard.Scope

/-- A helper whose declaration had to stay. -/
structure RetainedHelper where
  name : String
  declaredAt : Option Span
  /-- The uses that are no direct calls. -/
  references : List (Option Span)
deriving DecidableEq, Repr

/-- What was done to a program. -/
structure Report where
  /-- The text does not mention the helper, so the program was not looked at. -/
  isSkipped : Bool := false
  callsRewritten : Nat := 0
  /-- The temporaries in the order in which they were made. -/
  temporaries : List Temporary := []
  /-- The helpers whose declarations were removed. -/
  removed : List String := []
  retained : List RetainedHelper := []
  /-- Variables that require the helper's module in another form than the
  recognised one. -/
  unrecognizedRequires : List (Option Span) := []
deriving DecidableEq, Repr

/-- Whether the program changed. -/
def Report.isChanged (r : Report) : Bool :=
  r.callsRewritten > 0 || !r.removed.isEmpty

/-- Whether a text could import or call the helper. Only the default name is
looked for. -/
def mayReferenceHelper (text : String) (options : Options) : Bool :=
  options.importName != defaultImportName || containsWord "idx" text

/-- A program with its comments and what was done to it. -/
structure Transformed where
  tree : Node
  comments : CommentMap
  report : Report

/-- The report of a plan that was carried out. -/
def Plan.report (plan : Plan) (unrecognized : List (Option Span))
    (progress : Progress) : Report where
  callsRewritten := progress.calls
  temporaries := progress.temporaries
  removed := (plan.helpers.filter HelperPlan.isRemovable).map HelperPlan.name
  retained := (plan.helpers.filter fun h => !h.isRemovable &&
    !h.retained.isEmpty).map fun h =>
    ⟨h.name, h.declaredAt, h.retained⟩
  unrecognizedRequires := unrecognized

/-- Transforms a program that was read from a text. -/
def transformProgram (options : Options) (text : String) (tree : Node)
    (comments : CommentMap) :
    Except Rejection Transformed := do
  if !mayReferenceHelper text options then
    return ⟨tree, comments, { isSkipped := true }⟩
  let analysis ← analyze options.importName tree
  let plan ← plan analysis.table
  if plan.helpers.isEmpty then
    return ⟨tree, comments,
      { unrecognizedRequires := analysis.table.unrecognized }⟩
  let (tree, progress) ← rewriteProgram options plan analysis.names
    tree comments
  return ⟨tree, progress.comments,
    plan.report analysis.table.unrecognized progress⟩

end NullGuard.Transform
