import NullGuard.Scope.Table

/-!
# The plan of a rewrite

For each helper of a program the plan says which of its uses are calls to
rewrite and which are others. A helper that is declared twice or assigned to is
no constant, and the program is rejected: first for a further declaration, then
for the assignment that stands first in the text.

The declaration of a helper goes away when all its uses are rewritten calls,
there is at least one, and nothing exports it.
-/

namespace NullGuard.Transform

open NullGuard.Text (Span)
open NullGuard.Scope

/-- What happens to a helper. -/
structure HelperPlan where
  name : String
  origin : Origin
  /-- The identifier that declares the helper. -/
  declaredAt : Option Span
  /-- The callees of the calls to rewrite. -/
  calls : List (Option Span)
  /-- The other uses. -/
  retained : List (Option Span)
deriving DecidableEq, Repr

namespace HelperPlan

/-- Whether the helper is exported where it is declared. -/
def isExported (h : HelperPlan) : Bool :=
  match h.origin with
  | .required _ isExported => isExported
  | .imported _ => false

/-- Whether the declaration goes away. -/
def isRemovable (h : HelperPlan) : Bool :=
  !h.isExported && !h.calls.isEmpty && h.retained.isEmpty

/-- The import declaration or declarator. -/
def declaration (h : HelperPlan) : Option Span :=
  match h.origin with
  | .imported s | .required s _ => s

end HelperPlan

/-- What happens to the helpers of a program, in the order of their
declarations. -/
structure Plan where
  helpers : List HelperPlan
deriving DecidableEq, Repr

namespace Plan

/-- The callees of all calls to rewrite. -/
def targets (p : Plan) : List (Option Span) :=
  (p.helpers.flatMap HelperPlan.calls).eraseDups

/-- Whether the call of the identifier at a span is rewritten. -/
def isTarget (p : Plan) (callee : Option Span) : Bool :=
  p.helpers.any fun h => h.calls.contains callee

/-- The declarations that go away. -/
def removals (p : Plan) : List (Option Span) :=
  ((p.helpers.filter HelperPlan.isRemovable).map
    HelperPlan.declaration).eraseDups

end Plan

/-- Where a span starts; the start of the text if it is nowhere. -/
def startOf (s : Option Span) : Nat :=
  match s with
  | some p => p.start
  | none => 0

/-- The span that starts first, and among equals the one that comes first. -/
def earliest? : List (Option Span) → Option (Option Span)
  | [] => none
  | s :: rest =>
    match earliest? rest with
    | some other => if startOf other < startOf s then some other else some s
    | none => some s

/-- What happens to one helper. -/
def planHelper (t : Table) (helper : HelperDeclaration) :
    Except Rejection HelperPlan :=
  let binding := t.bindings.getD helper.binding default
  let uses := t.referencesTo helper.binding
  match binding.redeclarations with
  | again :: _ => .error (.redefinition again binding.span)
  | [] =>
    match earliest? ((uses.filter fun r => r.kind == .write).map Reference.span)
      with
    | some written => .error (.redefinition written binding.span)
    | none =>
      .ok {
        name := binding.name
        origin := helper.origin
        declaredAt := binding.span
        calls := (uses.filter fun r => r.kind == .callee).map Reference.span
        retained :=
          (uses.filter fun r => r.kind != .callee).map Reference.span }

/-- Plans a rewrite. The first helper that is no constant makes it fail. -/
def plan (t : Table) : Except Rejection Plan := do
  return ⟨← t.helpers.mapM (planHelper t)⟩

end NullGuard.Transform
