import NullGuard.Transform.Rejection
import NullGuard.Tree.Node

/-!
# Recognising the helper

The helper enters a program in two ways: as the default import of its module,
and as a variable whose start value is a call of `require` with the module's
name. An import of the module that is not such a default import is a mistake; a
variable is left alone unless it has the right form.
-/

namespace NullGuard.Scope

open NullGuard.Text (Span)
open NullGuard.Tree
open NullGuard.Transform (Rejection)

/-- Whether the string behind `from` names the helper's module. -/
def namesModule (moduleName : String) (source : Node) : Bool :=
  match source.kind with
  | .str _ value => value.getD "" == moduleName
  | _ => false

/-- Whether `imported` in `imported as local` is the default export. -/
def isDefaultName (imported : Node) : Bool :=
  match imported.kind with
  | .name n => n == "default"
  | .str _ value => value == some "default"
  | _ => false

/-- The local name that a specifier gives to the default export, and whether it
is for types only. -/
def defaultSpecifier? (specifier : Node) : Option (Node × Bool) :=
  match specifier with
  | .node .importDefault _ [here] => some (here, false)
  | .node (.importNamed typeOnly) _ [here, imported] =>
    if isDefaultName imported then some (here, typeOnly) else none
  | _ => none

/-- The local name of the helper in an import of its module, or what is wrong
with the import. -/
def checkImport (typeOnly : Bool) (span : Option Span) :
    List Node → Except Rejection Node
  | [] => .error (.binding .noValue span)
  | [specifier] =>
    match defaultSpecifier? specifier with
    | some (here, specifierTypeOnly) =>
      if typeOnly || specifierTypeOnly then .error (.binding .notValue span)
        else .ok here
    | none => .error (.binding .notDefault specifier.span)
  | _ :: second :: _ => .error (.binding .notSingle second.span)

/-- Whether a start value is `require('moduleName', …)`. -/
def isHelperRequire (moduleName : String) (start : Node) : Bool :=
  match start with
  | .node .call _ (callee :: .node .list _ (argument :: _) :: _) =>
    callee.kind == .ident "require" &&
      match argument.kind with
      | .str _ value => value == some moduleName
      | _ => false
  | _ => false

end NullGuard.Scope
