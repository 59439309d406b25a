import NullGuard.Scope.NameSupply

/-!
# Tables: numbered scopes and bindings

A table numbers what an outline lists. Scopes are numbered as they are entered
and bindings as they are first declared; a further declaration of a name in the
same scope is noted on its binding. A `var` goes to the nearest scope that holds
such variables, an import to the program, and anything else to the scope that it
stands in.

A reference is resolved in the finished table, so a declaration counts wherever
in its scope it stands.
-/

namespace NullGuard.Scope

open NullGuard.Text (Span)
open NullGuard.Tree
open NullGuard.Transform (Rejection)

/-- A scope, and the numbers of the scopes around it, innermost first. -/
structure ScopeEntry where
  kind : ScopeKind
  outer : List Nat
deriving DecidableEq, Repr, Inhabited

/-- A declared name. -/
structure Binding where
  name : String
  kind : BindingKind
  /-- The scope that the name is declared in. -/
  scope : Nat
  /-- Where it is declared first. -/
  span : Option Span
  /-- Where it is declared again. -/
  redeclarations : List (Option Span)
deriving DecidableEq, Repr, Inhabited

/-- A use of a name. -/
structure Reference where
  name : String
  span : Option Span
  kind : ReferenceKind
  scope : Nat
deriving DecidableEq, Repr, Inhabited

/-- The declaration of a helper. -/
structure HelperDeclaration where
  binding : Nat
  origin : Origin
deriving DecidableEq, Repr

/-- The scopes, bindings and references of a program. -/
structure Table where
  scopes : List ScopeEntry := [⟨.program, []⟩]
  bindings : List Binding := []
  references : List Reference := []
  helpers : List HelperDeclaration := []
  unrecognized : List (Option Span) := []
deriving DecidableEq, Repr

namespace Table

/-- The kind of a scope. -/
def scopeKind (t : Table) (scope : Nat) : ScopeKind :=
  (t.scopes.getD scope default).kind

/-- A scope and the scopes around it, innermost first. -/
def path (t : Table) (scope : Nat) : List Nat :=
  scope :: (t.scopes.getD scope default).outer

/-- The binding of a name in one scope. -/
def bindingIn? (t : Table) (name : String) (scope : Nat) : Option Nat :=
  t.bindings.findIdx? fun b => b.scope == scope && b.name == name

/-- The binding that a name means in a scope: the innermost one. -/
def resolve (t : Table) (scope : Nat) (name : String) : Option Nat :=
  (t.path scope).findSome? (t.bindingIn? name)

/-- The scope that a declaration falls into, of those it stands in. -/
def targetScope (t : Table) (here : List Nat) : BindingKind → Nat
  | .imported => 0
  | .var => (here.find? fun scope => (t.scopeKind scope).holdsVars).getD 0
  | _ => here.headD 0

/-- Notes a declaration, and gives the number of its binding. -/
def declare (t : Table) (here : List Nat) (name : String) (span : Option Span)
    (kind : BindingKind) : Nat × Table :=
  let scope := t.targetScope here kind
  match t.bindingIn? name scope with
  | some id =>
    (id, { t with
      bindings := t.bindings.modify id fun b =>
        { b with redeclarations := b.redeclarations ++ [span] } })
  | none =>
    (t.bindings.length,
      { t with bindings := t.bindings ++ [⟨name, kind, scope, span, []⟩] })

mutual

/-- Adds what an outline says, where `here` are the scopes that it stands in. -/
def add (t : Table) (here : List Nat) : Outline → Table
  | .scope kind inside =>
    addAll { t with scopes := t.scopes ++ [⟨kind, here⟩] }
      (t.scopes.length :: here) inside
  | .declaration name span kind => (t.declare here name span kind).2
  | .helper name span kind origin =>
    let (id, t) := t.declare here name span kind
    { t with helpers := t.helpers ++ [⟨id, origin⟩] }
  | .reference name span kind =>
    { t with references := t.references ++ [⟨name, span, kind, here.headD 0⟩] }
  | .unrecognized span => { t with unrecognized := t.unrecognized ++ [span] }
  | .malformed _ => t

/-- Adds what several outlines say. -/
def addAll (t : Table) (here : List Nat) : List Outline → Table
  | [] => t
  | o :: os => addAll (add t here o) here os

end

/-- The table of a program's outline. -/
def ofOutline (os : List Outline) : Table :=
  ({} : Table).addAll [0] os

/-- The references that a binding has, in visiting order. -/
def referencesTo (t : Table) (binding : Nat) : List Reference :=
  t.references.filter fun r => t.resolve r.scope r.name == some binding

end Table

mutual

/-- The first malformed import in an outline. -/
def malformed? : Outline → Option Rejection
  | .malformed rejection => some rejection
  | .scope _ inside => malformedAmong? inside
  | _ => none

/-- The first malformed import in several outlines. -/
def malformedAmong? : List Outline → Option Rejection
  | [] => none
  | o :: os => (malformed? o).or (malformedAmong? os)

end

/-- What is known about the names of a program. -/
structure Analysis where
  table : Table
  /-- The identifiers that new names must avoid. -/
  names : NameSupply

/-- Analyses a program, where `moduleName` is the helper's module. A
malformed import of that module makes the analysis fail. -/
def analyze (moduleName : String) (program : Node) :
    Except Rejection Analysis :=
  let os := outline moduleName program
  match malformedAmong? os with
  | some rejection => .error rejection
  | none => .ok ⟨Table.ofOutline os, ⟨(identifiers program).eraseDups⟩⟩

end NullGuard.Scope
