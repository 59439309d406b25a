import NullGuard.Scope.Recognition

/-!
# Outlines: what a program says about names

The outline of a program keeps its scopes, what is declared and referred to in
each, and nothing else. It is a tree, so that every scope that is entered is
left again, and it is in visiting order, so that numbering scopes and
declarations is a walk over it.

What an identifier stands for depends on where it stands. A pattern declares
names, assigns to them, or does neither; `Context` carries which, from the
outside in. As it is an argument and not a state, nothing that happens inside a
part can change how the next part is read.

Most kinds of nodes say nothing themselves, and their outline is that of their
parts.
-/

namespace NullGuard.Scope

open NullGuard.Text (Span)
open NullGuard.Tree
open NullGuard.Transform (Rejection)

/-- What a scope belongs to. -/
inductive ScopeKind where
  | program
  | function
  | block
  | «catch»
  /-- Holds a class expression's own name. -/
  | «class»
  /-- Holds a function expression's own name. -/
  | namedFunction
  | staticBlock
deriving DecidableEq, Repr, Inhabited

/-- Whether `var` declarations stop at a scope. -/
def ScopeKind.holdsVars : ScopeKind → Bool
  | program | function | staticBlock => true
  | _ => false

/-- How a name is declared. -/
inductive BindingKind where
  | var
  | lexical
  | param
  | function
  | «class»
  | imported
deriving DecidableEq, Repr, Inhabited

/-- How a name is used. -/
inductive ReferenceKind where
  /-- As what is called, parentheses aside. -/
  | callee
  /-- In any other way that reads it. -/
  | read
  /-- As the target of an assignment. -/
  | write
deriving DecidableEq, Repr, Inhabited

/-- Where a helper comes from. -/
inductive Origin where
  /-- An import, with the span of the declaration. -/
  | imported (span : Option Span)
  /-- A variable, with the span of the declarator, and whether it is exported
  where it is declared. -/
  | required (span : Option Span) (isExported : Bool)
deriving DecidableEq, Repr

/-- What a piece of a program says about names. -/
inductive Outline where
  | scope (kind : ScopeKind) (inside : List Outline)
  | declaration (name : String) (span : Option Span) (kind : BindingKind)
  /-- A declaration that is the helper. -/
  | helper (name : String) (span : Option Span) (kind : BindingKind)
      (origin : Origin)
  | reference (name : String) (span : Option Span) (kind : ReferenceKind)
  /-- A variable that requires the helper's module in another form than the
  recognised one. -/
  | unrecognized (span : Option Span)
  /-- An import of the helper's module that makes no sense. -/
  | malformed (rejection : Rejection)

/-- What a name in a pattern does. -/
inductive PatternMode where
  | read
  | declare (kind : BindingKind)
  | write
deriving DecidableEq, Repr

/-- What an identifier's meaning depends on, besides its place in the tree. -/
structure Context where
  mode : PatternMode := .read
  /-- What the declarators of the current variable declaration declare. -/
  varKind : BindingKind := .var
  /-- Whether the declaration is exported. -/
  isExported : Bool := false
deriving DecidableEq, Repr

namespace Context

/-- Inside a scope, patterns neither declare nor assign until something says
so. -/
def inScope (c : Context) : Context :=
  { c with mode := .read, isExported := false }

/-- Where patterns declare names. -/
def declaring (c : Context) (kind : BindingKind) : Context :=
  { c with mode := .declare kind }

/-- Where patterns assign to names. -/
def writing (c : Context) : Context :=
  { c with mode := .write }

end Context

/-- The identifier that a node itself is, names of properties aside. -/
def identifier? (k : Kind) : Option String :=
  match k with
  | .ident n | .name n | .bindingIdent n _ | .shorthand n | .shorthandInit n
  | .markup (.name n) => some n
  | _ => none

/-- The declaration of an identifier. -/
def declare (n : Node) (kind : BindingKind) : List Outline :=
  match identifier? n.kind with
  | some name => [.declaration name n.span kind]
  | none => []

/-- The use of an identifier. -/
def refer (n : Node) (kind : ReferenceKind) : List Outline :=
  match identifier? n.kind with
  | some name => [.reference name n.span kind]
  | none => []

/-- The identifier that an expression is, parentheses aside. -/
def bareIdentifier? (n : Node) : Option Node :=
  match n.stripParens.kind with
  | .ident _ => some n.stripParens
  | _ => none

/-- The first name of a dotted name. -/
def entityRoot : Node → Option Node
  | .node (.type .qualified) _ (left :: _) => entityRoot left
  | .node (.name n) s ns => some (.node (.name n) s ns)
  | _ => none

/-- The use of the first name of a dotted name. -/
def referRoot (n : Node) : List Outline :=
  match entityRoot n with
  | some root => refer root .read
  | none => []

/-- A node with its outline in each context, and its parts. -/
inductive Part where
  | mk (node : Node) (outline : Context → List Outline) (parts : List Part)

namespace Part

/-- The node. -/
def node : Part → Node
  | mk n _ _ => n

/-- What the node says about names. -/
def outline : Part → Context → List Outline
  | mk _ o _ => o

/-- The children of the node. -/
def parts : Part → List Part
  | mk _ _ ps => ps

/-- A part that is not there. -/
def none : Part :=
  mk .none (fun _ => []) []

end Part

/-- The part at a position. -/
def part (ps : List Part) (i : Nat) : Part :=
  ps.getD i .none

/-- What several parts say, one after the other. -/
def outlines (ps : List Part) (c : Context) : List Outline :=
  ps.flatMap fun p => p.outline c

/-- What the statements of a block say where the block is a body and opens no
scope of its own. -/
def bodyOutline (p : Part) (c : Context) : List Outline :=
  match p.node.kind with
  | .block => outlines p.parts c
  | _ => p.outline c

/-- A function: decorators, parameters and body in one scope. The types around
them are not looked at. -/
def functionOutline (decorators parameters body : Part) (c : Context) :
    List Outline :=
  [.scope .function (outlines decorators.parts c.inScope ++
    (outlines parameters.parts (c.inScope.declaring .param) ++
    bodyOutline body c.inScope))]

/-- A function or class expression: its own name, if it has one, gets a scope
around it. -/
def ownScope (name : Part) (scope : ScopeKind) (kind : BindingKind)
    (rest : Part) (c : Context) : List Outline :=
  if name.node.isNone then rest.outline c
  else [.scope scope (declare name.node kind ++ rest.outline c.inScope)]

/-- An import. A malformed import of the helper's module still declares its
names. -/
def importOutline (moduleName : String) (typeOnly : Bool) (s : Option Span)
    (specifiers source : Node) : List Outline :=
  let all := specifiers.children.flatMap fun specifier =>
    match specifier.children with
    | here :: _ => declare here .imported
    | [] => []
  if namesModule moduleName source then
    match checkImport typeOnly s specifiers.children with
    | .ok here =>
      match identifier? here.kind with
      | some name => [.helper name here.span .imported (.imported s)]
      | none => []
    | .error e => .malformed e :: all
  else all

/-- A declarator: the helper if it requires the helper's module and its pattern
is a name. -/
def declaratorOutline (moduleName : String) (s : Option Span)
    (pattern value : Part) (c : Context) : List Outline :=
  let plain := pattern.outline (c.declaring c.varKind) ++ value.outline c
  if isHelperRequire moduleName value.node then
    match pattern.node.kind with
    | .bindingIdent name _ =>
      .helper name pattern.node.span c.varKind (.required s c.isExported) ::
        value.outline c
    | _ => .unrecognized s :: plain
  else plain

/-- The names that `export { … }` makes visible. With a module to take them from
they are not names of this program. -/
def exportOutline (specifiers source : Node) : List Outline :=
  if source.isNone then
    specifiers.children.flatMap fun specifier =>
      match specifier.kind, specifier.children with
      | .exportSpecifier _, here :: _ => refer here .read
      | _, _ => []
  else []

/-- An assignment. -/
def assignOutline (target value : Part) (c : Context) : List Outline :=
  let left := match bareIdentifier? target.node with
    | some name => refer name .write
    | none =>
      match target.node.kind with
      | .arrayPat _ _ | .objectPat _ _ => target.outline c.writing
      | _ => target.outline c
  left ++ value.outline c

/-- The head of a loop over a collection: a declaration, or a pattern that is
assigned to. -/
def headOutline (head : Part) (c : Context) : List Outline :=
  match head.node.kind with
  | .varDecl _ _ | .usingDecl _ => head.outline c
  | _ => head.outline c.writing

/-- A name of an element. Names that begin with a small letter are no
identifiers. -/
def elementNameOutline (name : Part) (c : Context) : List Outline :=
  match name.node.kind with
  | .markup (.name n) =>
    match n.toList with
    | first :: _ =>
      if 'a' ≤ first ∧ first ≤ 'z' then [] else refer name.node .read
    | [] => refer name.node .read
  | _ => name.outline c

/-- What a node says about names, from what its parts say. -/
def outlineOf (moduleName : String) (k : Kind) (s : Option Span)
    (ps : List Part) (c : Context) : List Outline :=
  let p := part ps
  match k with
  | .importDecl typeOnly =>
    importOutline moduleName typeOnly s (p 0).node (p 1).node
  | .varDecl .var _ => outlines ps { c with varKind := .var }
  | .varDecl _ _ | .usingDecl _ => outlines ps { c with varKind := .lexical }
  | .declarator _ => declaratorOutline moduleName s (p 0) (p 1) c
  | .exportDecl => outlines ps { c with isExported := true }
  | .exportDefaultDecl =>
    match (p 0).node.kind with
    | .fnExpr =>
      declare (part (p 0).parts 0).node .function ++
        (part (p 0).parts 1).outline c
    | .classExpr =>
      declare (part (p 0).parts 0).node .class ++ (part (p 0).parts 1).outline c
    | _ => outlines ps c
  | .exportNamed _ _ => exportOutline (p 0).node (p 1).node
  | .fnDecl _ => declare (p 0).node .function ++ (p 1).outline c
  | .classDecl _ => declare (p 0).node .class ++ (p 1).outline c
  | .fnExpr => ownScope (p 0) .namedFunction .function (p 1) c
  | .classExpr => ownScope (p 0) .class .class (p 1) c
  | .enumDecl _ _ => declare (p 0).node .lexical ++ (p 1).outline c
  | .moduleDecl _ _ =>
    declare (p 0).node .lexical ++ [.scope .block ((p 1).outline c.inScope)]
  | .importEquals _ _ => declare (p 0).node .lexical ++ referRoot (p 1).node
  | .bindingIdent name _ =>
    match c.mode with
    | .declare kind => [.declaration name s kind]
    | .write => [.reference name s .write]
    | .read => []
  | .function _ _ => functionOutline (p 1) (p 0) (p 2) c
  | .arrow _ => functionOutline .none (p 0) (p 1) c
  | .constructor _ => (p 0).outline c ++ functionOutline .none (p 1) (p 2) c
  | .getterProp => (p 0).outline c ++ functionOutline .none .none (p 2) c
  | .setterProp =>
    (p 0).outline c ++ [.scope .function
      ((p 1).outline (c.inScope.declaring .param) ++ ((p 2).outline
      (c.inScope.declaring .param) ++ bodyOutline (p 3) c.inScope))]
  | .staticBlock => [.scope .staticBlock (bodyOutline (p 0) c.inScope)]
  | .block => [.scope .block (outlines ps c.inScope)]
  | .catchClause =>
    [.scope .catch ((p 0).outline (c.inScope.declaring .lexical) ++
      bodyOutline (p 1) c.inScope)]
  | .forStmt => [.scope .block (outlines ps c.inScope)]
  | .forIn | .forOf _ =>
    [.scope .block
      (headOutline (p 0) c.inScope ++ outlines (ps.drop 1) c.inScope)]
  | .switchStmt => (p 0).outline c ++ [.scope .block ((p 1).outline c.inScope)]
  | .ident name => [.reference name s .read]
  | .call =>
    match bareIdentifier? (p 0).node with
    | some name => refer name .callee ++ (p 1).outline c
    | none => outlines ps c
  | .assign _ => assignOutline (p 0) (p 1) c
  | .update _ _ =>
    match bareIdentifier? (p 0).node with
    | some name => refer name .write
    | none => outlines ps c
  | .shorthand name => [.reference name s .read]
  | .markup (.opening _) => elementNameOutline (p 0) c ++ outlines (ps.drop 1) c
  | .markup .closing => elementNameOutline (p 0) c
  | .markup (.name name) => [.reference name s .read]
  | .type .query => referRoot (p 0).node
  | _ => outlines ps c

mutual

/-- A node with what it says about names. -/
def toPart (moduleName : String) : Node → Part
  | .node k s ns =>
    let ps := toParts moduleName ns
    .mk (.node k s ns) (outlineOf moduleName k s ps) ps

/-- Several nodes with what they say about names. -/
def toParts (moduleName : String) : List Node → List Part
  | [] => []
  | n :: ns => toPart moduleName n :: toParts moduleName ns

end

/-- What a program says about names, where `moduleName` is the helper's
module. -/
def outline (moduleName : String) (n : Node) : List Outline :=
  (toPart moduleName n).outline {}

end NullGuard.Scope
