import NullGuard.Proofs.Outlines

/-!
# Visits: what is done at the nodes of a program

An outline says what a program says about names, and the context that an
identifier stands in is an argument there. The same pass can be made with a
state: at each node it makes a few *moves*, and what holds for a part of the
program is set in front of the part and put back behind it. A move is a note, or
more moves within a setting: a scope, a mode for the names of patterns, a kind
of variables, or an export. The moves at a node do not depend on the state; what
a note comes to does.

`visit` lists the moves of a program, one case for each kind of node that has
its own, and `outline_visit` says that they come to the outline of the program.
What the moves do to a state is the subject of the next modules.
-/

namespace NullGuard.Scope

open NullGuard.Text (Span)
open NullGuard.Tree
open NullGuard.Transform (Rejection)

/-- What is set while a part of a program is visited, and put back behind it. -/
inductive Setting where
  /-- The part is a scope. In it, patterns neither declare nor assign, and
  nothing is exported. -/
  | scope (kind : ScopeKind)
  /-- What the names in patterns do. -/
  | patterns (mode : PatternMode)
  /-- The names in patterns declare what the variables of the current
  declaration are. -/
  | variablePattern
  /-- What the variables of a declaration are. -/
  | vars (kind : BindingKind)
  /-- The part is exported. -/
  | exported
deriving DecidableEq, Repr

/-- What is noted at a place. -/
inductive Note where
  | declare (name : String) (span : Option Span) (kind : BindingKind)
  /-- A declaration that is the helper. -/
  | helper (name : String) (span : Option Span) (kind : BindingKind)
      (origin : Origin)
  /-- A variable of the current declaration that is the helper, with the span of
  its declarator. -/
  | variableHelper (name : String) (span declarator : Option Span)
  /-- A name in a pattern. -/
  | patternName (name : String) (span : Option Span)
  | refer (name : String) (span : Option Span) (kind : ReferenceKind)
  | unrecognized (span : Option Span)
  | malformed (rejection : Rejection)

/-- What is done at a node. -/
inductive Move where
  | note (n : Note)
  | within (s : Setting) (inside : List Move)

/-- The context within a setting. -/
def Setting.context : Setting → Context → Context
  | scope _, c => c.inScope
  | patterns mode, c => { c with mode }
  | variablePattern, c => c.declaring c.varKind
  | vars kind, c => { c with varKind := kind }
  | exported, c => { c with isExported := true }

/-- What is said within a setting, seen from the outside. -/
def Setting.around : Setting → List Outline → List Outline
  | scope kind, os => [.scope kind os]
  | _, os => os

/-- What a note says in a context. -/
def Note.outline (c : Context) : Note → List Outline
  | declare name span kind => [.declaration name span kind]
  | helper name span kind origin => [.helper name span kind origin]
  | variableHelper name span declarator =>
    [.helper name span c.varKind (.required declarator c.isExported)]
  | patternName name span =>
    match c.mode with
    | .declare kind => [.declaration name span kind]
    | .write => [.reference name span .write]
    | .read => []
  | refer name span kind => [.reference name span kind]
  | unrecognized span => [.unrecognized span]
  | malformed rejection => [.malformed rejection]

mutual

/-- What a move says in a context. -/
def Move.outline (c : Context) : Move → List Outline
  | .note n => n.outline c
  | .within s inside => s.around (outlineAmong (s.context c) inside)

/-- What several moves say in a context. -/
def outlineAmong (c : Context) : List Move → List Outline
  | [] => []
  | move :: moves => move.outline c ++ outlineAmong c moves

end

/-- **Induction over several moves**, where a setting comes with the hypothesis
for its inside. -/
theorem moves_induct {P : List Move → Prop} (nil : P [])
    (note : ∀ n moves, P moves → P (.note n :: moves))
    (within : ∀ s inside moves, P inside → P moves →
      P (.within s inside :: moves)) (moves : List Move) : P moves :=
  Move.rec_1 (motive_1 := fun move => ∀ moves, P moves → P (move :: moves))
    (motive_2 := P) (fun n moves h => note n moves h) (fun s inside ih moves
    h => within s inside moves ih h) nil (fun _ moves ih h => ih moves h) moves

attribute [simp] Setting.context Setting.around Note.outline Move.outline
  outlineAmong

@[simp] theorem outlineAmong_append (c : Context) (moves more : List Move) :
    outlineAmong c (moves ++ more) = outlineAmong c moves ++
      outlineAmong c more := by
  induction moves with
  | nil => rfl
  | cons move moves ih =>
    simp only [List.cons_append, outlineAmong, ih, List.append_assoc]

/-- A node with its moves, and its parts. -/
inductive Visited where
  | mk (node : Node) (moves : List Move) (parts : List Visited)

namespace Visited

/-- The node. -/
def node : Visited → Node
  | mk n _ _ => n

/-- The moves of the node. -/
def moves : Visited → List Move
  | mk _ ms _ => ms

/-- The children of the node. -/
def parts : Visited → List Visited
  | mk _ _ vs => vs

/-- A part that is not there. -/
def none : Visited :=
  mk .none [] []

end Visited

/-- The part at a position. -/
def visited (vs : List Visited) (i : Nat) : Visited :=
  vs.getD i .none

/-- The moves of several parts, one after the other. -/
def allMoves (vs : List Visited) : List Move :=
  vs.flatMap Visited.moves

/-- The declaration of an identifier. -/
def declareMoves (n : Node) (kind : BindingKind) : List Move :=
  match identifier? n.kind with
  | some name => [.note (.declare name n.span kind)]
  | none => []

/-- The use of an identifier. -/
def referMoves (n : Node) (kind : ReferenceKind) : List Move :=
  match identifier? n.kind with
  | some name => [.note (.refer name n.span kind)]
  | none => []

/-- The use of the first name of a dotted name. -/
def rootMoves (n : Node) : List Move :=
  match entityRoot n with
  | some root => referMoves root .read
  | none => []

/-- The statements of a block that is a body and no scope. -/
def bodyMoves (v : Visited) : List Move :=
  match v.node.kind with
  | .block => allMoves v.parts
  | _ => v.moves

/-- A function: decorators, parameters and body in one scope. -/
def functionMoves (decorators parameters body : Visited) : List Move :=
  [.within (.scope .function) (allMoves decorators.parts ++ .within (.patterns
    (.declare .param)) (allMoves parameters.parts) :: bodyMoves body)]

/-- A function or class expression, with a scope around it for its own name. -/
def ownScopeMoves (name : Visited) (scope : ScopeKind) (kind : BindingKind)
    (rest : Visited) : List Move :=
  if name.node.isNone then rest.moves
  else [.within (.scope scope) (declareMoves name.node kind ++ rest.moves)]

/-- An import. -/
def importMoves (moduleName : String) (typeOnly : Bool) (s : Option Span)
    (specifiers source : Node) : List Move :=
  let all := specifiers.children.flatMap fun specifier =>
    match specifier.children with
    | here :: _ => declareMoves here .imported
    | [] => []
  if namesModule moduleName source then
    match checkImport typeOnly s specifiers.children with
    | .ok here =>
      match identifier? here.kind with
      | some name => [.note (.helper name here.span .imported (.imported s))]
      | none => []
    | .error e => .note (.malformed e) :: all
  else all

/-- A declarator. -/
def declaratorMoves (moduleName : String) (s : Option Span)
    (pattern value : Visited) : List Move :=
  let plain := .within .variablePattern pattern.moves :: value.moves
  if isHelperRequire moduleName value.node then
    match pattern.node.kind with
    | .bindingIdent name _ =>
      .note (.variableHelper name pattern.node.span s) :: value.moves
    | _ => .note (.unrecognized s) :: plain
  else plain

/-- The names that an export makes visible. -/
def exportMoves (specifiers source : Node) : List Move :=
  if source.isNone then
    specifiers.children.flatMap fun specifier =>
      match specifier.kind, specifier.children with
      | .exportSpecifier _, here :: _ => referMoves here .read
      | _, _ => []
  else []

/-- An assignment. -/
def assignMoves (target value : Visited) : List Move :=
  let left := match bareIdentifier? target.node with
    | some name => referMoves name .write
    | none =>
      match target.node.kind with
      | .arrayPat _ _ | .objectPat _ _ =>
        [.within (.patterns .write) target.moves]
      | _ => target.moves
  left ++ value.moves

/-- The head of a loop over a collection. -/
def headMoves (head : Visited) : List Move :=
  match head.node.kind with
  | .varDecl _ _ | .usingDecl _ => head.moves
  | _ => [.within (.patterns .write) head.moves]

/-- A name of an element. -/
def elementNameMoves (name : Visited) : List Move :=
  match name.node.kind with
  | .markup (.name n) =>
    match n.toList with
    | first :: _ =>
      if 'a' ≤ first ∧ first ≤ 'z' then [] else referMoves name.node .read
    | [] => referMoves name.node .read
  | _ => name.moves

/-- The moves at a node, from those at its parts. -/
def movesOf (moduleName : String) (k : Kind) (s : Option Span)
    (vs : List Visited) : List Move :=
  let v := visited vs
  match k with
  | .importDecl typeOnly =>
    importMoves moduleName typeOnly s (v 0).node (v 1).node
  | .varDecl .var _ => [.within (.vars .var) (allMoves vs)]
  | .varDecl _ _ | .usingDecl _ => [.within (.vars .lexical) (allMoves vs)]
  | .declarator _ => declaratorMoves moduleName s (v 0) (v 1)
  | .exportDecl => [.within .exported (allMoves vs)]
  | .exportDefaultDecl =>
    match (v 0).node.kind with
    | .fnExpr =>
      declareMoves (visited (v 0).parts 0).node .function ++
        (visited (v 0).parts 1).moves
    | .classExpr =>
      declareMoves (visited (v 0).parts 0).node .class ++
        (visited (v 0).parts 1).moves
    | _ => allMoves vs
  | .exportNamed _ _ => exportMoves (v 0).node (v 1).node
  | .fnDecl _ => declareMoves (v 0).node .function ++ (v 1).moves
  | .classDecl _ => declareMoves (v 0).node .class ++ (v 1).moves
  | .fnExpr => ownScopeMoves (v 0) .namedFunction .function (v 1)
  | .classExpr => ownScopeMoves (v 0) .class .class (v 1)
  | .enumDecl _ _ => declareMoves (v 0).node .lexical ++ (v 1).moves
  | .moduleDecl _ _ =>
    declareMoves (v 0).node .lexical ++ [.within (.scope .block) (v 1).moves]
  | .importEquals _ _ =>
    declareMoves (v 0).node .lexical ++ rootMoves (v 1).node
  | .bindingIdent name _ => [.note (.patternName name s)]
  | .function _ _ => functionMoves (v 1) (v 0) (v 2)
  | .arrow _ => functionMoves .none (v 0) (v 1)
  | .constructor _ => (v 0).moves ++ functionMoves .none (v 1) (v 2)
  | .getterProp => (v 0).moves ++ functionMoves .none .none (v 2)
  | .setterProp =>
    (v 0).moves ++ [.within (.scope .function)
      (.within (.patterns (.declare .param)) (v 1).moves ::
      .within (.patterns (.declare .param)) (v 2).moves :: bodyMoves (v 3))]
  | .staticBlock => [.within (.scope .staticBlock) (bodyMoves (v 0))]
  | .block => [.within (.scope .block) (allMoves vs)]
  | .catchClause =>
    [.within (.scope .catch)
      (.within (.patterns (.declare .lexical)) (v 0).moves :: bodyMoves (v 1))]
  | .forStmt => [.within (.scope .block) (allMoves vs)]
  | .forIn | .forOf _ =>
    [.within (.scope .block) (headMoves (v 0) ++ allMoves (vs.drop 1))]
  | .switchStmt => (v 0).moves ++ [.within (.scope .block) (v 1).moves]
  | .ident name => [.note (.refer name s .read)]
  | .call =>
    match bareIdentifier? (v 0).node with
    | some name => referMoves name .callee ++ (v 1).moves
    | none => allMoves vs
  | .assign _ => assignMoves (v 0) (v 1)
  | .update _ _ =>
    match bareIdentifier? (v 0).node with
    | some name => referMoves name .write
    | none => allMoves vs
  | .shorthand name => [.note (.refer name s .read)]
  | .markup (.opening _) => elementNameMoves (v 0) ++ allMoves (vs.drop 1)
  | .markup .closing => elementNameMoves (v 0)
  | .markup (.name name) => [.note (.refer name s .read)]
  | .type .query => rootMoves (v 0).node
  | _ => allMoves vs

mutual

/-- A node with its moves. -/
def toVisited (moduleName : String) : Node → Visited
  | .node k s ns =>
    let vs := toVisiteds moduleName ns
    .mk (.node k s ns) (movesOf moduleName k s vs) vs

/-- Several nodes with their moves. -/
def toVisiteds (moduleName : String) : List Node → List Visited
  | [] => []
  | n :: ns => toVisited moduleName n :: toVisiteds moduleName ns

end

/-- **The moves of a program**, where `moduleName` is the helper's module. -/
def visit (moduleName : String) (n : Node) : List Move :=
  (toVisited moduleName n).moves

mutual

/-- A node with what its moves say. -/
def Visited.toPart : Visited → Part
  | .mk n moves vs =>
    .mk n (fun c => outlineAmong c moves) (Visited.toPartsAll vs)

/-- Several nodes with what their moves say. -/
def Visited.toPartsAll : List Visited → List Part
  | [] => []
  | v :: vs => v.toPart :: Visited.toPartsAll vs

end

section Step

variable (m : String) (s : Option Span) (c : Context)

theorem toPartsAll_eq_map (vs : List Visited) :
    Visited.toPartsAll vs = vs.map Visited.toPart := by
  induction vs with
  | nil => rfl
  | cons v vs ih => rw [Visited.toPartsAll, ih, List.map_cons]

@[simp] theorem node_toPart_visited (v : Visited) : v.toPart.node = v.node := by
  cases v
  rfl

@[simp] theorem outline_toPart_visited (v : Visited) :
    v.toPart.outline c = outlineAmong c v.moves := by
  cases v
  rfl

@[simp] theorem parts_toPart_visited (v : Visited) :
    v.toPart.parts = v.parts.map Visited.toPart := by
  cases v
  exact toPartsAll_eq_map _

@[simp] theorem toPart_none_visited : Visited.none.toPart = Part.none :=
  rfl

@[simp] theorem part_map_toPart (vs : List Visited) (i : Nat) :
    part (vs.map Visited.toPart) i = (visited vs i).toPart := by
  rw [part, visited, ← toPart_none_visited, List.getD_eq_getElem?_getD,
    List.getElem?_map, Option.getD_map, List.getD_eq_getElem?_getD]

@[simp] theorem outlines_map_toPart (vs : List Visited) :
    outlines (vs.map Visited.toPart) c = outlineAmong c (allMoves vs) := by
  induction vs with
  | nil => rfl
  | cons v vs ih =>
    rw [allMoves, List.flatMap_cons, outlineAmong_append]
    rw [outlines, List.map_cons, List.flatMap_cons, outline_toPart_visited]
    exact congrArg (outlineAmong c v.moves ++ ·) ih

@[simp] theorem outlineAmong_declareMoves (n : Node) (kind : BindingKind) :
    outlineAmong c (declareMoves n kind) = declare n kind := by
  unfold declareMoves declare
  cases identifier? n.kind <;> rfl

@[simp] theorem outlineAmong_referMoves (n : Node) (kind : ReferenceKind) :
    outlineAmong c (referMoves n kind) = refer n kind := by
  unfold referMoves refer
  cases identifier? n.kind <;> rfl

@[simp] theorem outlineAmong_rootMoves (n : Node) :
    outlineAmong c (rootMoves n) = referRoot n := by
  unfold rootMoves referRoot
  cases entityRoot n with
  | none => rfl
  | some root => exact outlineAmong_referMoves c root .read

@[simp] theorem outlineAmong_bodyMoves (v : Visited) :
    outlineAmong c (bodyMoves v) = bodyOutline v.toPart c := by
  unfold bodyMoves bodyOutline
  rw [node_toPart_visited]
  split <;> simp [*]

/-- What several pieces say that make their moves independently. -/
theorem outlineAmong_flatMap {α : Type} (l : List α) {f : α → List Move}
    {g : α → List Outline} (each : ∀ a, outlineAmong c (f a) = g a) :
    outlineAmong c (l.flatMap f) = l.flatMap g := by
  induction l with
  | nil => rfl
  | cons a l ih =>
    rw [List.flatMap_cons, List.flatMap_cons, outlineAmong_append, each, ih]

@[simp] theorem outlineAmong_functionMoves
    (decorators parameters body : Visited) :
    outlineAmong c (functionMoves decorators parameters body) =
      functionOutline decorators.toPart parameters.toPart body.toPart c := by
  simp [functionMoves, functionOutline, Context.declaring]

theorem outlineAmong_ownScopeMoves (name : Visited) (scope : ScopeKind)
    (kind : BindingKind) (rest : Visited) :
    outlineAmong c (ownScopeMoves name scope kind rest) =
      ownScope name.toPart scope kind rest.toPart c := by
  unfold ownScopeMoves ownScope
  rw [node_toPart_visited]
  split <;> simp

theorem outlineAmong_importMoves (typeOnly : Bool) (specifiers source : Node) :
    outlineAmong c (importMoves m typeOnly s specifiers source) =
      importOutline m typeOnly s specifiers source := by
  have all : outlineAmong c (specifiers.children.flatMap fun specifier =>
      match specifier.children with
      | here :: _ => declareMoves here .imported
      | [] => []) = specifiers.children.flatMap fun specifier =>
      match specifier.children with
      | here :: _ => declare here .imported
      | [] => [] := by
    apply outlineAmong_flatMap
    intro specifier
    cases specifier.children with
    | nil => rfl
    | cons here _ => exact outlineAmong_declareMoves c here .imported
  unfold importMoves importOutline
  dsimp only
  by_cases names : namesModule m source = true
  · rw [if_pos names, if_pos names]
    cases checkImport typeOnly s specifiers.children with
    | ok here =>
      dsimp only
      cases identifier? here.kind <;> rfl
    | error e => exact congrArg (Outline.malformed e :: ·) all
  · rw [if_neg names, if_neg names]
    exact all

theorem outlineAmong_declaratorMoves (pattern value : Visited) :
    outlineAmong c (declaratorMoves m s pattern value) =
      declaratorOutline m s pattern.toPart value.toPart c := by
  unfold declaratorMoves declaratorOutline
  simp only [node_toPart_visited]
  by_cases requires : isHelperRequire m value.node = true
  · rw [if_pos requires, if_pos requires]
    split <;> simp [*]
  · rw [if_neg requires, if_neg requires]
    simp

theorem outlineAmong_exportMoves (specifiers source : Node) :
    outlineAmong c (exportMoves specifiers source) =
      exportOutline specifiers source := by
  unfold exportMoves exportOutline
  by_cases own : source.isNone = true
  · rw [if_pos own, if_pos own]
    apply outlineAmong_flatMap
    intro specifier
    split <;> simp [*]
  · rw [if_neg own, if_neg own]
    rfl

theorem outlineAmong_assignMoves (target value : Visited) :
    outlineAmong c (assignMoves target value) =
      assignOutline target.toPart value.toPart c := by
  unfold assignMoves assignOutline
  simp only [node_toPart_visited, outlineAmong_append, outline_toPart_visited]
  congr 1
  cases bareIdentifier? target.node with
  | some name => exact outlineAmong_referMoves c name .write
  | none =>
    dsimp only
    split <;> simp [*, Context.writing]

@[simp] theorem outlineAmong_headMoves (head : Visited) :
    outlineAmong c (headMoves head) = headOutline head.toPart c := by
  unfold headMoves headOutline
  rw [node_toPart_visited]
  split <;> simp [*, Context.writing]

@[simp] theorem outlineAmong_elementNameMoves (name : Visited) :
    outlineAmong c (elementNameMoves name) =
      elementNameOutline name.toPart c := by
  unfold elementNameMoves elementNameOutline
  simp only [node_toPart_visited, outline_toPart_visited]
  split
  · next n _ =>
    cases letters : n.toList with
    | nil =>
      simp only [*]
      exact outlineAmong_referMoves c name.node .read
    | cons first _ =>
      simp only [*]
      by_cases small : 'a' ≤ first ∧ first ≤ 'z'
      · rw [if_pos small, if_pos small]
        rfl
      · rw [if_neg small, if_neg small]
        exact outlineAmong_referMoves c name.node .read
  · simp

/-- **The moves at a node come to its outline** where the moves at its parts
come to theirs. -/
theorem outlineAmong_movesOf (k : Kind) (vs : List Visited) :
    outlineAmong c (movesOf m k s vs) =
      outlineOf m k s (vs.map Visited.toPart) c := by
  cases k
  case importDecl typeOnly =>
    simp [movesOf, outlineOf, outlineAmong_importMoves]
  case varDecl word isDeclared => cases word <;> simp [movesOf, outlineOf]
  case declarator => simp [movesOf, outlineOf, outlineAmong_declaratorMoves]
  case exportDefaultDecl =>
    simp only [movesOf, outlineOf, part_map_toPart, node_toPart_visited]
    split <;> simp [*]
  case exportNamed => simp [movesOf, outlineOf, outlineAmong_exportMoves]
  case fnExpr | classExpr =>
    simp [movesOf, outlineOf, outlineAmong_ownScopeMoves]
  case bindingIdent name isOptional =>
    cases mode : c.mode <;> simp [movesOf, outlineOf, mode]
  case setterProp | catchClause => simp [movesOf, outlineOf, Context.declaring]
  case forIn | forOf => simp [movesOf, outlineOf, ← List.map_tail]
  case call | update =>
    simp only [movesOf, outlineOf, part_map_toPart, node_toPart_visited]
    cases bareIdentifier? (visited vs 0).node <;> simp
  case assign => simp [movesOf, outlineOf, outlineAmong_assignMoves]
  case markup form => cases form <;> simp [movesOf, outlineOf, ← List.map_tail]
  case type form => cases form <;> simp [movesOf, outlineOf]
  all_goals simp [movesOf, outlineOf]

end Step

mutual

/-- A node with what its moves say is a part. -/
theorem toPart_toVisited (m : String) :
    ∀ n : Node, (toVisited m n).toPart = toPart m n
  | .node k s ns => by
    have parts := toPartsAll_toVisiteds m ns
    rw [toVisited, toPart, Visited.toPart, parts]
    congr 1
    funext c
    rw [outlineAmong_movesOf, ← toPartsAll_eq_map, parts]

theorem toPartsAll_toVisiteds (m : String) :
    ∀ ns : List Node, Visited.toPartsAll (toVisiteds m ns) = toParts m ns
  | [] => rfl
  | n :: ns => by
      rw [toVisiteds, toParts, Visited.toPartsAll, toPart_toVisited m n,
        toPartsAll_toVisiteds m ns]

end

/-- **The moves of a program come to its outline.** -/
theorem outline_visit (m : String) (n : Node) :
    outlineAmong {} (visit m n) = outline m n := by
  rw [outline, ← toPart_toVisited, outline_toPart_visited, visit]

end NullGuard.Scope
