import NullGuard.Proofs.Outlines

/-!
# Plain scripts

In a program without types every node has its sort: it is an expression or a
part of one, a pattern, or something else, and most places only take one sort. A
program is *plain* if its nodes stand in such places (`isPlain`), as they do in
every program without types that was read.

Expressions are closed towards the program around them. What an expression says
does not depend on whether names are declared or assigned to where it stands
(`said_steady`), and no declaration comes out of it (`reaching_expression`).
-/

namespace NullGuard.Scope

open NullGuard.Text (Span)
open NullGuard.Tree

/-- Whether nodes of a kind are expressions or parts of expressions. -/
def isExpression : Kind → Bool
  | .absent | .ident _ | .name _ | .propName _ | .privateName _ | .str _ _
      | .num _ | .bigint _ | .bool _ | .null
  | .regex _ | .this | .super | .importWord | .array _ | .spread | .object _
      | .shorthand _ | .keyValue | .getterProp
  | .setterProp | .methodProp | .computed | .fnExpr | .classExpr | .function _ _
      | .arrow _ | .classBody _ | .unary _
  | .update _ _ | .binary _ | .assign _ | .member | .superMember | .cond | .call
      | .new | .seq | .yield _ | .await
  | .metaProp _ | .paren | .template _ | .tagged | .optMember _ | .optCall _
      | .constructor _ | .method _ _
  | .property _ | .accessorProperty _ | .staticBlock | .emptyMember | .decorator
      | .markup _ =>
    true
  | _ => false

/-- Whether nodes of a kind are patterns or parts of patterns. -/
def isPattern : Kind → Bool
  | .bindingIdent _ _ | .arrayPat _ _ | .objectPat _ _ | .restPat | .assignPat
      | .keyValuePat | .shorthandPat
  | .exprPat => true
  | _ => false

/-- Whether nodes of a kind are patterns that take something apart. -/
def isDestructuring : Kind → Bool
  | .arrayPat _ _ | .objectPat _ _ => true
  | _ => false

/-- Whether a node is a part of an expression or a sequence of such parts. -/
def isOperand (n : Node) : Bool :=
  isExpression n.kind || isSequence n &&
    n.children.all fun m => isExpression m.kind

/-- Whether a node can be assigned to, or be a part or a sequence of parts of
what can. -/
def isAssignable (n : Node) : Bool :=
  isExpression n.kind || isPattern n.kind || isSequence n &&
    n.children.all fun m => isExpression m.kind || isPattern m.kind

/-- Whether nodes of a kind are imports. -/
def isImport : Kind → Bool
  | .importDecl _ => true
  | _ => false

/-- Whether nodes of a kind are declarators. -/
def isDeclarator : Kind → Bool
  | .declarator _ => true
  | _ => false

/-- Whether nodes of a kind are specifiers, words in them, or sequences. -/
def isSpecifierPart : Kind → Bool
  | .list | .importDefault | .importNamed _ | .importNamespace
      | .exportSpecifier _ | .exportNamespace | .name _
  | .str _ _ | .absent => true
  | _ => false

/-- Whether a node has nothing but specifiers and words in it. -/
def isInert (n : Node) : Bool :=
  (subnodes n).all fun m => isSpecifierPart m.kind

/-- Whether a node is a missing part, with nothing in it. -/
def isMissing : Node → Bool
  | .node .absent _ [] => true
  | _ => false

/-- Whether the children of a node are of the sorts that its kind takes, and
there is no type. -/
def sortedAt (k : Kind) (ns : List Node) : Bool :=
  match k with
  | .importDecl _ | .exportNamed _ _ => (ns.take 2).all isInert
  | .exportDefaultDecl =>
    (child ns 0).kind == .fnExpr || (child ns 0).kind == .classExpr
  | .varDecl _ _ => ns.all fun n => isDeclarator n.kind
  | .declarator _ => isOperand (child ns 1)
  | .function _ _ | .staticBlock => true
  | .constructor _ | .getterProp | .setterProp => isOperand (child ns 0)
  | .arrow _ => (child ns 1).kind == .block || isExpression (child ns 1).kind
  | .assign _ =>
    (isExpression (child ns 0).kind || isDestructuring (child ns 0).kind) &&
      isExpression (child ns 1).kind
  | .call =>
    ns.all isOperand && isSequence (child ns 1) && (ns.drop 2).all isMissing
  | .update _ _ => ns.all isOperand && (ns.drop 1).all isMissing
  | .paren | .spread => ns.all fun n => isExpression n.kind
  | .type _ | .importEquals _ _ => false
  | k =>
    if isExpression k then ns.all isOperand else if isPattern k
      then ns.all isAssignable else true

/-- Whether moreover imports stand in the program only, and no call stands where
a name has to. -/
def plainAt (k : Kind) (ns : List Node) : Bool :=
  sortedAt k ns && (isProgram k || ns.all fun n => !isImport n.kind) &&
    (!(namesChild k || isTag k) || (child ns 0).kind != .call)

/-- Whether a program or a piece of one has no types, and every node of it
stands in a place of its sort. -/
def isPlain (n : Node) : Bool :=
  (subnodes n).all fun m => plainAt m.kind m.children

section Sorts

variable {m : String} {k : Kind} {s : Option Span} {n : Node} {ns : List Node}

theorem isPlain_node :
    isPlain (.node k s ns) = true ↔ plainAt k ns = true ∧ ∀ n ∈ ns,
      isPlain n = true :=
  all_subnodes_node (p := plainAt)

theorem isPlain_of_occurs {n n' : Node} (h : Occurs n n')
    (plain : isPlain n' = true) : isPlain n = true := by
  induction h with
  | here => exact plain
  | inside hc _ ih => exact ih ((isPlain_node.1 plain).2 _ hc)

theorem isOperand_of_isExpression (h : isExpression n.kind = true) :
    isOperand n = true := by
  rw [isOperand, h]
  rfl

theorem all_isOperand (all : (ns.all fun n => isExpression n.kind) = true) :
    ns.all isOperand = true :=
  List.all_eq_true.2 fun n hn => isOperand_of_isExpression
    (List.all_eq_true.1 all n hn)

theorem isOperand_child (all : ns.all isOperand = true) (i : Nat) :
    isOperand (child ns i) = true := by
  rcases child_mem_or ns i with mem | missing
  · exact List.all_eq_true.1 all _ mem
  · rw [missing]
    rfl

theorem isAssignable_of_isDestructuring (h : isDestructuring n.kind = true) :
    isAssignable n = true := by
  obtain ⟨k, s, ns⟩ := n
  cases k <;> first | rfl | cases h

/-- The context in which the target of an assignment is read. -/
def targetContext (target : Node) (c : Context) : Context :=
  if isDestructuring target.kind then c.writing else c

theorem assignOutline_eq (target value : Part) (c : Context) :
    assignOutline target value c =
      (match bareIdentifier? target.node with
        | some name => refer name .write
        | none =>
          target.outline (targetContext target.node c)) ++ value.outline c := by
  unfold assignOutline targetContext
  dsimp only
  congr 1
  cases bareIdentifier? target.node with
  | some name => rfl
  | none => cases target.node.kind <;> rfl

end Sorts

section Steady

variable {m : String} {k : Kind} {s : Option Span} {n : Node} {ns : List Node}
  {c c' : Context}

/-- In two contexts a node of its sort can be read alike: an operand anywhere, a
pattern if names do the same in it. -/
structure ReadAlike (c c' : Context) (n : Node) : Prop where
  varKind : c.varKind = c'.varKind
  sort : isOperand n = true ∨ isAssignable n = true ∧ c.mode = c'.mode

theorem inScope_eq (same : c.varKind = c'.varKind) :
    c.inScope = c'.inScope := by
  obtain ⟨mode, kind, isExported⟩ := c
  cases same
  rfl

theorem saidAmong_congr (same : ∀ n ∈ ns, said m c n = said m c' n) :
    saidAmong m c ns = saidAmong m c' ns := by
  rw [saidAmong, saidAmong]
  exact List.flatMap_congr same

/-- **An expression says the same wherever it stands**, and so does a pattern
where names do the same. -/
theorem said_steady (plain : isPlain n = true) (alike : ReadAlike c c' n) :
    said m c n = said m c' n := by
  induction n using Node.induct generalizing c c' with
  | step k s ns ih =>
    obtain ⟨here, below⟩ := isPlain_node.1 plain
    obtain ⟨same, sort⟩ := alike
    have inner := inScope_eq same
    have part (i : Nat) {c c' : Context} (alike : ReadAlike c c' (child ns i)) :
        said m c (child ns i) = said m c' (child ns i) := by
      rcases child_mem_or ns i with mem | missing
      · exact ih _ mem (below _ mem) alike
      · rw [missing]
        rfl
    have operand (i : Nat) (h : isOperand (child ns i) = true) :
        said m c (child ns i) = said m c' (child ns i) :=
      part i ⟨same, .inl h⟩
    have operands (all : ns.all isOperand = true) :
        saidAmong m c ns = saidAmong m c' ns :=
      saidAmong_congr fun n hn => ih n hn (below n hn)
        ⟨same, .inl (List.all_eq_true.1 all n hn)⟩
    have assignables (all : ns.all isAssignable = true)
        (mode : c.mode = c'.mode) : saidAmong m c ns = saidAmong m c' ns :=
      saidAmong_congr fun n hn => ih n hn (below n hn)
        ⟨same, .inr ⟨List.all_eq_true.1 all n hn, mode⟩⟩
    have mode (noOperand : isOperand (.node k s ns) = false) :
        c.mode = c'.mode := by
      rcases sort with isOperand | ⟨-, mode⟩
      · cases noOperand.symm.trans isOperand
      · exact mode
    have listed (isList : k = .list) : saidAmong m c ns = saidAmong m c' ns :=
      by
      subst isList
      refine saidAmong_congr fun n hn => ih n hn (below n hn) ⟨same, ?_⟩
      rcases sort with items | ⟨items, mode⟩
      · exact .inl (isOperand_of_isExpression (List.all_eq_true.1 items n hn))
      · have each : (isExpression n.kind || isPattern n.kind) = true :=
          List.all_eq_true.1 items n hn
        exact .inr ⟨by rw [isAssignable, each]; rfl, mode⟩
    rw [plainAt, Bool.and_eq_true, Bool.and_eq_true] at here
    obtain ⟨⟨own, -⟩, -⟩ := here
    rw [said_node, said_node]
    cases k
    case function | arrow => simp only [outlineOf, functionOutline, inner]
    case staticBlock => simp only [outlineOf, inner]
    case constructor | getterProp | setterProp =>
      simp only [outlineOf, part_toParts, functionOutline, outline_toPart,
        inner, operand 0 own]
    case fnExpr | classExpr =>
      simp only [outlineOf, part_toParts, ownScope, outline_toPart, inner,
        operand 1 (isOperand_child own 1)]
    case call =>
      have all : ns.all isOperand = true :=
        (Bool.and_eq_true_iff.1 (Bool.and_eq_true_iff.1 own).1).1
      simp only [outlineOf, part_toParts, outlines_toParts, node_toPart,
        outline_toPart, operands all, operand 1 (isOperand_child all 1)]
    case assign =>
      obtain ⟨target, value⟩ := Bool.and_eq_true_iff.1 own
      have assigned : said m (targetContext (child ns 0) c) (child ns 0) =
          said m (targetContext (child ns 0) c') (child ns 0) := by
        cases takesApart : isDestructuring (child ns 0).kind with
        | true =>
          refine part 0
            ⟨?_, .inr ⟨isAssignable_of_isDestructuring takesApart, ?_⟩⟩
          · rw [targetContext, targetContext, takesApart]
            exact same
          · rw [targetContext, targetContext, takesApart]
            rfl
        | false =>
          rw [takesApart, Bool.or_false] at target
          rw [targetContext, targetContext, takesApart]
          exact operand 0 (isOperand_of_isExpression target)
      simp only [outlineOf, part_toParts, assignOutline_eq, node_toPart,
        outline_toPart, assigned, operand 1 (isOperand_of_isExpression value)]
    case update =>
      have all : ns.all isOperand = true := (Bool.and_eq_true_iff.1 own).1
      simp only [outlineOf, part_toParts, outlines_toParts, node_toPart,
        operands all]
    case markup form =>
      have name := operand 0 (isOperand_child own 0)
      have behind : saidAmong m c (ns.drop 1) = saidAmong m c' (ns.drop 1) :=
        saidAmong_congr fun n hn => ih n (List.mem_of_mem_drop hn)
          (below n (List.mem_of_mem_drop hn))
          ⟨same, .inl (List.all_eq_true.1 own n (List.mem_of_mem_drop hn))⟩
      cases form
      case name => rfl
      case opening =>
        simp only [outlineOf, part_toParts, drop_toParts, outlines_toParts,
          elementNameOutline, node_toPart, outline_toPart, name, behind]
      case closing =>
        simp only [outlineOf, part_toParts, elementNameOutline, node_toPart,
          outline_toPart, name]
      all_goals
        simp only [outlineOf, outlines_toParts]
        exact operands own
    case bindingIdent => simp only [outlineOf, mode rfl]
    case arrayPat | objectPat | restPat | assignPat | keyValuePat | shorthandPat
      | exprPat =>
      simp only [outlineOf, outlines_toParts]
      exact assignables own (mode rfl)
    case list =>
      simp only [outlineOf, outlines_toParts]
      exact listed rfl
    case paren | spread =>
      simp only [outlineOf, outlines_toParts]
      exact operands (all_isOperand own)
    all_goals first
      | rfl
      | (simp only [outlineOf, outlines_toParts]; exact operands own)
      | (cases sort with
         | inl h => cases h
         | inr h => cases h.1)

end Steady

/-- Whether a reach lets out imports at most. -/
def Reach.OnlyImports (r : Reach) : Prop :=
  r.vars = false ∧ r.lexicals = false

/-- Where only imports are let out, no other declaration is. -/
theorem Reach.OnlyImports.admits {r : Reach} (h : r.OnlyImports)
    {k : BindingKind} (other : k ≠ .imported) : r.admits k = false := by
  cases k with
  | var => exact h.1
  | imported => exact absurd rfl other
  | _ => exact h.2

/-- No import comes out of outlines. -/
def Importless (os : List Outline) : Prop :=
  ∀ r : Reach, r.OnlyImports → reachingAll r os = []

theorem stable_importless : Stable (fun k => k ≠ .imported) Importless where
  usual _ other := other
  nil _ _ := rfl
  append h h' r only := by
    rw [reachingAll_append, h r only, h' r only, List.append_nil]
  scope k h r only := by
    rw [reachingAll, reachingAll, reaching, List.append_nil]
    exact h _ ⟨by rw [Reach.through, only.1, Bool.false_and], rfl⟩
  declaration x s _ other r only := by
    rw [reachingAll, reachingAll, reaching, only.admits other]
    rfl
  use _ _ _ _ _ _ := rfl

/-- Where names are not declared as imports. -/
abbrev Inside (c : Context) : Prop :=
  Allowing (fun k => k ≠ .imported) c

section Closed

variable {m : String} {k : Kind} {s : Option Span} {n : Node} {ns : List Node}
  {c : Context}

/-- A node that can stand inside of a program without types. -/
structure PlainInside (n : Node) : Prop where
  plain : isPlain n = true
  regular : regular n = true
  inner : isProgram n.kind = false
  noImport : isImport n.kind = false

theorem PlainInside.child (h : PlainInside (.node k s ns)) (hn : n ∈ ns) :
    PlainInside n := by
  obtain ⟨here, below⟩ := isPlain_node.1 h.plain
  obtain ⟨-, isRegular, outer⟩ := regular_node.1 h.regular
  refine ⟨below n hn, isRegular n hn, outer n hn, ?_⟩
  have inner : isProgram k = false := h.inner
  rw [plainAt, inner, Bool.false_or, Bool.and_eq_true, Bool.and_eq_true] at here
  exact Bool.not_eq_true' _ ▸ List.all_eq_true.1 here.1.2 n hn

/-- No declaration comes out of a use. -/
theorem reaching_refer (r : Reach) (n : Node) (kind : ReferenceKind) :
    reachingAll r (refer n kind) = [] := by
  unfold refer
  split <;> rfl

/-- Nothing inside of a program is imported. -/
theorem importless_said (h : PlainInside n) (hc : Inside c) :
    Importless (said m c n) := by
  have both : (∀ c, Inside c → Importless (said m c n)) ∧
      ∀ n' ∈ n.children, ∀ c, Inside c → Importless (said m c n') := by
    induction n using Node.induct generalizing c with
    | step k s ns ih =>
      have each n (hn : n ∈ ns) := ih n hn (h.child hn) hc
      have noImport (b : Bool) : k ≠ .importDecl b := by
        rintro rfl
        cases h.noImport
      refine ⟨fun c hc => said_stable stable_importless
        ⟨(regular_node.1 h.regular).1, fun n hn => (each n hn).1, fun n hn _ =>
        (each n hn).2, ?_, fun b isImport => absurd isImport (noImport b),
        fun b _ _ isImport => absurd isImport (noImport b), fun b _ isImport =>
        absurd isImport (noImport b), fun _ _ _ _ _ => rfl, fun b x o kind
        isExported _ _ _ other r only => ?_⟩ c hc, fun n hn => (each n hn).1⟩
      · rintro - x - r -
        exact reaching_refer ..
      · rw [reachingAll, reachingAll, reaching, only.admits other]
        rfl
  exact both.1 c hc

/-- Nothing comes out of a scope that holds variables, if no import does. -/
theorem reaching_function {os : List Outline} (front : List Outline)
    {k : ScopeKind} (holds : k.holdsVars = true)
    (importless : Importless (front ++ [.scope k os])) (r : Reach) :
    reachingAll r [.scope k os] = [] := by
  have nothing := importless ⟨false, false, r.imports⟩ ⟨rfl, rfl⟩
  rw [reachingAll_append, List.append_eq_nil_iff] at nothing
  have inside := nothing.2
  rw [reachingAll, reachingAll, reaching, Reach.through, holds] at inside ⊢
  rw [Bool.not_true, Bool.and_false]
  exact inside

/-- Nothing comes out of several nodes if nothing comes out of each. -/
theorem reaching_among {r : Reach}
    (each : ∀ n ∈ ns, reachingAll r (said m c n) = []) :
    reachingAll r (saidAmong m c ns) = [] := by
  induction ns with
  | nil => rfl
  | cons n ns ih =>
    obtain ⟨first, others⟩ := List.forall_mem_cons.1 each
    rw [saidAmong, List.flatMap_cons, reachingAll_append, first,
      List.nil_append]
    exact ih others

/-- No declaration comes out of the name of an element, if none comes out of it
as an expression. -/
theorem reaching_elementName {r : Reach}
    (own : reachingAll r (said m c n) = []) :
    reachingAll r (elementNameOutline (toPart m n) c) = [] := by
  unfold elementNameOutline
  rw [node_toPart, outline_toPart]
  split
  · split
    · split
      · rfl
      · exact reaching_refer ..
    · exact reaching_refer ..
  · exact own

/-- **No declaration comes out of an expression**, and none out of a pattern
that does not declare names. -/
theorem reaching_expression (h : PlainInside n) (hc : Inside c)
    (sort : isOperand n = true ∨ isAssignable n = true ∧
      ∀ kind, c.mode ≠ .declare kind) (r : Reach) :
    reachingAll r (said m c n) = [] := by
  induction n using Node.induct generalizing c r with
  | step k s ns ih =>
    obtain ⟨here, below⟩ := isPlain_node.1 h.plain
    have whole := importless_said (m := m) h hc
    have part (i : Nat) {c : Context} (hc : Inside c)
        (sort : isOperand (child ns i) = true ∨ isAssignable (child ns i) =
        true ∧ ∀ kind, c.mode ≠ .declare kind) (r : Reach) :
        reachingAll r (said m c (child ns i)) = [] := by
      rcases child_mem_or ns i with mem | missing
      · exact ih _ mem (h.child mem) hc sort r
      · rw [missing]
        rfl
    have among {ms : List Node} (sub : ∀ n ∈ ms, n ∈ ns)
        (sorts : ∀ n ∈ ms, isOperand n = true ∨ isAssignable n = true ∧ ∀ kind,
        c.mode ≠ .declare kind) : reachingAll r (saidAmong m c ms) = [] :=
      reaching_among fun n hn =>
        ih n (sub n hn) (h.child (sub n hn)) hc (sorts n hn) r
    have operand (i : Nat) (h : isOperand (child ns i) = true) :
        reachingAll r (said m c (child ns i)) = [] :=
      part i hc (.inl h) r
    have operands (all : ns.all isOperand = true) :
        reachingAll r (saidAmong m c ns) = [] :=
      among (fun _ => id) fun n hn => .inl (List.all_eq_true.1 all n hn)
    have assignables (all : ns.all isAssignable = true) (mode : ∀ kind, c.mode ≠
        .declare kind) : reachingAll r (saidAmong m c ns) = [] :=
      among (fun _ => id) fun n hn => .inr ⟨List.all_eq_true.1 all n hn, mode⟩
    have mode (noOperand : isOperand (.node k s ns) = false) :
        ∀ kind, c.mode ≠ .declare kind := by
      rcases sort with isOperand | ⟨-, mode⟩
      · cases noOperand.symm.trans isOperand
      · exact mode
    have listed (isList : k = .list) : reachingAll r (saidAmong m c ns) = [] :=
      by
      subst isList
      refine among (fun _ => id) fun n hn => ?_
      rcases sort with items | ⟨items, mode⟩
      · exact .inl (isOperand_of_isExpression (List.all_eq_true.1 items n hn))
      · have each : (isExpression n.kind || isPattern n.kind) = true :=
          List.all_eq_true.1 items n hn
        exact .inr ⟨by rw [isAssignable, each]; rfl, mode⟩
    rw [plainAt, Bool.and_eq_true, Bool.and_eq_true] at here
    obtain ⟨⟨own, -⟩, -⟩ := here
    rw [said_node] at whole ⊢
    cases k
    case function | arrow =>
      simp only [outlineOf, functionOutline] at whole ⊢
      exact reaching_function [] rfl whole r
    case staticBlock =>
      simp only [outlineOf] at whole ⊢
      exact reaching_function [] rfl whole r
    case constructor | getterProp | setterProp =>
      simp only [outlineOf, part_toParts, functionOutline, outline_toPart]
        at whole ⊢
      rw [reachingAll_append, operand 0 own, List.nil_append]
      exact reaching_function _ rfl whole r
    case fnExpr | classExpr =>
      simp only [outlineOf, part_toParts, ownScope, node_toPart, outline_toPart]
      split
      · exact operand 1 (isOperand_child own 1)
      · have inside := part 1 (passing_allowing (fun _ => id) |>.inScope hc)
          (.inl (isOperand_child own 1))
        rw [reachingAll, reachingAll, reaching, List.append_nil,
          reachingAll_append, inside, List.append_nil]
        unfold declare
        split <;> rfl
    case call =>
      have all : ns.all isOperand = true :=
        (Bool.and_eq_true_iff.1 (Bool.and_eq_true_iff.1 own).1).1
      simp only [outlineOf, part_toParts, outlines_toParts, node_toPart,
        outline_toPart]
      split
      · rw [reachingAll_append, reaching_refer, List.nil_append]
        exact operand 1 (isOperand_child all 1)
      · exact operands all
    case assign =>
      obtain ⟨target, value⟩ := Bool.and_eq_true_iff.1 own
      have assigned : reachingAll r
          (said m (targetContext (child ns 0) c) (child ns 0)) = [] := by
        cases takesApart : isDestructuring (child ns 0).kind with
        | true =>
          rw [targetContext, takesApart]
          exact part 0 (passing_allowing (fun _ => id) |>.writing hc)
            (.inr ⟨isAssignable_of_isDestructuring takesApart,
            fun _ same => by cases same⟩) r
        | false =>
          rw [takesApart, Bool.or_false] at target
          rw [targetContext, takesApart]
          exact operand 0 (isOperand_of_isExpression target)
      simp only [outlineOf, part_toParts, assignOutline_eq, node_toPart,
        outline_toPart, reachingAll_append]
      rw [operand 1 (isOperand_of_isExpression value), List.append_nil]
      split
      · exact reaching_refer ..
      · exact assigned
    case update =>
      simp only [outlineOf, part_toParts, outlines_toParts, node_toPart]
      split
      · exact reaching_refer ..
      · exact operands (Bool.and_eq_true_iff.1 own).1
    case markup form =>
      have name := reaching_elementName (operand 0 (isOperand_child own 0))
      cases form
      case name => rfl
      case opening =>
        simp only [outlineOf, part_toParts, drop_toParts, outlines_toParts,
          reachingAll_append, name]
        exact among (fun _ => List.mem_of_mem_drop) fun n hn => .inl
          (List.all_eq_true.1 own n (List.mem_of_mem_drop hn))
      case closing =>
        simp only [outlineOf, part_toParts]
        exact name
      all_goals
        simp only [outlineOf, outlines_toParts]
        exact operands own
    case bindingIdent =>
      simp only [outlineOf]
      split
      · exact absurd ‹_› (mode rfl _)
      · rfl
      · rfl
    case arrayPat | objectPat | restPat | assignPat | keyValuePat | shorthandPat
      | exprPat =>
      simp only [outlineOf, outlines_toParts]
      exact assignables own (mode rfl)
    case list =>
      simp only [outlineOf, outlines_toParts]
      exact listed rfl
    case paren | spread =>
      simp only [outlineOf, outlines_toParts]
      exact operands (all_isOperand own)
    all_goals first
      | rfl
      | (simp only [outlineOf, outlines_toParts]; exact operands own)
      | (cases sort with
         | inl h => cases h
         | inr h => cases h.1)

end Closed

end NullGuard.Scope
