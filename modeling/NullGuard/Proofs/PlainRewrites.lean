import NullGuard.Proofs.Kept
import NullGuard.Proofs.PlainScripts

/-!
# Rewrites of plain scripts

A rewrite changes few kinds: a call can become an expression in parentheses,
made parentheses are taken off, and a declaration that is left without
declarators goes away. What stands in a place of its sort afterwards is of that
sort again (`Replaces`), so a plain script stays one (`rewrites_plain`).
-/

namespace NullGuard.Transform

open NullGuard.Text (Span)
open NullGuard.Tree NullGuard.Chain NullGuard.Scope

/-- A kind can take the place of another one: it is the same, or an expression
where a call or parentheses were, or nothing where variables were declared. -/
def Supersedes (k k' : Kind) : Prop :=
  k' = k ∨ (k = .call ∨ k = .paren) ∧ isExpression k' = true ∨
    isVariables k = true ∧ (k' = .empty ∨ k' = .absent)

theorem Supersedes.refl (k : Kind) : Supersedes k k :=
  .inl rfl

/-- Most kinds only give way to themselves. -/
theorem Supersedes.same {k k' : Kind} (h : Supersedes k k')
    (notCall : k ≠ .call) (notParen : k ≠ .paren)
    (noVariables : isVariables k = false) : k' = k := by
  rcases h with same | ⟨isCall | isParen, -⟩ | ⟨declares, -⟩
  · exact same
  · exact absurd isCall notCall
  · exact absurd isParen notParen
  · cases noVariables.symm.trans declares

/-- An expression gives way to an expression. -/
theorem Supersedes.expression {k k' : Kind} (h : Supersedes k k')
    (isExpr : isExpression k = true) : isExpression k' = true := by
  rcases h with rfl | ⟨-, isExpr'⟩ | ⟨declares, -⟩
  · exact isExpr
  · exact isExpr'
  · cases k <;> first | cases declares; done | cases isExpr

/-- A node that can stand where another one stood. -/
structure Replaces (n n' : Node) : Prop where
  kind : Supersedes n.kind n'.kind
  items : n.kind = .list → ∀ m' ∈ n'.children, ∃ m ∈ n.children,
    Supersedes m.kind m'.kind
  inert : isInert n = true → n' = n

namespace Replaces

variable {n n' : Node}

theorem refl (n : Node) : Replaces n n :=
  ⟨.refl _, fun _ m hm => ⟨m, hm, .refl _⟩, fun _ => rfl⟩

theorem sequence (h : Replaces n n') (isList : isSequence n = true) :
    isSequence n' = true := by
  have isList : n.kind = .list := eq_of_beq isList
  exact beq_iff_eq.2 ((h.kind.same (by rw [isList]; decide)
    (by rw [isList]; decide) (by rw [isList]; rfl)).trans isList)

theorem operand (h : Replaces n n') (sort : isOperand n = true) :
    isOperand n' = true := by
  rw [isOperand, Bool.or_eq_true, Bool.and_eq_true] at sort ⊢
  rcases sort with isExpr | ⟨isList, items⟩
  · exact .inl (h.kind.expression isExpr)
  · refine .inr ⟨h.sequence isList, List.all_eq_true.2 fun m' hm' => ?_⟩
    obtain ⟨m, hm, follows⟩ := h.items (eq_of_beq isList) m' hm'
    exact follows.expression (List.all_eq_true.1 items m hm)

theorem pattern {k k' : Kind} (h : Supersedes k k')
    (sort : isPattern k = true) : k' = k := by
  rcases h with same | ⟨rfl | rfl, -⟩ | ⟨declares, -⟩
  · exact same
  · cases sort
  · cases sort
  · cases k <;> first | cases declares; done | cases sort

theorem assignable (h : Replaces n n') (sort : isAssignable n = true) :
    isAssignable n' = true := by
  have either {k k' : Kind} (follows : Supersedes k k')
      (sort : (isExpression k || isPattern k) = true) :
      (isExpression k' || isPattern k') = true := by
    rw [Bool.or_eq_true] at sort ⊢
    exact sort.imp follows.expression fun isPattern =>
      pattern follows isPattern ▸ isPattern
  rw [isAssignable, Bool.or_eq_true, Bool.and_eq_true] at sort ⊢
  rcases sort with assigns | ⟨isList, items⟩
  · exact .inl (either h.kind assigns)
  · refine .inr ⟨h.sequence isList, List.all_eq_true.2 fun m' hm' => ?_⟩
    obtain ⟨m, hm, follows⟩ := h.items (eq_of_beq isList) m' hm'
    exact either follows (List.all_eq_true.1 items m hm)

theorem noImport (h : Replaces n n') (other : isImport n.kind = false) :
    isImport n'.kind = false := by
  rcases h.kind with same | ⟨-, isExpr⟩ | ⟨-, empty | absent⟩
  · rw [same, other]
  · cases kind : n'.kind <;> first | rfl | (rw [kind] at isExpr; cases isExpr)
  · rw [empty]
    rfl
  · rw [absent]
    rfl

/-- A node of a kind that only gives way to itself. -/
theorem same (h : Replaces n n') {k : Kind} (here : n.kind = k)
    (plain : k ≠ .call ∧ k ≠ .paren ∧ isVariables k = false) : n'.kind = k := by
  subst here
  exact h.kind.same plain.1 plain.2.1 plain.2.2

theorem missing (h : Replaces n n') (isMissing : Scope.isMissing n = true) :
    Scope.isMissing n' = true := by
  have inert : isInert n = true := by
    unfold Scope.isMissing at isMissing
    split at isMissing
    · rfl
    · cases isMissing
  rw [h.inert inert, isMissing]

end Replaces

/-- A part at a position is replaced by the part there. -/
theorem replaces_child {ns ns' : List Node} (all : List.Forall₂ Replaces ns ns')
    (i : Nat) :
    Replaces (child ns i) (child ns' i) := by
  induction all generalizing i with
  | nil => exact .refl _
  | cons head tail ih =>
    cases i with
    | zero => exact head
    | succ i => exact ih i

/-- What holds of all parts holds of what replaces them. -/
theorem all_of_replaces {ns ns' : List Node}
    (all : List.Forall₂ Replaces ns ns') {p : Node → Bool}
    (each : ∀ n n', Replaces n n' → p n = true → p n' = true)
    (h : ns.all p = true) : ns'.all p = true := by
  induction all with
  | nil => rfl
  | cons head tail ih =>
    rw [List.all_cons, Bool.and_eq_true] at h ⊢
    exact ⟨each _ _ head h.1, ih h.2⟩

/-- **Sorts are kept where each part is replaced by one that can stand
there.** -/
theorem sortedAt_of_replaces {k : Kind} {ns ns' : List Node}
    (all : List.Forall₂ Replaces ns ns') (sorted : sortedAt k ns = true) :
    sortedAt k ns' = true := by
  have part := replaces_child all
  have operands (h : ns.all isOperand = true) : ns'.all isOperand = true :=
    all_of_replaces all (fun _ _ => Replaces.operand) h
  have expressions (h : (ns.all fun n => isExpression n.kind) = true) :
      (ns'.all fun n => isExpression n.kind) = true :=
    all_of_replaces all (fun _ _ h => h.kind.expression) h
  cases k
  case importDecl | exportNamed =>
    refine all_of_replaces (List.forall₂_take 2 all)
      (fun n n' h isInert => ?_) sorted
    rw [h.inert isInert, isInert]
  case exportDefaultDecl =>
    rw [sortedAt, Bool.or_eq_true, beq_iff_eq, beq_iff_eq] at sorted ⊢
    exact sorted.imp (fun same => (part 0).same same (by decide)) fun same =>
      (part 0).same same (by decide)
  case varDecl =>
    refine all_of_replaces all (fun n n' h isDecl => ?_) sorted
    obtain ⟨b, isDecl⟩ : ∃ b, n.kind = .declarator b := by
      unfold isDeclarator at isDecl
      split at isDecl
      · exact ⟨_, ‹_›⟩
      · cases isDecl
    rw [h.same isDecl ⟨Kind.noConfusion, Kind.noConfusion, rfl⟩]
    rfl
  case declarator => exact (part 1).operand sorted
  case constructor | getterProp | setterProp => exact (part 0).operand sorted
  case arrow =>
    rw [sortedAt, Bool.or_eq_true, beq_iff_eq] at sorted ⊢
    exact sorted.imp (fun same => (part 1).same same (by decide))
      (part 1).kind.expression
  case assign =>
    rw [sortedAt, Bool.and_eq_true, Bool.or_eq_true] at sorted ⊢
    refine ⟨sorted.1.imp (part 0).kind.expression fun isDestr => ?_,
      (part 1).kind.expression sorted.2⟩
    have isPat : isPattern (child ns 0).kind = true := by
      cases kind : (child ns 0).kind <;>
        first | rfl | (rw [kind] at isDestr; cases isDestr)
    rwa [Replaces.pattern (part 0).kind isPat]
  case call =>
    rw [sortedAt, Bool.and_eq_true, Bool.and_eq_true] at sorted ⊢
    exact ⟨⟨operands sorted.1.1, (part 1).sequence sorted.1.2⟩, all_of_replaces
      (List.forall₂_drop 2 all) (fun _ _ => Replaces.missing) sorted.2⟩
  case update =>
    rw [sortedAt, Bool.and_eq_true] at sorted ⊢
    exact ⟨operands sorted.1, all_of_replaces (List.forall₂_drop 1 all)
      (fun _ _ => Replaces.missing) sorted.2⟩
  case paren | spread => exact expressions sorted
  case bindingIdent | arrayPat | objectPat | restPat | assignPat | keyValuePat
    | shorthandPat | exprPat =>
    exact all_of_replaces all (fun _ _ => Replaces.assignable) sorted
  all_goals first
    | rfl
    | exact operands sorted
    | cases sorted

theorem isInert_child {k : Kind} {s : Option Span} {n : Node} {ns : List Node}
    (h : isInert (.node k s ns) = true) (hn : n ∈ ns) : isInert n = true :=
  List.all_eq_true.2 fun m hm =>
    List.all_eq_true.1 h m (mem_subnodes.2 (.inside hn (mem_subnodes.1 hm)))

/-- A plain node that can stand where another one stood. -/
structure PlainFor (n n' : Node) : Prop extends Replaces n n' where
  plain : isPlain n' = true

theorem PlainFor.refl {n : Node} (plain : isPlain n = true) : PlainFor n n :=
  ⟨.refl n, plain⟩

/-- **A node stays plain if its parts are replaced by plain ones** that can
stand there. -/
theorem isPlain_of_parts {k : Kind} {s : Option Span} {ns ns' : List Node}
    (plain : isPlain (.node k s ns) = true) (all : List.Forall₂ PlainFor ns ns')
    (first : (namesChild k || isTag k) = true → (child ns 0).kind ≠ .call →
      (child ns' 0).kind ≠ .call) :
    isPlain (.node k s ns') = true := by
  have replaced : List.Forall₂ Replaces ns ns' :=
    all.imp fun _ _ => PlainFor.toReplaces
  obtain ⟨here, -⟩ := isPlain_node.1 plain
  refine isPlain_node.2 ⟨?_, ?_⟩
  · rw [plainAt, Bool.and_eq_true, Bool.and_eq_true] at here ⊢
    refine ⟨⟨sortedAt_of_replaces replaced here.1.1, ?_⟩, ?_⟩
    · refine Bool.or_eq_true_iff.2
        ((Bool.or_eq_true_iff.1 here.1.2).imp_right ?_)
      refine all_of_replaces replaced fun n n' h other => ?_
      rw [Bool.not_eq_true'] at other ⊢
      exact h.noImport other
    · cases names : namesChild k || isTag k with
      | false => rfl
      | true =>
        have before := here.2
        rw [names] at before
        rw [Bool.not_true, Bool.false_or, bne_iff_ne] at before ⊢
        exact first names before
  · clear plain here replaced first
    induction all with
    | nil => exact List.forall_mem_nil _
    | cons head tail ih => exact List.forall_mem_cons.2 ⟨head.plain, ih⟩

/-- A node that is tidied up: it says the same, and it can stand where it
stood. -/
structure Tidied (n n' : Node) : Prop extends PlainFor n n' where
  said : ∀ m c, Scope.said m c n' = Scope.said m c n
  body : ∀ m c, bodyOutline (toPart m n') c = bodyOutline (toPart m n) c
  among : n.kind = .list → ∀ m c, saidAmong m c n'.children =
    saidAmong m c n.children

/-- A way to tidy up nodes. -/
def Tidies (f : Node → Node) : Prop :=
  ∀ n, isPlain n = true → Tidied n (f n)

section Tidies

variable {f : Node → Node} {k : Kind} {s : Option Span} {n n' : Node}
  {ns ns' : List Node}

/-- What is no block says as a body what it says. -/
theorem bodyOutline_of_other (other : n.kind ≠ .block) (m : String)
    (c : Context) :
    bodyOutline (toPart m n) c = said m c n := by
  unfold bodyOutline
  rw [node_toPart]
  split
  · exact absurd ‹_› other
  · rfl

theorem Tidied.refl (plain : isPlain n = true) : Tidied n n :=
  ⟨.refl plain, fun _ _ => rfl, fun _ _ => rfl, fun _ _ _ => rfl⟩

theorem tidied_of_other (tidied : PlainFor n n')
    (said : ∀ m c, Scope.said m c n' = Scope.said m c n)
    (noBlock : n.kind ≠ .block) (noBlock' : n'.kind ≠ .block)
    (among : n.kind = .list → ∀ m c, saidAmong m c n'.children =
      saidAmong m c n.children) : Tidied n n' :=
  ⟨tidied, said, fun m c => by
    rw [bodyOutline_of_other noBlock, bodyOutline_of_other noBlock', said],
    among⟩

theorem replaces_of_expression (here : n.kind = .call ∨ n.kind = .paren)
    (isExpr : isExpression n'.kind = true) : Replaces n n' := by
  refine ⟨.inr (.inl ⟨here, isExpr⟩), fun isList => ?_, fun inert => ?_⟩
  · rcases here with isCall | isParen
    · cases isCall.symm.trans isList
    · cases isParen.symm.trans isList
  · have own : isSpecifierPart n.kind = true :=
      List.all_eq_true.1 inert n (mem_subnodes.2 .here)
    rcases here with isCall | isParen
    · rw [isCall] at own
      cases own
    · rw [isParen] at own
      cases own

/-- Parentheses can be taken off an expression. -/
theorem tidied_paren {inner : Node}
    (plain : isPlain (.node .paren s [inner]) = true) :
    Tidied (.node .paren s [inner]) inner := by
  obtain ⟨here, below⟩ := isPlain_node.1 plain
  rw [plainAt, Bool.and_eq_true, Bool.and_eq_true] at here
  have isExpr : isExpression inner.kind = true :=
    List.all_eq_true.1 here.1.1 inner List.mem_cons_self
  refine tidied_of_other ⟨replaces_of_expression (.inr rfl) isExpr,
    below inner List.mem_cons_self⟩ (fun m c => (List.append_nil _).symm)
    Kind.noConfusion (fun isBlock => ?_) Kind.noConfusion
  rw [isBlock] at isExpr
  cases isExpr

theorem tidies_unwrap : Tidies unwrap := by
  intro n plain
  unfold unwrap
  split
  · exact tidied_paren plain
  · exact .refl plain

theorem tidies_unwrapConditional : Tidies unwrapConditional := by
  intro n plain
  unfold unwrapConditional
  split
  · exact tidied_paren plain
  · exact .refl plain

/-- A node that has no declarators left declares variables, if any do. -/
theorem eq_of_isEmptied (h : isEmptied n = true) :
    ∃ word isDeclared s, n = .node (.varDecl word isDeclared) s [] := by
  unfold isEmptied at h
  split at h
  · exact ⟨_, _, _, rfl⟩
  · cases h

theorem tidies_emptied {k : Kind} (empty : k = .empty ∨ k = .absent) :
    Tidies fun n => if isEmptied n then .node k none [] else n := by
  intro n plain
  dsimp only
  split
  · rename_i emptied
    obtain ⟨word, isDeclared, s, rfl⟩ := eq_of_isEmptied emptied
    have plain' : isPlain (.node k none []) = true := by
      rcases empty with rfl | rfl <;>
        exact isPlain_node.2 ⟨rfl, List.forall_mem_nil _⟩
    refine tidied_of_other
      ⟨⟨.inr (.inr ⟨rfl, empty⟩), Kind.noConfusion, fun inert => ?_⟩, plain'⟩
      (fun m c => ?_) Kind.noConfusion (fun isBlock => ?_) Kind.noConfusion
    · cases List.all_eq_true.1 inert _ (mem_subnodes.2 .here)
    · rcases empty with rfl | rfl <;> cases word <;> rfl
    · rcases empty with rfl | rfl <;> cases isBlock
  · exact .refl plain

theorem same_parts (plain : ∀ n ∈ ns, isPlain n = true) :
    List.Forall₂ Tidied ns ns :=
  List.forall₂_same.2 fun n hn => .refl (plain n hn)

theorem tidied_map (tidies : Tidies f) (plain : ∀ n ∈ ns, isPlain n = true) :
    List.Forall₂ Tidied ns (ns.map f) := by
  rw [List.forall₂_map_right_iff, List.forall₂_same]
  exact fun n hn => tidies n (plain n hn)

theorem tidied_modify (tidies : Tidies f) (plain : ∀ n ∈ ns, isPlain n = true)
    (i : Nat) :
    List.Forall₂ Tidied ns (ns.modify i f) := by
  induction ns generalizing i with
  | nil =>
    rw [List.modify_nil]
    exact .nil
  | cons n ns ih =>
    obtain ⟨head, tail⟩ := List.forall_mem_cons.1 plain
    cases i with
    | zero =>
      rw [List.modify_zero_cons]
      exact .cons (tidies n head) (same_parts tail)
    | succ i =>
      rw [List.modify_succ_cons]
      exact .cons (.refl head) (ih tail i)

theorem plain_of_tidied (all : List.Forall₂ Tidied ns ns') :
    ∀ n ∈ ns', isPlain n = true := by
  induction all with
  | nil => exact List.forall_mem_nil _
  | cons head tail ih => exact List.forall_mem_cons.2 ⟨head.plain, ih⟩

theorem saidAmong_of_tidied (all : List.Forall₂ Tidied ns ns') (m : String)
    (c : Context) :
    saidAmong m c ns' = saidAmong m c ns := by
  induction all with
  | nil => rfl
  | cons head tail ih =>
    rw [saidAmong, saidAmong, List.flatMap_cons, List.flatMap_cons, head.said]
    exact congrArg _ ih

theorem said_sequence (m : String) (c : Context) (s : Option Span)
    (ns : List Node) :
    said m c (.node .list s ns) = saidAmong m c ns := by
  rw [said_node]
  exact outlines_toParts m c ns

theorem said_spread (m : String) (c : Context) (s : Option Span)
    (ns : List Node) :
    said m c (.node .spread s ns) = saidAmong m c ns := by
  rw [said_node]
  exact outlines_toParts m c ns

theorem tidied_spread (parts : List.Forall₂ Tidied ns ns')
    (plain : isPlain (.node .spread s ns) = true) :
    Tidied (.node .spread s ns) (.node .spread s ns') := by
  refine tidied_of_other ⟨⟨.refl _, Kind.noConfusion, fun inert => ?_⟩, ?_⟩
    (fun m c => by rw [said_spread, said_spread, saidAmong_of_tidied parts])
    Kind.noConfusion Kind.noConfusion Kind.noConfusion
  · cases List.all_eq_true.1 inert _ (mem_subnodes.2 .here)
  · exact isPlain_of_parts plain (parts.imp fun _ _ => Tidied.toPlainFor)
      fun named => by
      cases named

theorem tidies_unwrapItem : Tidies unwrapItem := by
  intro n plain
  unfold unwrapItem
  split
  · exact tidied_spread
      (tidied_map tidies_unwrap (isPlain_node.1 plain).2) plain
  · exact tidies_unwrap n plain

theorem tidies_items : Tidies (mapItems unwrapItem) := by
  intro n plain
  unfold mapItems
  split
  · rename_i s items
    have below := (isPlain_node.1 plain).2
    have parts := tidied_map tidies_unwrapItem below
    have same := saidAmong_of_tidied parts
    refine tidied_of_other ⟨⟨.refl _, fun _ m' hm' => ?_, fun inert => ?_⟩, ?_⟩
      (fun m c => by rw [said_sequence, said_sequence, same]) Kind.noConfusion
      Kind.noConfusion fun _ => same
    · obtain ⟨m, hm, rfl⟩ := List.mem_map.1 hm'
      exact ⟨m, hm, (tidies_unwrapItem m (below m hm)).kind⟩
    · congr 1
      refine (List.map_congr_left fun m hm => ?_).trans (List.map_id items)
      exact (tidies_unwrapItem m (below m hm)).inert (isInert_child inert hm)
    · exact isPlain_of_parts plain (parts.imp fun _ _ => Tidied.toPlainFor)
        fun named => by
        cases named
  · exact .refl plain

theorem Supersedes.trans {k k' k'' : Kind} (h : Supersedes k k')
    (h' : Supersedes k' k'') : Supersedes k k'' := by
  rcases h with rfl | ⟨here, isExpr⟩ | ⟨declares, empty⟩
  · exact h'
  · exact .inr (.inl ⟨here, h'.expression isExpr⟩)
  · refine .inr (.inr ⟨declares, ?_⟩)
    rcases empty with rfl | rfl
    · exact .inl (h'.same Kind.noConfusion Kind.noConfusion rfl)
    · exact .inr (h'.same Kind.noConfusion Kind.noConfusion rfl)

theorem Tidied.trans {n'' : Node} (h : Tidied n n') (h' : Tidied n' n'') :
    Tidied n n'' where
  kind := h.kind.trans h'.kind
  items isList m' hm' := by
    have isList' := h.toReplaces.same isList (by decide)
    obtain ⟨m, hm, follows⟩ := h'.items isList' m' hm'
    obtain ⟨m₀, hm₀, follows₀⟩ := h.items isList m hm
    exact ⟨m₀, hm₀, follows₀.trans follows⟩
  inert inert := by
    obtain rfl := h.inert inert
    exact h'.inert inert
  plain := h'.plain
  said m c := (h'.said m c).trans (h.said m c)
  body m c := (h'.body m c).trans (h.body m c)
  among isList m c := (h'.among
    (h.toReplaces.same isList (by decide)) m c).trans (h.among isList m c)

theorem tidied_twice {g : Node → Node} (tidies : Tidies f) (tidies' : Tidies g)
    (plain : ∀ n ∈ ns, isPlain n = true) (i j : Nat) :
    List.Forall₂ Tidied ns ((ns.modify i f).modify j g) := by
  have first := tidied_modify tidies plain i
  have second := tidied_modify tidies' (plain_of_tidied first) j
  generalize ns.modify i f = ms at first second
  generalize ms.modify j g = ls at second
  clear plain
  induction first generalizing ls with
  | nil =>
    cases second
    exact .nil
  | cons head tail ih =>
    cases second with
    | cons head' tail' => exact .cons (head.trans head') (ih _ tail')

/-- Whether children of a node are dropped. -/
def drops : Kind → Bool
  | .varDecl _ _ | .block | .moduleBlock => true
  | _ => false

variable (removals : List (Option Span))

/-- **Tidying up leaves the children of a node in their places**, where none is
dropped. -/
theorem tidied_finish (plain : ∀ n ∈ ns, isPlain n = true)
    (noDrop : drops k = false) :
    List.Forall₂ Tidied ns (finish removals k ns) := by
  have lone : Tidies loneStatement := tidies_emptied (.inl rfl)
  have start : Tidies loopStart := tidies_emptied (.inr rfl)
  cases k
  case block | moduleBlock | varDecl => cases noDrop
  case exprStmt => exact tidied_modify tidies_unwrapConditional plain 0
  case assign | declarator | keyValue | assignPat =>
    exact tidied_modify tidies_unwrap plain 1
  case property =>
    simp only [finish, tidy]
    split
    · exact same_parts plain
    · exact tidied_modify tidies_unwrap plain 1
  case returnStmt | throwStmt | computed | paren =>
    exact tidied_modify tidies_unwrap plain 0
  case markup form =>
    cases form
    case container => exact tidied_modify tidies_unwrap plain 0
    all_goals exact same_parts plain
  case array => exact tidied_map tidies_unwrapItem plain
  case call | new | optCall => exact tidied_modify tidies_items plain 1
  case cond => exact tidied_twice tidies_unwrap tidies_unwrap plain 1 2
  case seq | template => exact tidied_map tidies_unwrap plain
  case ifStmt => exact tidied_twice lone lone plain 1 2
  case labeled | whileStmt | doWhile | withStmt =>
    exact tidied_modify lone plain 1
  case forStmt => exact tidied_twice start lone plain 0 3
  case forIn | forOf => exact tidied_modify lone plain 2
  all_goals exact same_parts plain

/-- The first child stays as it is where something depends on what it is. -/
theorem first_finish (first : (namesChild k || isTag k || isPass k) = true)
    (ns : List Node) :
    child (finish removals k ns) 0 = child ns 0 := by
  cases k
  case declarator | forIn | forOf => cases ns <;> rfl
  case markup form =>
    cases form
    case container => cases first
    all_goals rfl
  all_goals first
    | rfl
    | cases first

/-- Where children are dropped, the others still are in places of their
sorts. -/
theorem isPlain_filter (plain : isPlain (.node k s ns) = true)
    (anywhere : (namesChild k || isTag k) = false) (p : Node → Bool)
    (sorted : sortedAt k (ns.filter p) = true) :
    isPlain (.node k s (ns.filter p)) = true := by
  obtain ⟨here, below⟩ := isPlain_node.1 plain
  refine isPlain_node.2 ⟨?_, fun n hn => below n (List.mem_of_mem_filter hn)⟩
  rw [plainAt, Bool.and_eq_true, Bool.and_eq_true] at here ⊢
  refine ⟨⟨sorted, ?_⟩, by rw [anywhere]; rfl⟩
  refine Bool.or_eq_true_iff.2
    ((Bool.or_eq_true_iff.1 here.1.2).imp_right fun all => ?_)
  exact List.all_eq_true.2 fun n hn => List.all_eq_true.1 all n
    (List.mem_of_mem_filter hn)

/-- **A plain node stays plain when it is tidied up.** -/
theorem isPlain_finish (plain : isPlain (.node k s ns) = true) :
    isPlain (.node k s (finish removals k ns)) = true := by
  have below := (isPlain_node.1 plain).2
  cases dropping : drops k with
  | false =>
    refine isPlain_of_parts plain ((tidied_finish removals below dropping).imp
      fun _ _ => Tidied.toPlainFor) fun named notCall => ?_
    rwa [first_finish removals (by rw [named]; rfl)]
  | true =>
    cases k
    case varDecl =>
      refine isPlain_filter plain rfl _ (List.all_eq_true.2 fun n hn => ?_)
      obtain ⟨here, -⟩ := isPlain_node.1 plain
      rw [plainAt, Bool.and_eq_true, Bool.and_eq_true] at here
      exact List.all_eq_true.1 here.1.1 n (List.mem_of_mem_filter hn)
    case block | moduleBlock => exact isPlain_filter plain rfl _ rfl
    all_goals cases dropping

end Tidies

/-- What holds of the key, the arguments and the type arguments of a step. -/
def StepParts (Key Argument Type' : Node → Prop) : Step → Prop
  | .member property => Key property
  | .call arguments typeArguments =>
    (∀ n ∈ arguments, Argument n) ∧ Type' typeArguments

/-- **Induction over the expression of a chain.** -/
theorem expression_induct {P Key Argument Type' : Node → Prop} {c : AccessChain}
    {t : String} (temp : P (temporary t))
    (member : ∀ o p, P o → Key p → P (made .member [o, p]))
    (call : ∀ f l a, P f → (∀ n ∈ l, Argument n) → Type' a →
      P (made .call [f, .ofList l, a]))
    (guard : ∀ s v more, P v → P more → P (guarded s t v more))
    (paren : ∀ n, P n → P (parenthesized n)) (base : P c.base)
    (steps : ∀ step ∈ c.steps, StepParts Key Argument Type' step) :
    P (c.expression t) := by
  have apply (l : Level) (o : Node) (ho : P o) (hl : ∀ step ∈ l.steps,
      StepParts Key Argument Type' step) : P (l.apply o) := by
    cases l with
    | member property => exact member o property ho (hl _ List.mem_cons_self)
    | call arguments typeArguments =>
      obtain ⟨hs, ht⟩ := hl _ List.mem_cons_self
      exact call o arguments typeArguments ho hs ht
    | method property arguments typeArguments =>
      obtain ⟨hs, ht⟩ := hl (.call arguments typeArguments)
        (List.mem_cons_of_mem _ List.mem_cons_self)
      exact call _ arguments typeArguments
        (member o property ho (hl _ List.mem_cons_self)) hs ht
  have guards (ls : List Level) (hls : ∀ l ∈ ls, ∀ step ∈ l.steps,
      StepParts Key Argument Type' step) : P (guardedLevels t ls) := by
    fun_induction guardedLevels t ls with
    | case1 => exact temp
    | case2 last => exact apply last _ temp (hls last List.mem_cons_self)
    | case3 level rest _ ih =>
      exact guard _ _ _ (apply level _ temp (hls level List.mem_cons_self))
        (ih fun l hl => hls l (List.mem_cons_of_mem _ hl))
  have each l (hl : l ∈ levels c.steps) step (hs : step ∈ l.steps) :
      StepParts Key Argument Type' step := by
    refine steps step ?_
    rw [← flatMap_steps_levels c.steps]
    exact List.mem_flatMap.2 ⟨l, hl, hs⟩
  unfold AccessChain.expression
  split
  · exact paren _ base
  · exact paren _ (guard _ _ _ base (guards _ each))

/-- A plain expression. -/
def PlainExpression (n : Node) : Prop :=
  isPlain n = true ∧ isExpression n.kind = true

/-- A plain operand. -/
def PlainOperand (n : Node) : Prop :=
  isPlain n = true ∧ isOperand n = true

/-- What stands where there are no type arguments. -/
def PlainMissing (n : Node) : Prop :=
  isPlain n = true ∧ isMissing n = true

section Expression

variable {policy : ChainPolicy} {span : Option Span} {arguments : List Node}
  {c : AccessChain} {u : String}

theorem plainExpression_node {k : Kind} {s : Option Span} {ns : List Node}
    (isExpr : isExpression k = true) (plain : plainAt k ns = true)
    (below : ∀ n ∈ ns, isPlain n = true) :
    PlainExpression (.node k s ns) :=
  ⟨isPlain_node.2 ⟨plain, below⟩, isExpr⟩

/-- An operand is no import. -/
theorem noImport_of_isOperand {n : Node} (sort : isOperand n = true) :
    isImport n.kind = false := by
  obtain ⟨k, s, ns⟩ := n
  cases k <;> first | rfl | cases sort

/-- The steps of a chain that is read off a plain body are plain. -/
theorem plain_spine {name : String} {body : Node} {steps : List Step}
    (h : Spine policy name body steps) (plain : isPlain body = true) :
    ∀ step ∈ steps,
      StepParts PlainOperand PlainExpression PlainMissing step := by
  induction h with
  | leaf s ns => exact List.forall_mem_nil _
  | paren s rest ih => exact ih ((isPlain_node.1 plain).2 _ List.mem_cons_self)
  | @member s object property steps clean rest ih =>
    obtain ⟨here, below⟩ := isPlain_node.1 plain
    rw [plainAt, Bool.and_eq_true, Bool.and_eq_true] at here
    have second : property ∈ [object, property] :=
      List.mem_cons_of_mem _ List.mem_cons_self
    exact List.forall_mem_append.2
      ⟨ih (below object List.mem_cons_self), List.forall_mem_singleton.2
      ⟨below property second, List.all_eq_true.1 here.1.1 property second⟩⟩
  | @call s l callee typeArguments arguments steps permissive ordinary
      clean rest ih =>
    obtain ⟨here, below⟩ := isPlain_node.1 plain
    rw [plainAt, Bool.and_eq_true, Bool.and_eq_true] at here
    obtain ⟨sorts, missing⟩ := Bool.and_eq_true_iff.1 here.1.1
    obtain ⟨operands, -⟩ := Bool.and_eq_true_iff.1 sorts
    have second : Node.node .list l arguments ∈
        [callee, .node .list l arguments, typeArguments] :=
      List.mem_cons_of_mem _ List.mem_cons_self
    have third : typeArguments ∈
        [callee, .node .list l arguments, typeArguments] :=
      List.mem_cons_of_mem _ (List.mem_cons_of_mem _ List.mem_cons_self)
    refine List.forall_mem_append.2 ⟨ih (below callee List.mem_cons_self),
      List.forall_mem_singleton.2 ⟨fun n hn => ?_, ?_⟩⟩
    · have items : (arguments.all fun n => isExpression n.kind) = true :=
        List.all_eq_true.1 operands _ second
      exact ⟨(isPlain_node.1 (below _ second)).2 n hn,
        List.all_eq_true.1 items n hn⟩
    · exact ⟨below typeArguments third,
        List.all_eq_true.1 missing typeArguments List.mem_cons_self⟩

theorem isPlain_stripParens {n : Node} (plain : isPlain n = true) :
    isPlain n.stripParens = true :=
  isPlain_of_occurs (.stripParens n) plain

/-- A helper call with plain arguments is taken apart into plain pieces. -/
theorem plain_decompose (h : decompose policy span arguments = .ok c)
    (all : ∀ n ∈ arguments, PlainExpression n) :
    PlainExpression c.base ∧
      ∀ step ∈ c.steps,
        StepParts PlainOperand PlainExpression PlainMissing step := by
  obtain ⟨call, helper, walked, same, -⟩ := decompose_ok h
  cases helper with
  | @intro base callback body name isAsync isOptional sp l i ascription rest _ _
      isArrow notBlock =>
    refine ⟨same ▸ all base List.mem_cons_self, plain_spine walked ?_⟩
    have arrow := isPlain_stripParens
      (all callback (List.mem_cons_of_mem _ List.mem_cons_self)).1
    rw [isArrow] at arrow
    exact (isPlain_node.1 arrow).2 body
      (List.mem_cons_of_mem _ List.mem_cons_self)

/-- **The expression of a chain of plain pieces is plain.** -/
theorem plain_expression (base : PlainExpression c.base)
    (steps : ∀ step ∈ c.steps,
      StepParts PlainOperand PlainExpression PlainMissing step) :
    PlainExpression (c.expression u) := by
  have null : PlainExpression (made .null []) :=
    plainExpression_node rfl rfl (List.forall_mem_nil _)
  have temp : PlainExpression (temporary u) :=
    plainExpression_node rfl rfl (List.forall_mem_nil _)
  have operands {k : Kind} {s : Option Span} {ns : List Node}
      (isExpr : isExpression k = true) (sorted : ns.all isOperand = true →
      sortedAt k ns = true) (anywhere : (namesChild k || isTag k) = false)
      (all : ∀ n ∈ ns, PlainOperand n) : PlainExpression (.node k s ns) := by
    refine plainExpression_node isExpr ?_ fun n hn => (all n hn).1
    rw [plainAt, sorted (List.all_eq_true.2 fun n hn => (all n hn).2), anywhere]
    refine Bool.and_eq_true_iff.2
      ⟨Bool.or_eq_true_iff.2 (.inr (List.all_eq_true.2 fun n hn => ?_)), rfl⟩
    rw [noImport_of_isOperand (all n hn).2]
    rfl
  have operand {n : Node} (h : PlainExpression n) : PlainOperand n :=
    ⟨h.1, isOperand_of_isExpression h.2⟩
  have paren (n : Node) (h : PlainExpression n) :
      PlainExpression (parenthesized n) :=
    operands rfl (fun _ => by simpa [sortedAt] using h.2) rfl
      (List.forall_mem_singleton.2 (operand h))
  refine expression_induct temp (fun o p ho hp => ?_) (fun f l a hf hl ha => ?_)
    (fun s v more hv hmore => ?_) paren base steps
  · exact operands rfl id rfl
      (List.forall_mem_cons.2 ⟨operand ho, List.forall_mem_singleton.2 hp⟩)
  · have list : PlainOperand (.ofList l) := by
      have items : (l.all fun n => isExpression n.kind) = true :=
        List.all_eq_true.2 fun n hn => (hl n hn).2
      refine ⟨isPlain_node.2 ⟨?_, fun n hn => (hl n hn).1⟩, items⟩
      have noImports : (l.all fun n => !isImport n.kind) = true :=
        List.all_eq_true.2 fun n hn => by
        rw [noImport_of_isOperand (operand (hl n hn)).2]
        rfl
      rw [plainAt, noImports]
      rfl
    have missing : PlainOperand a := by
      refine ⟨ha.1, ?_⟩
      have isMissing := ha.2
      unfold Scope.isMissing at isMissing
      split at isMissing
      · rfl
      · cases isMissing
    refine operands rfl (fun all => ?_) rfl (List.forall_mem_cons.2 ⟨operand hf,
      List.forall_mem_cons.2 ⟨list, List.forall_mem_singleton.2 missing⟩⟩)
    rw [sortedAt, all]
    simpa [child, isSequence, Node.ofList] using ha.2
  · have assignment :
        PlainExpression (made (.assign .plain) [temporary u, v]) :=
      operands rfl (fun _ => by
        simpa [sortedAt, child, temporary, made, isExpression] using hv.2) rfl
        (List.forall_mem_cons.2
        ⟨operand temp, List.forall_mem_singleton.2 (operand hv)⟩)
    have test : PlainExpression (made (.binary .notEq) [parenthesized
        (made (.assign .plain) [temporary u, v]), made .null []]) :=
      operands rfl id rfl (List.forall_mem_cons.2 ⟨operand (paren _ assignment),
        List.forall_mem_singleton.2 (operand null)⟩)
    exact operands rfl id rfl
      (List.forall_mem_cons.2 ⟨operand test, List.forall_mem_cons.2
      ⟨operand hmore, List.forall_mem_singleton.2 (operand temp)⟩⟩)

end Expression

/-- A plain node that can be treated in a way. -/
structure PlainFit (j : Treatment) (n : Node) : Prop where
  plain : isPlain n = true
  body : j = .arrowBody → n.kind = .block ∨ isExpression n.kind = true

/-- What becomes of a plain node that is treated in a way. -/
structure StaysPlain (j : Treatment) (n n' : Node) : Prop where
  plain : isPlain n' = true
  replaces : j ≠ .arrowBody → Replaces n n'
  body : j = .arrowBody → n'.kind = .block ∨ isExpression n'.kind = true

theorem Replaces.body {n n' : Node} (h : Replaces n n')
    (was : n.kind = .block ∨ isExpression n.kind = true) :
    n'.kind = .block ∨ isExpression n'.kind = true :=
  was.imp (fun isBlock => h.same isBlock (by decide)) h.kind.expression

theorem StaysPlain.of_plainFor {j : Treatment} {n n' : Node}
    (other : j ≠ .arrowBody) (h : PlainFor n n') : StaysPlain j n n' :=
  ⟨h.plain, fun _ => h.toReplaces, fun isBody => absurd isBody other⟩

/-- Several plain nodes that can be treated in some ways. -/
def AllPlain (js : List Treatment) (ns : List Node) : Prop :=
  ∀ (i : Nat) (j : Treatment) (n : Node), js[i]? = some j → ns[i]? = some n →
    PlainFit j n

namespace AllPlain

variable {js : List Treatment} {ns : List Node} {j : Treatment} {n : Node}

theorem head (h : AllPlain (j :: js) (n :: ns)) : PlainFit j n :=
  h 0 j n rfl rfl

theorem tail (h : AllPlain (j :: js) (n :: ns)) : AllPlain js ns :=
  fun i => h (i + 1)

theorem plain (all : ∀ n ∈ ns, isPlain n = true)
    (noArrowBody : ∀ j ∈ js, j ≠ .arrowBody) : AllPlain js ns :=
  fun _ _ _ treated there => ⟨all _ (List.mem_of_getElem? there),
    fun isBody => absurd isBody (noArrowBody _ (List.mem_of_getElem? treated))⟩

theorem one (h : PlainFit j n) : AllPlain [j] [n] := by
  intro i j' n' treated there
  cases i with
  | zero =>
    cases treated
    cases there
    exact h
  | succ i => cases treated

theorem single (plain : isPlain n = true) (noArrowBody : j ≠ .arrowBody) :
    AllPlain [j] [n] :=
  .one ⟨plain, fun isBody => absurd isBody noArrowBody⟩

end AllPlain

section Rewriting

variable {setting : Setting} {js : List Treatment} {ns ns' : List Node}
  {h : List String} {a : List RewrittenCall}

/-- Only the body of an arrow function is treated as one. -/
theorem noArrowBody {k : Kind} (noArrow : ∀ b, k ≠ .arrow b) :
    ∀ j ∈ treatments k ns, j ≠ .arrowBody := by
  rintro j hj rfl
  unfold treatments at hj
  split at hj
  case h_2 =>
    unfold functionTreatments at hj
    split at hj <;> simp at hj
  case h_8 => exact noArrow _ rfl
  all_goals simp at hj

theorem noArrowBody_arguments :
    ∀ j ∈ argumentTreatments ns, j ≠ .arrowBody := by
  rintro j hj rfl
  unfold argumentTreatments at hj
  split at hj <;> simp at hj

theorem noArrowBody_place :
    ∀ j ∈ ns.map fun _ => Treatment.place, j ≠ .arrowBody := by
  rintro j hj rfl
  simp at hj

/-- Where no node is the body of an arrow function, every node is replaced by a
plain one. -/
theorem plainFor_of_each (all : Each StaysPlain js ns ns')
    (noArrowBody : ∀ j ∈ js, j ≠ .arrowBody) :
    List.Forall₂ PlainFor ns ns' :=
  all.forall₂ fun j hj _ _ stays =>
    ⟨stays.replaces (noArrowBody j hj), stays.plain⟩

theorem plain_of_each (all : Each StaysPlain js ns ns') :
    ∀ n ∈ ns', isPlain n = true := by
  induction all with
  | nil => exact List.forall_mem_nil _
  | cons head tail ih => exact List.forall_mem_cons.2 ⟨head.plain, ih⟩

/-- Inert nodes stay as they are. -/
theorem eq_of_inert (all : List.Forall₂ PlainFor ns ns')
    (inert : ∀ n ∈ ns, isInert n = true) : ns' = ns := by
  induction all with
  | nil => rfl
  | cons head tail ih =>
    obtain ⟨first, rest⟩ := List.forall_mem_cons.1 inert
    rw [head.inert first, ih rest]

/-- A node with other parts replaces the node. -/
theorem replaces_node {k : Kind} {s : Option Span}
    (parts : List.Forall₂ PlainFor ns ns') (removals : List (Option Span)) :
    Replaces (.node k s ns) (.node k s (finish removals k ns')) := by
  refine ⟨.refl k, ?_, fun inert => ?_⟩
  · rintro rfl m' hm'
    obtain ⟨m, hm, plainFor⟩ := exists_of_forall₂ parts hm'
    exact ⟨m, hm, plainFor.kind⟩
  · have own : isSpecifierPart k = true :=
      List.all_eq_true.1 inert _ (mem_subnodes.2 .here)
    have same : finish removals k ns' = ns' := by
      cases k <;> first | rfl | cases own
    rw [same, eq_of_inert parts fun n hn => isInert_child inert hn]

/-- A node that takes no part in imports and exports replaces one of its
kind. -/
theorem replaces_same {k : Kind} {s s' : Option Span} (noList : k ≠ .list)
    (noSpecifier : isSpecifierPart k = false) (ns ns' : List Node) :
    Replaces (.node k s ns) (.node k s' ns') :=
  ⟨.refl k, fun isList => absurd isList noList, fun inert =>
    absurd (List.all_eq_true.1 inert _ (mem_subnodes.2 .here))
      (by simp [noSpecifier])⟩

/-- An arrow function with a plain body is plain. -/
theorem isPlain_arrow {b : Bool} {s : Option Span}
    {parameters parameters' body body' : Node} {types types' : List Node}
    (plain : isPlain (.node (.arrow b) s (parameters :: body :: types)) = true)
    (first : PlainFor parameters parameters')
    (second : StaysPlain .arrowBody body body')
    (rest : List.Forall₂ PlainFor types types') :
    isPlain (.node (.arrow b) s (parameters' :: body' :: types')) = true := by
  obtain ⟨here, -⟩ := isPlain_node.1 plain
  rw [plainAt, Bool.and_eq_true, Bool.and_eq_true] at here
  obtain ⟨⟨-, noImports⟩, -⟩ := here
  have noImports : ∀ n ∈ parameters :: body :: types, isImport n.kind = false :=
    fun n hn => by
    simpa using List.all_eq_true.1 noImports n hn
  obtain ⟨noImport, -, others⟩ : isImport parameters.kind = false ∧ _ ∧ _ := by
    simpa only [List.forall_mem_cons] using noImports
  have noImport' : isImport body'.kind = false := by
    rcases second.body rfl with isBlock | isExpr
    · rw [isBlock]
      rfl
    · exact noImport_of_isOperand (isOperand_of_isExpression isExpr)
  refine isPlain_node.2 ⟨?_, List.forall_mem_cons.2
    ⟨first.plain, List.forall_mem_cons.2 ⟨second.plain, fun n hn => ?_⟩⟩⟩
  · rw [plainAt, Bool.and_eq_true, Bool.and_eq_true]
    refine ⟨⟨?_, List.all_eq_true.2 fun n hn => ?_⟩, rfl⟩
    · rw [sortedAt, Bool.or_eq_true, beq_iff_eq]
      exact second.body rfl
    · rw [Bool.not_eq_true']
      rcases List.mem_cons.1 hn with rfl | hn
      · exact first.noImport noImport
      · rcases List.mem_cons.1 hn with rfl | hn
        · exact noImport'
        · obtain ⟨m, hm, plainFor⟩ := exists_of_forall₂ rest hn
          exact plainFor.noImport (others m hm)
  · obtain ⟨m, hm, plainFor⟩ := exists_of_forall₂ rest hn
    exact plainFor.plain

/-- The body of a plain arrow function is a block or an expression. -/
theorem body_of_arrow {b : Bool} {s : Option Span} {parameters body : Node}
    {types : List Node}
    (plain : isPlain (.node (.arrow b) s (parameters :: body :: types)) =
      true) :
    body.kind = .block ∨ isExpression body.kind = true := by
  obtain ⟨here, -⟩ := isPlain_node.1 plain
  rw [plainAt, Bool.and_eq_true, Bool.and_eq_true] at here
  have sorted : (body.kind == .block || isExpression body.kind) = true :=
    here.1.1
  rwa [Bool.or_eq_true, beq_iff_eq] at sorted

/-- The children of a plain node can be treated as their places say. -/
theorem plain_treatments {k : Kind} {s : Option Span}
    (plain : isPlain (.node k s ns) = true) :
    AllPlain (treatments k ns) ns := by
  have below := (isPlain_node.1 plain).2
  cases k with
  | arrow b =>
    rcases ns with _ | ⟨parameters, _ | ⟨body, types⟩⟩
    · exact fun i j n treated there => by cases there
    · exact .plain below noArrowBody_place
    · intro i j n treated there
      refine ⟨below n (List.mem_of_getElem? there), ?_⟩
      rintro rfl
      rcases i with _ | _ | i
      · cases treated
      · cases there
        exact body_of_arrow plain
      · cases eq_of_map treated
  | _ => exact .plain below (noArrowBody fun _ => Kind.noConfusion)

/-- A node whose children are rewritten and tidied up stays plain. -/
theorem stays_node {k : Kind} {s : Option Span}
    (plain : isPlain (.node k s ns) = true)
    (kept : AllKept (treatments k ns) ns ns')
    (stay : Each StaysPlain (treatments k ns) ns ns') :
    StaysPlain .place (.node k s ns)
      (.node k s (finish setting.removals k ns')) := by
  have general (noArrowBody : ∀ j ∈ treatments k ns, j ≠ .arrowBody) :
      StaysPlain .place (.node k s ns)
      (.node k s (finish setting.removals k ns')) := by
    have parts := plainFor_of_each stay noArrowBody
    refine .of_plainFor (by decide) ⟨replaces_node parts _,
      isPlain_finish _ (isPlain_of_parts plain parts ?_)⟩
    intro named notCall
    cases there : ns'[0]? with
    | none =>
      rw [child, List.getD_eq_getElem?_getD, there]
      exact Kind.noConfusion
    | some n' =>
      obtain ⟨j, n, treated, here, kept⟩ := kept.get there
      have noBody : isBody j = false := by
        rw [← Bool.not_eq_true]
        intro isBody
        have index := bodyIndex_of_treatments treated isBody
        cases k <;> first | cases index; done | cases named
      rw [child, List.getD_eq_getElem?_getD, here] at notCall
      rw [child, List.getD_eq_getElem?_getD, there]
      exact (kept.stays noBody).kind notCall ▸ notCall
  cases k with
  | arrow b =>
    rcases ns with _ | ⟨parameters, _ | ⟨body, types⟩⟩
    · exact general noArrowBody_place
    · exact general noArrowBody_place
    · cases stay with
      | cons first stay =>
        cases stay with
        | cons second rest =>
          have others := plainFor_of_each rest fun j hj isBody => by
            subst isBody
            simp at hj
          exact .of_plainFor (by decide)
            ⟨replaces_same Kind.noConfusion rfl _ _, isPlain_arrow plain
            ⟨first.replaces (by decide), first.plain⟩ second others⟩
  | _ => exact general (noArrowBody fun _ => Kind.noConfusion)

/-- An inert node stays in its list. -/
theorem staysIn_of_inert {n : Node} (inert : isInert n = true)
    (removals : List (Option Span)) :
    staysIn removals n = true := by
  have own : isSpecifierPart n.kind = true :=
    List.all_eq_true.1 inert _ (mem_subnodes.2 .here)
  obtain ⟨k, s, ns⟩ := n
  cases k <;> first | rfl | cases own

/-- The declaration of temporaries is plain. -/
theorem isPlain_varStatement (names : List String) :
    isPlain (varStatement names) = true := by
  have missing : isPlain .none = true :=
    isPlain_node.2 ⟨rfl, List.forall_mem_nil _⟩
  have each n (hn : n ∈ (varStatement names).children) :
      isDeclarator n.kind = true ∧ isPlain n = true := by
    obtain ⟨x, -, rfl⟩ := List.mem_map.1 hn
    refine ⟨rfl, isPlain_node.2
      ⟨rfl, List.forall_mem_cons.2 ⟨?_, List.forall_mem_singleton.2 missing⟩⟩⟩
    exact isPlain_node.2 ⟨rfl, List.forall_mem_singleton.2 missing⟩
  refine isPlain_node.2 ⟨?_, fun n hn => (each n hn).2⟩
  rw [plainAt, Bool.and_eq_true, Bool.and_eq_true]
  refine ⟨⟨List.all_eq_true.2 fun n hn => (each n hn).1,
    List.all_eq_true.2 fun n hn => ?_⟩, rfl⟩
  obtain ⟨x, -, rfl⟩ := List.mem_map.1 hn
  rfl

/-- A block of plain statements stays plain where temporaries are declared in
it. -/
theorem isPlain_declareIn {s : Option Span}
    (plain : isPlain (.node .block s ns) = true) (names : List String) :
    isPlain (.node .block s (declareIn names ns)) = true := by
  obtain ⟨here, below⟩ := isPlain_node.1 plain
  rw [plainAt, Bool.and_eq_true, Bool.and_eq_true] at here
  obtain ⟨⟨-, noImports⟩, -⟩ := here
  have members {n : Node} (hn : n ∈ declareIn names ns) : n ∈ ns ∨
      n = varStatement names := by
    rcases declareIn_eq names ns with ⟨same, -⟩ | ⟨front, back, same, rfl⟩
    · exact .inl (same ▸ hn)
    · rw [same, List.mem_append, List.mem_cons] at hn
      rw [List.mem_append]
      tauto
  refine isPlain_node.2 ⟨?_, fun n hn => ?_⟩
  · rw [plainAt, Bool.and_eq_true, Bool.and_eq_true]
    refine ⟨⟨rfl, List.all_eq_true.2 fun n hn => ?_⟩, rfl⟩
    rcases members hn with hn | rfl
    · exact List.all_eq_true.1 noImports n hn
    · rfl
  · rcases members hn with hn | rfl
    · exact below n hn
    · exact isPlain_varStatement names

/-- The body of an arrow function that declares temporaries is plain. -/
theorem stays_arrowBody {n : Node} (plain : isPlain n = true)
    (body : n.kind = .block ∨ isExpression n.kind = true) (names : List String)
    (m : Node) :
    StaysPlain .arrowBody m (arrowBody names n) := by
  refine ⟨?_, fun other => absurd rfl other, fun _ => ?_⟩
  · unfold arrowBody
    split
    · exact isPlain_declareIn plain names
    · rename_i noBlock
      have isExpr : isExpression n.kind = true := by
        refine body.resolve_left fun isBlock => ?_
        obtain ⟨k, s, ns⟩ := n
        cases isBlock
        exact noBlock _ _ rfl
      split
      · exact (tidies_unwrapConditional n plain).plain
      · have unwrapped := tidies_unwrap n plain
        have value : isPlain (made .returnStmt [unwrap n]) = true := by
          refine isPlain_node.2
            ⟨?_, List.forall_mem_singleton.2 unwrapped.plain⟩
          rw [plainAt, List.all_cons, noImport_of_isOperand
            (isOperand_of_isExpression (unwrapped.kind.expression isExpr))]
          rfl
        exact isPlain_node.2 ⟨rfl, List.forall_mem_cons.2
          ⟨isPlain_varStatement names, List.forall_mem_singleton.2 value⟩⟩
  · unfold arrowBody
    split
    · exact .inl rfl
    · split
      · exact (tidies_unwrapConditional n plain).toReplaces.body body
      · exact .inl rfl

theorem plain_plannedArguments {plan : Plan} {n arguments : Node}
    (planned : plannedArguments? plan n = some arguments)
    (plain : isPlain n = true) :
    ∀ m ∈ arguments.children, isPlain m = true := by
  have inside := occurs_of_planned planned
  obtain ⟨k, s, ns⟩ := n
  obtain ⟨k', s', ms⟩ := arguments
  exact (isPlain_node.1 ((isPlain_node.1 plain).2 _ inside)).2

/-- The call of a helper becomes a plain expression. -/
theorem plainFor_call {plan : Plan} {n arguments : Node}
    {arguments' : List Node} {policy : ChainPolicy} {chain : AccessChain}
    (planned : plannedArguments? plan n = some arguments)
    (plain : isPlain n = true)
    (children : Each StaysPlain
      (argumentTreatments arguments.children) arguments.children arguments')
    (taken : decompose policy n.span (arguments'.map unwrapItem) = .ok chain)
    (u : String) :
    PlainFor n (chain.expression u) := by
  obtain ⟨s, callee, rest, rfl, -⟩ := planned_cases planned
  obtain ⟨here, -⟩ := isPlain_node.1 plain
  rw [plainAt, Bool.and_eq_true, Bool.and_eq_true] at here
  obtain ⟨operands, isList⟩ :=
    Bool.and_eq_true_iff.1 (Bool.and_eq_true_iff.1 here.1.1).1
  have second := List.all_eq_true.1 operands arguments
    (List.mem_cons_of_mem _ List.mem_cons_self)
  have items n (hn : n ∈ arguments.children) : isExpression n.kind = true := by
    obtain ⟨k, l, ns⟩ := arguments
    have isList : k = .list := eq_of_beq isList
    subst isList
    exact List.all_eq_true.1 second n hn
  have all n (hn : n ∈ arguments'.map unwrapItem) : PlainExpression n := by
    obtain ⟨m', hm', rfl⟩ := List.mem_map.1 hn
    obtain ⟨m, hm, plainFor⟩ :=
      exists_of_forall₂ (plainFor_of_each children noArrowBody_arguments) hm'
    have unwrapped := tidies_unwrapItem m' plainFor.plain
    exact ⟨unwrapped.plain,
      unwrapped.kind.expression (plainFor.kind.expression (items m hm))⟩
  obtain ⟨base, steps⟩ := plain_decompose taken all
  obtain ⟨isPlain', isExpr⟩ := plain_expression (u := u) base steps
  exact ⟨replaces_of_expression (.inl rfl) isExpr, isPlain'⟩

/-- **A plain script stays plain when it is rewritten**, however its nodes are
treated. -/
theorem rewrites_plain (rewritten : Rewrites setting js ns ns' h a)
    (fit : AllFit js ns) (plain : AllPlain js ns) :
    Each StaysPlain js ns ns' := by
  induction rewritten with
  | nil => exact .nil
  | cons head tail ih ih' =>
    exact .cons (ih (.single fit.head) (.one plain.head)).single
      (ih' fit.tail plain.tail)
  | keep n =>
    exact .cons (.of_plainFor (by decide) (.refl plain.head.plain)) .nil
  | @node k s ns ns' h a notProgram unplanned children ih =>
    exact .cons (stays_node plain.head.plain (rewrites_kept children
      (fit_treatments fit.head.regular)) (ih (fit_treatments fit.head.regular)
      (plain_treatments plain.head.plain))) .nil
  | program children all ih => cases fit.head.inner
  | @items k s ns ns' h a children ih =>
    obtain ⟨parts, below, outer⟩ := regular_node.1 fit.head.regular
    have list : k = .list := eq_of_beq (fit.head.items rfl)
    subst list
    have stay := plainFor_of_each
      (ih (fit_place fun n hn => ⟨below n hn, outer n hn⟩) (.plain
      (isPlain_node.1 plain.head.plain).2 noArrowBody_place)) noArrowBody_place
    have whole : isPlain (.node .list s ns') = true :=
      isPlain_of_parts plain.head.plain stay Bool.noConfusion
    refine .cons (.of_plainFor (by decide) ⟨⟨.refl _, fun _ m' hm' => ?_,
      fun inert => ?_⟩, isPlain_filter whole rfl _ rfl⟩) .nil
    · obtain ⟨m, hm, plainFor⟩ :=
        exists_of_forall₂ stay (List.mem_of_mem_filter hm')
      exact ⟨m, hm, plainFor.kind⟩
    · rw [eq_of_inert stay fun n hn => isInert_child inert hn]
      congr 1
      exact List.filter_eq_self.2 fun n hn => staysIn_of_inert
        (isInert_child inert hn) _
  | @block s ns ns' names h a children all ih =>
    obtain ⟨parts, below, outer⟩ := regular_node.1 fit.head.regular
    have stay := plainFor_of_each
      (ih (fit_place fun n hn => ⟨below n hn, outer n hn⟩) (.plain
      (isPlain_node.1 plain.head.plain).2 noArrowBody_place)) noArrowBody_place
    have whole : isPlain (.node .block s ns') = true :=
      isPlain_of_parts plain.head.plain stay Bool.noConfusion
    exact .cons (.of_plainFor (by decide) ⟨replaces_same Kind.noConfusion rfl _
      _, isPlain_declareIn (isPlain_filter whole rfl _ rfl) _⟩) .nil
  | noBlock notBlock inPlace ih =>
    have stays := (ih (.single (fit_plain fit.head.regular fit.head.inner
      (by decide) (by decide))) (.single plain.head.plain (by decide))).single
    exact .cons
      (.of_plainFor (by decide) ⟨stays.replaces (by decide), stays.plain⟩) .nil
  | @function k s ns ns' h a parts ih =>
    have fits := fit.head.function rfl
    cases k with
    | function b g =>
      have stay : Each StaysPlain (treatments (.function b g) ns) ns ns' :=
        ih (fit_treatments fit.head.regular) (plain_treatments plain.head.plain)
      have stay := plainFor_of_each stay (noArrowBody fun _ => Kind.noConfusion)
      exact .cons (.of_plainFor (by decide) ⟨replaces_same Kind.noConfusion rfl
        _ _, isPlain_of_parts plain.head.plain stay Bool.noConfusion⟩) .nil
    | _ => cases fits
  | @arrowBody n n' names h a inPlace all ih =>
    have stays := (ih (.single (fit_plain fit.head.regular fit.head.inner
      (by decide) (by decide))) (.single plain.head.plain (by decide))).single
    exact .cons (stays_arrowBody stays.plain
      ((stays.replaces (by decide)).body (plain.head.body rfl)) _ _) .nil
  | @base n arguments arguments' chain h a planned children taken bare ih =>
    have parts := ih (fit_arguments
      (regular_plannedArguments planned fit.head.regular)) (.plain
      (plain_plannedArguments planned plain.head.plain) noArrowBody_arguments)
    exact .cons (.of_plainFor (by decide)
      (plainFor_call planned plain.head.plain parts taken _)) .nil
  | @guarded n arguments arguments' chain t h a planned children taken
      needed ih =>
    have parts := ih (fit_arguments
      (regular_plannedArguments planned fit.head.regular)) (.plain
      (plain_plannedArguments planned plain.head.plain) noArrowBody_arguments)
    exact .cons (.of_plainFor (by decide)
      (plainFor_call planned plain.head.plain parts taken _)) .nil
  | @callbackArrow b s parameters body body' types h a inner ih =>
    obtain ⟨-, below, outer⟩ := regular_node.1 fit.head.regular
    have second : body ∈ parameters :: body :: types :=
      List.mem_cons_of_mem _ List.mem_cons_self
    obtain ⟨first, -, rest⟩ : isPlain parameters = true ∧ isPlain body = true ∧
        ∀ n ∈ types, isPlain n = true := by
      simpa only [List.forall_mem_cons]
        using (isPlain_node.1 plain.head.plain).2
    have stays := (ih (.single (fit_plain (below _ second)
      (outer _ second) (by decide) (by decide))) (.single
      ((isPlain_node.1 plain.head.plain).2 _ second) (by decide))).single
    have arrow := isPlain_arrow plain.head.plain (.refl first)
      ⟨stays.plain, fun other => absurd rfl other, fun _ =>
      (stays.replaces (by decide)).body (body_of_arrow plain.head.plain)⟩
      (List.forall₂_same.2 fun n hn => .refl (rest n hn))
    exact .cons (.of_plainFor (by decide)
      ⟨replaces_same Kind.noConfusion rfl _ _, arrow⟩) .nil
  | @callbackInside k s n n' h a wraps arrow inner ih =>
    obtain ⟨parts, below, outer⟩ := regular_node.1 fit.head.regular
    have stays := (ih (.single (fit_plain (below _ List.mem_cons_self)
      (outer _ List.mem_cons_self) (by decide) (by decide)))
      (.single ((isPlain_node.1 plain.head.plain).2 _ List.mem_cons_self)
      (by decide))).single
    have part : List.Forall₂ PlainFor [n] [n'] :=
      .cons ⟨stays.replaces (by decide), stays.plain⟩ .nil
    rcases wraps with rfl | rfl
    · exact .cons (.of_plainFor (by decide) ⟨replaces_same Kind.noConfusion rfl
        _ _, isPlain_of_parts plain.head.plain part Bool.noConfusion⟩) .nil
    · exact .cons (.of_plainFor (by decide) ⟨replaces_same Kind.noConfusion rfl
        _ _, isPlain_of_parts plain.head.plain part Bool.noConfusion⟩) .nil
  | noCallback notArrow notInside inPlace ih =>
    have stays := (ih (.single (fit_plain fit.head.regular fit.head.inner
      (by decide) (by decide))) (.single plain.head.plain (by decide))).single
    exact .cons
      (.of_plainFor (by decide) ⟨stays.replaces (by decide), stays.plain⟩) .nil

end Rewriting

end NullGuard.Transform
