import NullGuard.Proofs.Frame
import NullGuard.Proofs.Hygiene
import NullGuard.Proofs.Subtrees

/-!
# The declarations that a plan leaves

The declarations of a program are listed by kind and span (`declarationsAmong`),
so that they can be found again in the result. How tidying up changes this list
is quickly said, because most of it changes nothing (`LeavesDeclarations`), and
so is what the expression of a chain has (`declarationsAmong_expression`).

`Leaves` lists what a plan leaves of the declarations in some nodes, following
the nodes. Three facts make it a description of what is left: these are the
declarations that stand (`Leaves.mem_iff`), they are in their order
(`Leaves.sublist`), and what is dropped from a node that stands is listed less
often (`Leaves.count_lt`).
-/

namespace NullGuard.Transform

open NullGuard.Text (Span)
open NullGuard.Tree NullGuard.Chain NullGuard.Scope

/-- Whether nodes of a kind are declarations by themselves: imports and exports,
declarators, and what has a name. -/
def isDeclaring : Kind → Bool
  | .importDecl _ | .importEquals _ _ | .exportDecl | .exportNamed _ _
      | .exportDefaultDecl | .exportDefaultExpr
  | .exportAll _ | .exportAssignment | .exportAsNamespace | .declarator _
      | .usingDecl _ | .fnDecl _ | .classDecl _
  | .interfaceDecl _ | .typeAlias _ | .enumDecl _ _ | .moduleDecl _ _ => true
  | _ => false

/-- The declarations in some nodes that were read, in order, with their
spans. -/
def declarationsAmong (ns : List Node) : List (Kind × Option Span) :=
  ((subnodesAmong ns).filter fun n => isDeclaring n.kind && n.span.isSome).map
    fun n => (n.kind, n.span)

/-- The declaration that a node is, if it is one. -/
def ownDeclaration (k : Kind) (s : Option Span) : List (Kind × Option Span) :=
  if isDeclaring k && s.isSome then [(k, s)] else []

section Listing

variable {removals : List (Option Span)} {n : Node} {k : Kind} {s : Option Span}
  {ns ms : List Node} {f : Node → Node} {names : List String} {c : AccessChain}
  {t : String}

@[simp] theorem declarationsAmong_nil : declarationsAmong [] = [] :=
  rfl

@[simp] theorem declarationsAmong_append :
    declarationsAmong (ns ++ ms) = declarationsAmong ns ++
      declarationsAmong ms := by
  rw [declarationsAmong, subnodesAmong_append, List.filter_append,
    List.map_append]
  rfl

theorem declarationsAmong_cons (n : Node) (ns : List Node) :
    declarationsAmong (n :: ns) = declarationsAmong [n] ++
      declarationsAmong ns := by
  rw [← List.singleton_append, declarationsAmong_append]

theorem declarationsAmong_node :
    declarationsAmong [.node k s ns] = ownDeclaration k s ++
      declarationsAmong ns := by
  rw [declarationsAmong, subnodesAmong, subnodesAmong, List.append_nil,
    subnodes, List.filter_cons, ownDeclaration, Node.kind_node, Node.span_node]
  split <;> rfl

/-- A node that is no declaration has those of its children. -/
theorem declarationsAmong_inside (plain : isDeclaring k = false) :
    declarationsAmong [.node k s ns] = declarationsAmong ns := by
  rw [declarationsAmong_node, ownDeclaration, plain]
  rfl

/-- A node that was made is none of the declarations that were read. -/
theorem declarationsAmong_made :
    declarationsAmong [made k ns] = declarationsAmong ns := by
  rw [made, declarationsAmong_node, ownDeclaration, Option.isSome_none,
    Bool.and_false]
  rfl

theorem mem_declarationsAmong {d : Kind × Option Span} :
    d ∈ declarationsAmong ns ↔ ∃ n ∈ ns, ∃ m, Occurs m n ∧ isDeclaring m.kind =
      true ∧ m.span.isSome = true ∧ (m.kind, m.span) = d := by
  simp only [declarationsAmong, List.mem_map, List.mem_filter,
    mem_subnodesAmong, mem_subnodes, Bool.and_eq_true]
  constructor
  · rintro ⟨m, ⟨⟨n, hn, occurs⟩, declares, given⟩, rfl⟩
    exact ⟨n, hn, m, occurs, declares, given, rfl⟩
  · rintro ⟨n, hn, m, occurs, declares, given, rfl⟩
    exact ⟨m, ⟨⟨n, hn, occurs⟩, declares, given⟩, rfl⟩

/-- A change to a node that leaves its declarations alone. -/
def LeavesDeclarations (f : Node → Node) : Prop :=
  ∀ n, declarationsAmong [f n] = declarationsAmong [n]

theorem LeavesDeclarations.map (alone : LeavesDeclarations f) (ns : List Node) :
    declarationsAmong (ns.map f) = declarationsAmong ns := by
  induction ns with
  | nil => rfl
  | cons n ns ih =>
    rw [List.map_cons, declarationsAmong_cons, alone, ih,
      ← declarationsAmong_cons]

theorem LeavesDeclarations.modify (alone : LeavesDeclarations f) (i : Nat)
    (ns : List Node) :
    declarationsAmong (ns.modify i f) = declarationsAmong ns := by
  induction ns generalizing i with
  | nil => rw [List.modify_nil]
  | cons n ns ih =>
    cases i with
    | zero =>
      rw [List.modify_zero_cons, declarationsAmong_cons, alone,
        ← declarationsAmong_cons]
    | succ i =>
      rw [List.modify_succ_cons, declarationsAmong_cons, ih,
        ← declarationsAmong_cons]

theorem leavesDeclarations_unwrap : LeavesDeclarations unwrap := by
  intro n
  unfold unwrap
  split
  · rw [declarationsAmong_inside rfl]
  · rfl

theorem leavesDeclarations_unwrapConditional :
    LeavesDeclarations unwrapConditional := by
  intro n
  unfold unwrapConditional
  split
  · rw [declarationsAmong_inside (k := .paren) rfl]
  · rfl

theorem leavesDeclarations_unwrapItem : LeavesDeclarations unwrapItem := by
  intro n
  unfold unwrapItem
  split
  · rw [declarationsAmong_inside rfl, declarationsAmong_inside rfl,
      leavesDeclarations_unwrap]
  · exact leavesDeclarations_unwrap n

theorem leavesDeclarations_mapItems :
    LeavesDeclarations (mapItems unwrapItem) := by
  intro n
  unfold mapItems
  split
  · rw [declarationsAmong_inside rfl, declarationsAmong_inside rfl,
      leavesDeclarations_unwrapItem.map]
  · rfl

/-- A declaration without declarators declares nothing. -/
theorem declarationsAmong_emptied (empty : isEmptied n = true) :
    declarationsAmong [n] = [] := by
  unfold isEmptied at empty
  split at empty
  · rw [declarationsAmong_inside rfl, declarationsAmong_nil]
  · cases empty

theorem leavesDeclarations_loneStatement :
    LeavesDeclarations loneStatement := by
  intro n
  unfold loneStatement
  split
  · rename_i empty
    rw [declarationsAmong_emptied empty, declarationsAmong_inside rfl,
      declarationsAmong_nil]
  · rfl

theorem leavesDeclarations_loopStart : LeavesDeclarations loopStart := by
  intro n
  unfold loopStart
  split
  · rename_i empty
    rw [declarationsAmong_emptied empty, Node.none,
      declarationsAmong_inside rfl, declarationsAmong_nil]
  · rfl

theorem declarationsAmong_varStatement :
    declarationsAmong [varStatement names] = [] := by
  rw [varStatement, declarationsAmong_made]
  induction names with
  | nil => rfl
  | cons x names ih =>
    have missing : declarationsAmong [.none] = [] := by
      rw [Node.none, declarationsAmong_inside rfl, declarationsAmong_nil]
    rw [List.map_cons, declarationsAmong_cons, ih, declarationsAmong_made,
      declarationsAmong_cons _ [.none], declarationsAmong_made, missing]
    rfl

theorem declarationsAmong_declareIn :
    declarationsAmong (declareIn names ns) = declarationsAmong ns := by
  rcases declareIn_eq names ns with ⟨same, -⟩ | ⟨front, back, same, rfl⟩
  · rw [same]
  · rw [same, declarationsAmong_append, declarationsAmong_cons,
      declarationsAmong_varStatement, declarationsAmong_append, List.nil_append]

theorem declarationsAmong_arrowBody :
    declarationsAmong [arrowBody names n] = declarationsAmong [n] := by
  unfold arrowBody
  split
  · rw [declarationsAmong_inside rfl, declarationsAmong_inside rfl,
      declarationsAmong_declareIn]
  · split
    · exact leavesDeclarations_unwrapConditional n
    · rw [declarationsAmong_made, declarationsAmong_cons,
        declarationsAmong_varStatement, declarationsAmong_made,
        leavesDeclarations_unwrap, List.nil_append]

theorem declarationsAmong_temporary : declarationsAmong [temporary t] = [] := by
  rw [temporary, declarationsAmong_made, declarationsAmong_nil]

theorem declarationsAmong_apply {object : Node} {l : Level} :
    declarationsAmong [l.apply object] = declarationsAmong [object] ++
      declarationsAmong (levelPieces l) := by
  have list (arguments : List Node) (types : Node) :
      declarationsAmong [Node.ofList arguments, types] =
      declarationsAmong (arguments ++ [types]) := by
    rw [declarationsAmong_cons, Node.ofList, declarationsAmong_inside rfl,
      declarationsAmong_append]
  cases l with
  | member property =>
    rw [Level.apply, declarationsAmong_made, declarationsAmong_cons]
    rfl
  | call arguments types =>
    have pieces : levelPieces (.call arguments types) = arguments ++ [types] :=
      List.append_nil _
    rw [Level.apply, declarationsAmong_made, declarationsAmong_cons,
      list, pieces]
  | method property arguments types =>
    have pieces : levelPieces (.method property arguments types) = property ::
        (arguments ++ [types]) :=
      congrArg (property :: ·) (List.append_nil _)
    rw [Level.apply, declarationsAmong_made,
      declarationsAmong_cons (made .member _), list, declarationsAmong_made,
      declarationsAmong_cons object [property], pieces,
      declarationsAmong_cons property (arguments ++ [types]), List.append_assoc]

theorem declarationsAmong_guarded {value more : Node} :
    declarationsAmong [guarded s t value more] = declarationsAmong [value] ++
      declarationsAmong [more] := by
  have none : declarationsAmong [made .null []] = [] := by
    rw [declarationsAmong_made, declarationsAmong_nil]
  rw [guarded, declarationsAmong_inside rfl, declarationsAmong_cons _
    [more, temporary t], declarationsAmong_cons more [temporary t],
    declarationsAmong_made, declarationsAmong_cons _ [made .null []],
    none, parenthesized, declarationsAmong_made, declarationsAmong_made,
    declarationsAmong_cons (temporary t) [value], declarationsAmong_temporary,
    List.nil_append, List.append_nil, List.append_nil]

theorem declarationsAmong_guardedLevels {ls : List Level} :
    declarationsAmong [guardedLevels t ls] =
      declarationsAmong (ls.flatMap levelPieces) := by
  fun_induction guardedLevels t ls with
  | case1 => exact declarationsAmong_temporary
  | case2 last =>
    rw [declarationsAmong_apply, declarationsAmong_temporary, List.flatMap_cons,
      List.flatMap_nil, List.append_nil, List.nil_append]
  | case3 level rest _ ih =>
    rw [declarationsAmong_guarded, declarationsAmong_apply,
      declarationsAmong_temporary, ih, List.flatMap_cons,
      declarationsAmong_append, List.nil_append]

/-- The expression of a chain has the declarations of its pieces. -/
theorem declarationsAmong_expression :
    declarationsAmong [c.expression t] =
      declarationsAmong (c.base :: pieces c.steps) := by
  have grouped := flatMap_levels c.steps
  unfold AccessChain.expression
  split
  · rename_i none
    rw [none] at grouped
    rw [parenthesized, declarationsAmong_made, ← grouped, List.flatMap_nil]
  · rw [parenthesized, declarationsAmong_made, declarationsAmong_guarded,
      declarationsAmong_guardedLevels, grouped, ← declarationsAmong_cons]

end Listing

/-- Whether a node in a node of a kind is a declaration that goes away:
an import, or a declarator behind `var`, `let` or `const`. -/
def isDropped (removals : List (Option Span)) : Kind → Node → Bool
  | .varDecl _ _, n => removals.contains n.span
  | _, n => isImport n.kind && removals.contains n.span

/-- The children of a node without the declarations that go away. -/
def leftChildren (removals : List (Option Span)) (k : Kind) (ns : List Node) :
    List Node :=
  ns.filter fun n => !isDropped removals k n

/-- **The declarations that a plan leaves in some nodes**, in order: those that
are not in a declaration that goes away and, where a call to rewrite is around
them, are in a part that the call takes along. -/
inductive Leaves (plan : Plan) :
    List Node → List (Kind × Option Span) → Prop where
  | nil : Leaves plan [] []
  | node {k : Kind} {s : Option Span} {ms ns : List Node}
      {ds es : List (Kind × Option Span)}
      (unplanned : plannedArguments? plan (.node k s ms) = none)
      (within : Leaves plan (leftChildren plan.removals k ms) ds)
      (rest : Leaves plan ns es) :
      Leaves plan (.node k s ms :: ns) (ownDeclaration k s ++ ds ++ es)
  | call {n arguments : Node} {ns : List Node}
      {ds es : List (Kind × Option Span)}
      (planned : plannedArguments? plan n = some arguments)
      (within : Leaves plan (callParts plan arguments.children) ds)
      (rest : Leaves plan ns es) :
      Leaves plan (n :: ns) (ds ++ es)

/-- **A node stands in another one**, for a plan: nothing around it goes away,
and of a call to rewrite it is in a part that the call takes along. -/
inductive Stands (plan : Plan) (n : Node) : Node → Prop where
  | here : Stands plan n n
  | inside {k : Kind} {s : Option Span} {ns : List Node} {c : Node}
      (unplanned : plannedArguments? plan (.node k s ns) = none) (hc : c ∈ ns)
      (left : isDropped plan.removals k c = false) (rest : Stands plan n c) :
      Stands plan n (.node k s ns)
  | part {m arguments c : Node}
      (planned : plannedArguments? plan m = some arguments)
      (taken : c ∈ callParts plan arguments.children) (rest : Stands plan n c) :
      Stands plan n m

section Leaves

variable {plan : Plan} {n m : Node} {k : Kind} {s : Option Span}
  {ns ms : List Node} {ds es : List (Kind × Option Span)}

theorem Leaves.append (left : Leaves plan ns ds) (right : Leaves plan ms es) :
    Leaves plan (ns ++ ms) (ds ++ es) := by
  induction left with
  | nil => exact right
  | node unplanned within rest _ ih =>
    rw [List.append_assoc]
    exact .node unplanned within ih
  | call planned within rest _ ih =>
    rw [List.append_assoc]
    exact .call planned within ih

/-- What a node that is no call to rewrite leaves. -/
theorem Leaves.single (unplanned : plannedArguments? plan (.node k s ms) = none)
    (within : Leaves plan (leftChildren plan.removals k ms) ds) :
    Leaves plan [.node k s ms] (ownDeclaration k s ++ ds) := by
  have whole := Leaves.node (s := s) unplanned within .nil
  rwa [List.append_nil] at whole

/-- What a call to rewrite leaves. -/
theorem Leaves.ofCall {arguments : Node}
    (planned : plannedArguments? plan n = some arguments)
    (within : Leaves plan (callParts plan arguments.children) ds) :
    Leaves plan [n] ds := by
  have whole := Leaves.call planned within .nil
  rwa [List.append_nil] at whole

/-- What is in a node that stands and does not go away stands. -/
theorem Stands.child {p c : Node} (stands : Stands plan p n)
    (unplanned : plannedArguments? plan p = none) (hc : c ∈ p.children)
    (left : isDropped plan.removals p.kind c = false) : Stands plan c n := by
  obtain ⟨k, s, ns⟩ := p
  induction stands with
  | here => exact .inside unplanned hc left .here
  | inside unplanned' hc' left' _ ih => exact .inside unplanned' hc' left' ih
  | part planned taken _ ih => exact .part planned taken ih

theorem mem_leftChildren {removals : List (Option Span)} :
    n ∈ leftChildren removals k ns ↔
      n ∈ ns ∧ isDropped removals k n = false := by
  rw [leftChildren, List.mem_filter, Bool.not_eq_true']

theorem mem_ownDeclaration {d : Kind × Option Span} :
    d ∈ ownDeclaration k s ↔ isDeclaring k = true ∧ s.isSome = true ∧
      (k, s) = d := by
  unfold ownDeclaration
  split
  · rename_i declares
    rw [Bool.and_eq_true] at declares
    rw [List.mem_singleton]
    exact ⟨fun same => ⟨declares.1, declares.2, same.symm⟩, fun h => h.2.2.symm⟩
  · rename_i none
    refine ⟨nofun, fun h => absurd ?_ none⟩
    rw [h.1, h.2.1]
    rfl

/-- **The declarations that are left are those that stand.** -/
theorem Leaves.mem_iff (h : Leaves plan ns ds) {d : Kind × Option Span} :
    d ∈ ds ↔ ∃ n ∈ ns, ∃ m, Stands plan m n ∧ isDeclaring m.kind = true ∧
      m.span.isSome = true ∧ (m.kind, m.span) = d := by
  induction h with
  | nil => simp
  | @node k s ms ns ds es unplanned within rest ih ih' =>
    rw [List.mem_append, List.mem_append, ih, ih', mem_ownDeclaration,
      List.exists_mem_cons_iff]
    refine or_congr ⟨?_, ?_⟩ Iff.rfl
    · rintro (⟨declares, given, same⟩ | ⟨c, hc, m, stands, rest⟩)
      · exact ⟨_, .here, declares, given, same⟩
      · obtain ⟨hc, left⟩ := mem_leftChildren.1 hc
        exact ⟨m, .inside unplanned hc left stands, rest⟩
    · rintro ⟨m, stands, rest⟩
      cases stands with
      | here => exact .inl rest
      | inside _ hc left stands =>
        exact .inr ⟨_, mem_leftChildren.2 ⟨hc, left⟩, m, stands, rest⟩
      | part planned => cases planned.symm.trans unplanned
  | @call n arguments ns ds es planned within rest ih ih' =>
    rw [List.mem_append, ih, ih', List.exists_mem_cons_iff]
    refine or_congr ⟨?_, ?_⟩ Iff.rfl
    · rintro ⟨c, hc, m, stands, rest⟩
      exact ⟨m, .part planned hc stands, rest⟩
    · rintro ⟨m, stands, rest⟩
      cases stands with
      | here =>
        rw [kind_of_planned planned] at rest
        cases rest.1
      | inside unplanned => cases planned.symm.trans unplanned
      | part planned' taken stands =>
        cases planned.symm.trans planned'
        exact ⟨_, taken, m, stands, rest⟩

theorem subnodesAmong_cons (n : Node) (ns : List Node) :
    subnodesAmong (n :: ns) = subnodesAmong [n] ++ subnodesAmong ns := by
  rw [← List.singleton_append, subnodesAmong_append]

theorem sublist_of_mem (hn : n ∈ ns) :
    (subnodesAmong [n]).Sublist (subnodesAmong ns) := by
  induction ns with
  | nil => cases hn
  | cons m ns ih =>
    rw [subnodesAmong_cons m ns]
    rcases List.mem_cons.1 hn with rfl | hn
    · exact List.sublist_append_left _ _
    · exact (ih hn).trans (List.sublist_append_right _ _)

theorem sublist_children :
    (subnodesAmong ns).Sublist (subnodesAmong [.node k s ns]) := by
  rw [subnodesAmong, subnodesAmong, List.append_nil, subnodes]
  exact List.sublist_cons_self _ _

theorem sublist_filter (f : Node → Bool) :
    (subnodesAmong (ns.filter f)).Sublist (subnodesAmong ns) := by
  induction ns with
  | nil => exact List.nil_sublist _
  | cons n ns ih =>
    rw [List.filter_cons, subnodesAmong_cons n ns]
    split
    · rw [subnodesAmong_cons n (ns.filter f)]
      exact ih.append_left _
    · exact ih.trans (List.sublist_append_right _ _)

/-- The base of a call with arguments is in the call. -/
theorem sublist_base {k' : Kind} {l : Option Span} {callee base : Node}
    {others rest : List Node} :
    (subnodesAmong [base]).Sublist (subnodesAmong
      [.node k s (callee :: .node k' l (base :: others) :: rest)]) :=
  (sublist_of_mem List.mem_cons_self).trans
    (sublist_children.trans ((sublist_of_mem
    (List.mem_cons_of_mem _ List.mem_cons_self)).trans sublist_children))

/-- What stands behind the parts of the first child stands behind it. -/
theorem sublist_first {parts rest : List Node}
    (first : (subnodesAmong parts).Sublist (subnodesAmong [n])) :
    (subnodesAmong (parts ++ rest)).Sublist
      (subnodesAmong [.node k s (n :: rest)]) := by
  rw [subnodesAmong_append]
  refine List.Sublist.trans (first.append_right _) ?_
  rw [← subnodesAmong_cons]
  exact sublist_children

/-- What a body takes along stands in it, in its order. -/
theorem sublist_chainParts (plan : Plan) (n : Node) :
    (subnodesAmong (chainParts plan n)).Sublist (subnodesAmong [n]) := by
  fun_induction chainParts plan n with
  | case1 s object property ih => exact sublist_first ih
  | case2 s callee k l rest planned base others ih =>
    exact ih.trans sublist_base
  | case3 => exact List.nil_sublist _
  | case4 s callee k l arguments rest unplanned ih => exact sublist_first ih
  | case5 s inner ih => exact ih.trans sublist_children
  | case6 => exact List.nil_sublist _

theorem sublist_callbackParts (plan : Plan) (n : Node) :
    (subnodesAmong (callbackParts plan n)).Sublist (subnodesAmong [n]) := by
  fun_induction callbackParts plan n with
  | case1 b s parameters body types =>
    exact (sublist_chainParts plan body).trans ((sublist_of_mem
      (List.mem_cons_of_mem _ List.mem_cons_self)).trans sublist_children)
  | case2 s callee k l base others rest planned ih =>
    exact ih.trans sublist_base
  | case3 => exact List.nil_sublist _
  | case4 s inner ih => exact ih.trans sublist_children
  | case5 => exact List.nil_sublist _

/-- The parts of a call to rewrite stand in it, in their order. -/
theorem sublist_planned {arguments : Node}
    (planned : plannedArguments? plan n = some arguments) :
    (subnodesAmong (callParts plan arguments.children)).Sublist
      (subnodesAmong [n]) := by
  obtain ⟨s, callee, types, rfl, -⟩ := planned_cases planned
  obtain ⟨k, l, items⟩ := arguments
  have parts : (subnodesAmong (callParts plan items)).Sublist
      (subnodesAmong items) := by
    unfold callParts
    split
    · rename_i base callback rest
      rw [subnodesAmong_cons base (callbackParts plan callback),
        subnodesAmong_cons base (callback :: rest)]
      exact ((sublist_callbackParts plan callback).trans
        (sublist_of_mem List.mem_cons_self)).append_left _
    · exact List.nil_sublist _
  have inList : (subnodesAmong items).Sublist
      (subnodesAmong [.node k l items]) := sublist_children
  refine (parts.trans inList).trans ?_
  exact (sublist_of_mem (List.mem_cons_of_mem _ List.mem_cons_self)).trans
    sublist_children

/-- What stands in a node occurs in it. -/
theorem Stands.occurs (stands : Stands plan m n) : Occurs m n := by
  induction stands with
  | here => exact .here
  | inside _ hc _ _ ih => exact .inside hc ih
  | part planned taken _ ih =>
    have inside := (sublist_planned planned).subset
      (mem_subnodesAmong.2 ⟨_, taken, mem_subnodes.2 ih⟩)
    obtain ⟨n, hn, occurs⟩ := mem_subnodesAmong.1 inside
    cases List.mem_singleton.1 hn
    exact mem_subnodes.1 occurs

/-- Fewer nodes have fewer declarations. -/
theorem declarationsAmong_sublist
    (fewer : (subnodesAmong ns).Sublist (subnodesAmong ms)) :
    (declarationsAmong ns).Sublist (declarationsAmong ms) :=
  (fewer.filter _).map _

/-- **The declarations that are left are in their order.** -/
theorem Leaves.sublist (h : Leaves plan ns ds) :
    ds.Sublist (declarationsAmong ns) := by
  induction h with
  | nil => exact List.nil_sublist _
  | @node k s ms ns ds es unplanned within rest ih ih' =>
    rw [declarationsAmong_cons, declarationsAmong_node]
    have filtered := ih.trans (declarationsAmong_sublist (sublist_filter _))
    exact ((List.Sublist.refl _).append filtered).append ih'
  | @call n arguments ns ds es planned within rest ih ih' =>
    rw [declarationsAmong_cons]
    exact List.Sublist.append
      (ih.trans (declarationsAmong_sublist (sublist_planned planned))) ih'

/-- A node that is dropped takes its declarations out of the list. -/
theorem count_filter_lt {f : Node → Bool} (hn : n ∈ ns) (dropped : f n = false)
    {d : Kind × Option Span} (inside : d ∈ declarationsAmong [n]) :
    (declarationsAmong (ns.filter f)).count d <
      (declarationsAmong ns).count d := by
  induction ns with
  | nil => cases hn
  | cons m ns ih =>
    rw [List.filter_cons, declarationsAmong_cons m ns, List.count_append]
    rcases List.mem_cons.1 hn with rfl | hn
    · rw [dropped]
      have below : (subnodesAmong (ns.filter f)).Sublist (subnodesAmong ns) :=
        sublist_filter f
      have fewer := (declarationsAmong_sublist below).count_le d
      have some := List.count_pos_iff.2 inside
      exact Nat.lt_of_le_of_lt fewer (Nat.lt_add_of_pos_left some)
    · have fewer := ih hn
      split
      · rw [declarationsAmong_cons m (ns.filter f), List.count_append]
        omega
      · omega

/-- **What goes away right in a node that stands is listed less often** among
what is left. -/
theorem Leaves.count_lt (h : Leaves plan ns ds) {p c : Node} (hn : n ∈ ns)
    (stands : Stands plan p n) (unplanned : plannedArguments? plan p = none)
    (hc : c ∈ p.children) (dropped : isDropped plan.removals p.kind c = true)
    {d : Kind × Option Span} (inside : d ∈ declarationsAmong [c]) :
    ds.count d < (declarationsAmong ns).count d := by
  induction h generalizing n with
  | nil => cases hn
  | @node k s ms ns ds es unplanned' within rest ih ih' =>
    rw [declarationsAmong_cons, declarationsAmong_node, List.count_append,
      List.count_append, List.count_append, List.count_append]
    have fewer := within.sublist.count_le d
    have filtered : (declarationsAmong (leftChildren plan.removals k ms)).count
        d ≤ (declarationsAmong ms).count d :=
      (declarationsAmong_sublist (sublist_filter _)).count_le d
    have others := rest.sublist.count_le d
    rcases List.mem_cons.1 hn with rfl | hn
    · cases stands with
      | here =>
        have less : (declarationsAmong (leftChildren plan.removals k ms)).count
            d < (declarationsAmong ms).count d :=
          count_filter_lt hc (congrArg Bool.not dropped) inside
        omega
      | inside _ hc' left stands =>
        have less := ih (mem_leftChildren.2 ⟨hc', left⟩) stands
        omega
      | part planned => cases planned.symm.trans unplanned'
    · have less := ih' hn stands
      omega
  | @call n' arguments ns ds es planned within rest ih ih' =>
    rw [declarationsAmong_cons, List.count_append, List.count_append]
    have parts :=
      (declarationsAmong_sublist (sublist_planned planned)).count_le d
    have fewer := within.sublist.count_le d
    have others := rest.sublist.count_le d
    rcases List.mem_cons.1 hn with rfl | hn
    · cases stands with
      | here => cases planned.symm.trans unplanned
      | inside unplanned' => cases planned.symm.trans unplanned'
      | part planned' taken stands =>
        cases planned.symm.trans planned'
        have less := ih taken stands
        omega
    · have less := ih' hn stands
      omega

end Leaves

end NullGuard.Transform
