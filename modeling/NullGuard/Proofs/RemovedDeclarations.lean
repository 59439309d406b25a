import NullGuard.Proofs.EmptiedDeclarations
import NullGuard.Proofs.StandingDeclarations

/-!
# Removed declarations

A transformation decides once, on the plan, which declarations of helpers go
away, and the rewrite drops them in many places. `declarations_go_as_planned`
compares the declarations of the result with those of the program: they are what
the plan leaves, in the same order, and a declaration that lost all its
declarators is the head of a loop over a collection.

That nodes of a result have the declarations that a plan leaves (`LeftIn`) is
conveyed by calls that are taken apart, so a rewrite is followed as in
`rewrites_pass`. The step is `leftIn_finish`: from a node drops just what goes
away right in it, and what has no declarators left. `rewrites_leave` is the
induction.
-/

namespace NullGuard.Transform

open NullGuard.Text (Span)
open NullGuard.Tree NullGuard.Chain NullGuard.Scope

/-- Some nodes of a result have the declarations that a plan leaves of some
nodes of a program. -/
def LeftIn (plan : Plan) (ns ns' : List Node) : Prop :=
  Leaves plan ns (declarationsAmong ns')

theorem conveyance_leftIn (plan : Plan) : Conveyance plan (LeftIn plan) where
  nil := .nil
  append left right := by
    rw [LeftIn, declarationsAmong_append]
    exact left.append right
  list left := by rwa [LeftIn, declarationsAmong_inside rfl] at left
  item left := by rwa [LeftIn, leavesDeclarations_unwrapItem]
  items left := by rwa [LeftIn, leavesDeclarations_mapItems]
  call {n arguments base callback c} t planned given span empty left := by
    rw [LeftIn, declarationsAmong_expression]
    refine .ofCall planned ?_
    rwa [given, callParts]

section Leaving

variable {setting : Setting} {plan : Plan} {j : Treatment} {js : List Treatment}
  {n n' : Node} {k : Kind} {s : Option Span} {ns ns' ms : List Node}
  {h : List String} {a : List RewrittenCall}

/-- Nodes in which nothing goes away and no call is to be rewritten keep what
they declare. -/
theorem leftIn_self
    (unplanned : ∀ m ∈ subnodes n, plannedArguments? plan m = none)
    (stay : ∀ m ∈ subnodes n, ∀ c ∈ m.children,
      isDropped plan.removals m.kind c = false) : LeftIn plan [n] [n] := by
  induction n using Node.induct with
  | step k s ns ih =>
    have all : leftChildren plan.removals k ns = ns :=
      List.filter_eq_self.2 fun c hc => congrArg Bool.not
        (stay _ (mem_subnodes.2 .here) c hc)
    have below : ∀ ms ⊆ ns, LeftIn plan ms ms := by
      intro ms
      induction ms with
      | nil => exact fun _ => .nil
      | cons m ms ih' =>
        intro part
        obtain ⟨hm, rest⟩ := List.cons_subset.1 part
        have first := ih m hm (fun l hl => unplanned l
          (mem_subnodes.2 (.inside hm (mem_subnodes.1 hl)))) fun l hl =>
          stay l (mem_subnodes.2 (.inside hm (mem_subnodes.1 hl)))
        exact (conveyance_leftIn plan).append first (ih' rest)
    rw [LeftIn, declarationsAmong_node]
    refine .single (unplanned _ (mem_subnodes.2 .here)) ?_
    rw [all]
    exact below ns (List.Subset.refl ns)

/-- From other nodes than declarations of variables only imports are dropped. -/
theorem isDropped_import {removals : List (Option Span)}
    (other : ∀ w d, k ≠ .varDecl w d) (n : Node) :
    isDropped removals k n = (isImport n.kind && removals.contains n.span) := by
  unfold isDropped
  split
  · exact absurd rfl (other _ _)
  · rfl

/-- A plan without removals drops nothing. -/
theorem isDropped_nil : isDropped [] k n = false := by
  unfold isDropped
  split
  · rfl
  · exact Bool.and_false _

/-- Nothing goes away where neither variables nor imports are. -/
theorem isDropped_of_kind {removals : List (Option Span)}
    (noVariables : isVariables k = false) (noImport : isImport n.kind = false) :
    isDropped removals k n = false := by
  rw [isDropped_import (by rintro w d rfl; cases noVariables), noImport,
    Bool.false_and]

/-- Dropping from the result what is dropped from the program, or declares
nothing, leaves what has to be left. -/
theorem leftIn_filter {f : Node → Bool}
    (pairs : List.Forall₂ (fun n n' => LeftIn plan [n] [n'] ∧ (f n' = true →
      isDropped plan.removals k n = false) ∧ (f n' = false → isDropped
      plan.removals k n = true ∨ declarationsAmong [n'] = [])) ns ns') :
    LeftIn plan (leftChildren plan.removals k ns) (ns'.filter f) := by
  induction pairs with
  | nil => exact .nil
  | @cons n n' ns ns' head tail ih =>
    obtain ⟨left, kept, gone⟩ := head
    rw [leftChildren, List.filter_cons, List.filter_cons]
    cases stays : f n' with
    | true =>
      rw [kept stays]
      exact (conveyance_leftIn plan).append left ih
    | false =>
      cases dropped : isDropped plan.removals k n with
      | true => exact ih
      | false =>
        have nothing : declarationsAmong [n'] = [] :=
          (gone stays).resolve_left (by rw [dropped]; exact Bool.false_ne_true)
        rw [LeftIn, nothing] at left
        exact left.append ih

/-- Tidying up drops no declaration but declarators. -/
theorem declarationsAmong_tidy {removals : List (Option Span)}
    (other : ∀ w d, k ≠ .varDecl w d) :
    declarationsAmong (tidy removals k ns) = declarationsAmong ns := by
  unfold tidy
  split <;> try split
  all_goals first
    | rfl
    | exact absurd rfl (other _ _)
    | simp only [leavesDeclarations_unwrap.modify,
        leavesDeclarations_unwrap.map, leavesDeclarations_unwrapItem.map,
        leavesDeclarations_unwrapConditional.modify,
        leavesDeclarations_mapItems.modify,
        leavesDeclarations_loneStatement.modify,
        leavesDeclarations_loopStart.modify]

/-- What becomes of several nodes that are rewritten in place. -/
theorem placed_pairs
    (pass : Each (Passes plan (LeftIn plan)) (ns.map fun _ => .place) ns ns')
    (kept : AllKept (ns.map fun _ => .place) ns ns') :
    List.Forall₂ (fun n n' => LeftIn plan [n] [n'] ∧ Stays n n') ns ns' := by
  induction ns generalizing ns' with
  | nil =>
    cases pass
    exact .nil
  | cons n ns ih =>
    cases pass with
    | cons head tail =>
      cases kept with
      | cons kept rest =>
        exact .cons ⟨head.conveyed (by simp), kept.stays rfl⟩ (ih tail rest)

/-- Dropping items from a sequence of statements leaves what has to be left. -/
theorem leftIn_items (same : setting.removals = plan.removals)
    (other : ∀ w d, k ≠ .varDecl w d)
    (pairs : List.Forall₂ (fun n n' => LeftIn plan [n] [n'] ∧
      Stays n n') ns ns') :
    LeftIn plan (leftChildren plan.removals k ns)
      (ns'.filter (staysIn setting.removals)) := by
  refine leftIn_filter (pairs.imp fun n n' ⟨left, stays⟩ => ?_)
  rw [isDropped_import other, same]
  cases isImported : isImport n'.kind with
  | true =>
    have both : n'.kind = n.kind ∧ n'.span = n.span :=
      stays.resolve_right fun isCall => by
      rw [isCall.2] at isImported
      cases isImported
    have decided : staysIn plan.removals n' = !plan.removals.contains n.span :=
      by
      unfold staysIn
      split
      · rw [both.2]
      · rename_i none
        unfold isImport at isImported
        split at isImported
        · exact absurd ‹_› (none _)
        · cases isImported
    rw [decided, ← both.1, isImported, Bool.true_and, Bool.not_eq_true',
      Bool.not_eq_false']
    exact ⟨left, id, .inl⟩
  | false =>
    have notImport : isImport n.kind = false := by
      rcases stays with ⟨same, -⟩ | ⟨isCall, -⟩
      · rwa [same] at isImported
      · rw [isCall]
        rfl
    rw [notImport, Bool.false_and]
    refine ⟨left, fun _ => rfl, fun gone => .inr (declarationsAmong_emptied ?_)⟩
    unfold staysIn at gone
    split at gone
    · rename_i isImport'
      rw [isImport'] at isImported
      cases isImported
    · rwa [Bool.not_eq_false'] at gone

/-- Nothing goes away right in a node that is neither a declaration of variables
nor a sequence of statements. -/
theorem leftChildren_of_kind (placed : WellPlaced (.node k s ns))
    (other : ∀ w d, k ≠ .varDecl w d) (noItems : takesImports k = false)
    (removals : List (Option Span)) :
    leftChildren removals k ns = ns := by
  refine List.filter_eq_self.2 fun c hc => ?_
  obtain ⟨i, there⟩ := List.mem_iff_getElem?.1 hc
  obtain ⟨-, imports, -⟩ := placedAt_iff.1 (placed.at there)
  have noImport : isImport c.kind = false := by
    rw [← Bool.not_eq_true]
    exact fun isImported => by cases noItems.symm.trans (imports isImported)
  rw [isDropped_import other, noImport]
  rfl

/-- **What becomes of the children of a node has what has to be left of
them.** -/
theorem leftIn_finish (same : setting.removals = plan.removals)
    (arranged : Arranged .place (.node k s ns))
    (notProgram : isProgram k = false)
    (pass : Each (Passes plan (LeftIn plan)) (treatments k ns) ns ns')
    (kept : AllKept (treatments k ns) ns ns') :
    LeftIn plan (leftChildren plan.removals k ns)
      (finish setting.removals k ns') := by
  have inside : LeftIn plan ns ns' :=
    (conveyance_leftIn plan).all pass notCallback_of_treatments
  by_cases isDeclared : ∃ w d, k = .varDecl w d
  · obtain ⟨w, d, rfl⟩ := isDeclared
    have pairs := (List.forall₂_and_left ..).2
      ⟨declarators_of_written arranged.written w d rfl, placed_pairs pass kept⟩
    refine leftIn_filter
      (pairs.imp fun n n' ⟨declares, left, stays⟩ => ⟨left, ?_⟩)
    have span : n'.span = n.span := by
      rcases stays with ⟨-, same⟩ | ⟨isCall, -⟩
      · exact same
      · rw [isCall] at declares
        cases declares
    rw [span, same, Bool.not_eq_true', Bool.not_eq_false']
    exact ⟨id, .inl⟩
  · have other : ∀ w d, k ≠ .varDecl w d :=
      fun w d isDecl => isDeclared ⟨w, d, isDecl⟩
    by_cases isItems : k = .block ∨ k = .moduleBlock
    · rcases isItems with rfl | rfl
      · exact leftIn_items same other (placed_pairs pass kept)
      · exact leftIn_items same other (placed_pairs pass kept)
    · have tidied : finish setting.removals k ns' =
          tidy setting.removals k ns' := by
        unfold finish
        split
        · exact absurd (.inl rfl) isItems
        · exact absurd (.inr rfl) isItems
        · rfl
      have noItems : takesImports k = false := by
        unfold takesImports
        split
        · cases notProgram
        · exact absurd (.inl rfl) isItems
        · exact absurd (.inr rfl) isItems
        · rfl
      have all :=
        leftChildren_of_kind arranged.placed other noItems plan.removals
      rw [all, LeftIn, tidied, declarationsAmong_tidy other]
      exact inside

/-- A node that keeps its kind and span has what has to be left of it if its
children have. -/
theorem leftIn_node (unplanned : plannedArguments? plan (.node k s ns) = none)
    (inside : LeftIn plan (leftChildren plan.removals k ns) ms) :
    LeftIn plan [.node k s ns] [.node k s ms] := by
  rw [LeftIn, declarationsAmong_node]
  exact .single unplanned inside

/-- **Every rewrite leaves of declarations what its plan leaves**, where all
planned calls are accounted for. -/
theorem rewrites_leave (same : setting.removals = setting.plan.removals)
    (rewritten : Rewrites setting js ns ns' h a) (arranged : AllArranged js ns)
    (accounted : Accounted setting.plan ns a) :
    Each (Passes setting.plan (LeftIn setting.plan)) js ns ns' := by
  have closed := conveyance_leftIn setting.plan
  induction rewritten with
  | nil => exact .nil
  | cons head tail ih ih' =>
    exact .cons (ih (.single arranged.head) (accounted.head tail)).single
      (ih' arranged.tail (accounted.tail head))
  | keep n =>
    refine .cons (.of_conveyed (by simp) (by simp) (by simp) ?_) .nil
    refine leftIn_self (accounted.unplanned n List.mem_cons_self)
      fun m hm c hc => ?_
    have inside : c ∈ subnodes n := by
      obtain ⟨k, s, ns⟩ := m
      exact mem_subnodes.2 (.trans (.inside hc .here) (mem_subnodes.1 hm))
    exact isDropped_of_kind (arranged.head.aside rfl m hm).1
      (arranged.head.aside rfl c inside).2
  | @node k s ns ns' h a notProgram unplanned children ih =>
    have pass :=
      ih (arranged_treatments arranged.head.toParsed) accounted.children
    have kept :=
      rewrites_kept children (arranged_treatments arranged.head.toParsed).fit
    refine .cons ⟨fun _ => ?_,
      fun _ => chain_node closed setting.removals unplanned pass, fun _ _ _ _ _
      _ isArrow => callback_node setting.removals pass isArrow⟩ .nil
    exact leftIn_node unplanned
      (leftIn_finish same arranged.head notProgram pass kept)
  | program => cases arranged.head.inner
  | @items k s ns ns' h a children ih =>
    have isList : k = .list := eq_of_beq (arranged.head.items rfl)
    subst isList
    have all := arranged_place arranged.head.toParsed (by simp)
    refine .cons (.of_conveyed (by simp) (by simp) (by simp) ?_) .nil
    refine leftIn_node (unplanned_of_kind (by simp))
      (leftIn_items same (by simp) ?_)
    exact placed_pairs (ih all accounted.children)
      (rewrites_kept children all.fit)
  | @block s ns ns' names h a children _ ih =>
    have all := arranged_place arranged.head.toParsed (by simp)
    refine .cons (.of_conveyed (by simp) (by simp) (by simp) ?_) .nil
    refine leftIn_node (unplanned_of_kind (by simp)) ?_
    rw [LeftIn, declarationsAmong_declareIn]
    exact leftIn_items same (by simp) (placed_pairs (ih all accounted.children)
      (rewrites_kept children all.fit))
  | noBlock notBlock inPlace ih =>
    have pass :=
      (ih (.single (arranged.head.inPlace (by simp))) accounted).single
    exact .cons (.of_conveyed (by simp) (by simp) (by simp)
      (pass.conveyed (by simp))) .nil
  | @function k s ns ns' h a parts ih =>
    have fits := arranged.head.function rfl
    cases k with
    | function b g =>
      have all : AllArranged (treatments (.function b g) ns) ns :=
        arranged_treatments arranged.head.toParsed
      have pass : Each (Passes setting.plan (LeftIn setting.plan))
          (treatments (.function b g) ns) ns ns' :=
        ih all accounted.children
      have inside := closed.all pass notCallback_of_treatments
      have left := leftChildren_of_kind arranged.head.placed
        (by simp) rfl setting.plan.removals
      refine .cons (.of_conveyed (by simp) (by simp) (by simp)
        (leftIn_node (unplanned_of_kind (by simp)) ?_)) .nil
      rwa [left]
    | _ => cases fits
  | arrowBody inPlace _ ih =>
    have pass :=
      (ih (.single (arranged.head.inPlace (by simp))) accounted).single
    refine .cons ⟨fun _ => ?_, fun _ policy name steps spine => ?_, ?_⟩ .nil
    · rw [LeftIn, declarationsAmong_arrowBody]
      exact pass.conveyed (by simp)
    · exact pass.chain (.inl rfl) policy name steps (spine_of_arrowBody spine)
    · rintro (same | same) <;> cases same
  | base planned children taken _ ih | guarded planned children taken _ ih =>
    have pass := ih (arranged_arguments planned arranged.head.toParsed)
      (accounted.arguments planned)
    exact .cons (passes_call closed _ planned pass taken) .nil
  | @callbackArrow b s parameters body body' types h a inner ih =>
    have second : body ∈ parameters :: body :: types :=
      List.mem_cons_of_mem _ List.mem_cons_self
    have fewer s : times s [body] ≤ times s (parameters :: body :: types) := by
      rw [times_cons parameters (body :: types), times_cons body types]
      omega
    have part := arranged.head.toParsed.operand (by simp) second (.inl rfl)
    exact .cons
      (ih (.single part) (accounted.children.mono fewer)).single.arrow .nil
  | @callbackInside k s n n' h a wraps _ inside ih =>
    have noCase : k ≠ .switchCase := by rcases wraps with rfl | rfl <;> simp
    have part :=
      arranged.head.toParsed.operand noCase List.mem_cons_self (.inr rfl)
    exact .cons
      (.inside wraps (ih (.single part) accounted.children).single) .nil
  | noCallback _ _ inPlace ih =>
    exact .cons (ih (.single (arranged.head.inPlace (by simp)))
      accounted).single.asCallback .nil

end Leaving

/-- **What becomes of the declarations of a program** under a plan. -/
structure RemovalsMade (plan : Plan) (tree result : Node) : Prop where
  /-- What is left is in its order. -/
  order : (declarationsAmong [result]).Sublist (declarationsAmong [tree])
  /-- What stands is left. -/
  left (d : Kind × Option Span) :
      d ∈ declarationsAmong [result] ↔ ∃ n, Stands plan n tree ∧
        isDeclaring n.kind = true ∧ n.span.isSome = true ∧ (n.kind, n.span) = d
  /-- An import or declarator in a node that stands is gone just if its helper
  is to be removed, and `using` does not declare it. -/
  gone (p c : Node) :
      Stands plan p tree → plannedArguments? plan p = none → c ∈ p.children →
        isDeclaration c.kind = true → c.span.isSome = true → ((c.kind, c.span) ∉
        declarationsAmong [result] ↔ (∃ h ∈ plan.helpers, h.isRemovable = true ∧
        h.declaration = c.span) ∧ ∀ b, p.kind ≠ .usingDecl b)
  /-- Only the heads of loops over collections are left without declarators. -/
  heads : ∀ m ∈ subnodes result, ∀ i c, m.children[i]? = some c →
    isEmptied c = true → isPass m.kind = true ∧
    i = 0

section Removals

variable {plan : Plan} {tree result n p c : Node} {k : Kind} {s : Option Span}

theorem mem_removals :
    s ∈ plan.removals ↔ ∃ h ∈ plan.helpers, h.isRemovable = true ∧
      h.declaration = s := by
  simp only [Plan.removals, List.mem_eraseDups, List.mem_map,
    List.mem_filter, and_assoc]

theorem isDeclaring_of_isDeclaration (declares : isDeclaration k = true) :
    isDeclaring k = true := by
  cases k <;> first | rfl | cases declares

/-- Imports and declarators are listed once. -/
theorem count_declaration (apart : DeclaredApart tree)
    (declares : isDeclaration k = true) :
    (declarationsAmong [tree]).count (k, s) ≤ 1 := by
  have once :
      ((declarationsAmong [tree]).filter fun d => isDeclaration d.1).Nodup := by
    refine .of_map Prod.snd (apart.sublist ?_)
    rw [declarationsAmong, subnodesAmong, subnodesAmong, List.append_nil,
      List.filter_map, List.map_map]
    exact (List.Sublist.filter _ List.filter_sublist).map _
  rw [← List.count_filter (p := fun d => isDeclaration d.1) declares]
  exact List.nodup_iff_count_le_one.1 once _

/-- In a program that was read, imports and declarators go away by the list of
the plan alone, save with `using`. -/
theorem isDropped_iff (placed : WellPlaced p) (hc : c ∈ p.children)
    (declares : isDeclaration c.kind = true) {removals : List (Option Span)} :
    isDropped removals p.kind c = true ↔ c.span ∈ removals ∧
      ∀ b, p.kind ≠ .usingDecl b := by
  obtain ⟨k, s, ns⟩ := p
  obtain ⟨i, there⟩ := List.mem_iff_getElem?.1 hc
  obtain ⟨-, imports, declarators, -⟩ := placedAt_iff.1 (placed.at there)
  rw [← List.contains_iff_mem, Node.kind_node]
  by_cases isDeclared : ∃ w d, k = .varDecl w d
  · obtain ⟨w, d, rfl⟩ := isDeclared
    exact ⟨fun gone => ⟨gone, by simp⟩, And.left⟩
  have other : ∀ w d, k ≠ .varDecl w d :=
    fun w d same => isDeclared ⟨w, d, same⟩
  rw [isDropped_import other]
  cases isImported : isImport c.kind with
  | true =>
    have takes := imports isImported
    refine ⟨fun gone => ⟨gone, fun b isUsing => ?_⟩, And.left⟩
    rw [isUsing] at takes
    cases takes
  | false =>
    -- Declarators stand behind `var` and its like, or behind `using`.
    rw [isDeclaration, isImported, Bool.false_or] at declares
    refine iff_of_false Bool.false_ne_true fun gone => ?_
    have behind := declarators declares
    unfold isVariables at behind
    split at behind
    · exact other _ _ rfl
    · exact gone.2 _ rfl
    · cases behind

theorem removalsMade (leaves : Leaves plan [tree] (declarationsAmong [result]))
    (fills : Everywhere Fills [result]) (placed : WellPlaced tree)
    (apart : DeclaredApart tree) :
    RemovalsMade plan tree result where
  order := leaves.sublist
  left d := by
    rw [leaves.mem_iff]
    simp
  gone p c stands unplanned hc declares given := by
    have placed' : WellPlaced p := fun m hm => placed m
      (mem_subnodes.2 ((mem_subnodes.1 hm).trans stands.occurs))
    have declaring := isDeclaring_of_isDeclaration declares
    rw [← mem_removals, ← isDropped_iff placed' hc declares]
    constructor
    · intro absent
      rw [← Bool.not_eq_false]
      intro left
      refine absent (leaves.mem_iff.2 ⟨tree, List.mem_cons_self, c,
        stands.child unplanned hc left, declaring, given, rfl⟩)
    · intro dropped present
      have own : (c.kind, c.span) ∈ declarationsAmong [c] :=
        mem_declarationsAmong.2 ⟨c, List.mem_cons_self, c, .here,
          declaring, given, rfl⟩
      have less :=
        leaves.count_lt List.mem_cons_self stands unplanned hc dropped own
      have once := count_declaration (s := c.span) apart declares
      have some := List.count_pos_iff.2 present
      omega
  heads m hm := fills m (mem_subnodesAmong_single.2 hm)

end Removals

section Performed

variable {options : Options} {text : String} {tree : Node}
  {comments : CommentMap} {transformed : Transformed}

/-- A transformation makes the removals of its plan. -/
theorem Performed.removals (p : Performed options tree comments transformed)
    (wellRead : WellRead tree) (written : Written tree)
    (placed : WellPlaced tree) (apart : DeclaredApart tree) :
    RemovalsMade p.plan tree transformed.tree := by
  have exports := p.exported_stays wellRead.regular written apart
  have parsed : Parsed tree :=
    ⟨wellRead.regular, wellRead.shaped, written, placed⟩
  obtain ⟨h, a, rewritten, -⟩ := p.rewrites
  have accounted := p.accounted wellRead rewritten
  obtain ⟨b, i, s, ns, ns', names, h', rfl, result, -, children, -⟩ :=
    rewrites_program wellRead.isProgram rewritten
  have arranged := arranged_place parsed (by simp)
  have pairs := placed_pairs (rewrites_leave rfl children arranged
    accounted.children) (rewrites_kept children arranged.fit)
  have clears := rewrites_clear children arranged fun t ht =>
    exports t (exportedAmong_node.2 (.inr ht))
  rw [result]
  refine removalsMade (leftIn_node (unplanned_of_kind (by simp)) ?_) ?_
    placed apart
  · rw [LeftIn, declarationsAmong_declareIn]
    exact leftIn_items rfl (by simp) pairs
  · exact (filled_node (by simp)
      (filled_declareIn (filled_items clears))).everywhere

/-- **The declarations of a program go as its plan says.** A transformation that
succeeds skips the program, or reports the helpers that its plan removes and
makes these removals. What is left of the declarations is left in its order; it
is what stands in no declaration that goes away and, of a call that is
rewritten, in a part that is taken along. An import or declarator is gone just
if its helper is among those that are reported, save that `using` keeps its
declarators; and where a declaration has lost all its declarators, it is the
head of a loop over a collection. -/
theorem declarations_go_as_planned (wellRead : WellRead tree)
    (written : Written tree) (placed : WellPlaced tree)
    (apart : DeclaredApart tree)
    (h : transformProgram options text tree comments = .ok transformed) :
    (mayReferenceHelper text options = false ∧
      transformed = ⟨tree, comments, { isSkipped := true }⟩) ∨
      ∃ analysis plan, analyze options.importName tree = .ok analysis ∧
      Transform.plan analysis.table = .ok plan ∧
      transformed.report.removed =
        (plan.helpers.filter HelperPlan.isRemovable).map HelperPlan.name ∧
      RemovalsMade plan tree transformed.tree := by
  rcases transformProgram_ok h
    with ⟨notThere, rfl⟩ | ⟨analysis, analyzed, planned, rfl⟩ | ⟨⟨p⟩⟩
  · exact .inl ⟨notThere, rfl⟩
  · have leaves : Leaves ⟨[]⟩ [tree] (declarationsAmong [tree]) :=
      leftIn_self (fun m _ => unplanned_of_no_helpers m) fun _ _ _ _ =>
        isDropped_nil
    have fills :=
      (filled_written (List.forall_mem_singleton.2 written)).everywhere
    exact .inr ⟨analysis, ⟨[]⟩, analyzed, planned, rfl,
      removalsMade leaves fills placed apart⟩
  · refine .inr ⟨p.analysis, p.plan, p.analyzed, p.planned, ?_,
      p.removals wellRead written placed apart⟩
    rw [p.report]
    rfl

end Performed

/-- A program that requires the helper in the head of a loop over a
collection. -/
def requiringLoopText : String :=
  "for (var idx = require('idx') in x) idx(a, _ => _.b);"

/-- The tree of `requiringLoopText`. -/
def requiringLoop : Node :=
  let required := readAt .call 15 29 [readAt (.ident "require") 15 22 [],
    .ofList [readAt (.str "'idx'" (some "idx")) 23 28 []], .none]
  let head := readAt (.varDecl .var false) 5 29 [readAt (.declarator false) 9 29
    [readAt (.bindingIdent "idx" false) 9 12 [.none], required]]
  let body := readAt .member 48 51 [readAt (.ident "_") 48 49 [],
    readAt (.propName "b") 50 51 []]
  let callback := readAt (.arrow false) 43 51 [.ofList
    [readAt (.bindingIdent "_" false) 43 44 [.none]], body, .none, .none]
  let call := readAt .call 36 52 [readAt (.ident "idx") 36 39 [],
    .ofList [readAt (.ident "a") 40 41 [], callback], .none]
  readAt (.program false none) 0 53 [readAt .forIn 0 53
    [head, readAt (.ident "x") 33 34 [], readAt .exprStmt 36 53 [call]]]

theorem wellRead_requiringLoop : WellRead requiringLoop :=
  ⟨rfl, by decide +kernel, by decide +kernel, by decide +kernel,
    by decide +kernel⟩

/-- The variable is removed as the report says, and the head of the loop
declares nothing then. -/
theorem declarations_go_as_planned_requiringLoop :
    ∃ transformed plan, transformProgram {} requiringLoopText requiringLoop {} =
      .ok transformed ∧
      transformed.report.removed = ["idx"] ∧ RemovalsMade plan requiringLoop
        transformed.tree ∧ ∃ m ∈ subnodes transformed.tree, m.kind = .forIn ∧
        ∃ c, m.children[0]? = some c ∧ isEmptied c = true := by
  obtain ⟨transformed, done⟩ : ∃ transformed, transformProgram
      {} requiringLoopText requiringLoop {} = .ok transformed :=
    ⟨_, rfl⟩
  have removed : transformed.report.removed = ["idx"] := by
    cases done
    rfl
  have emptied : ∃ m ∈ subnodes transformed.tree, m.kind = .forIn ∧
      ∃ c, m.children[0]? = some c ∧ isEmptied c = true := by
    cases done
    refine ⟨_, mem_subnodes.2 (.inside
      (List.mem_cons_of_mem _ List.mem_cons_self) .here), rfl, _, rfl, rfl⟩
  rcases declarations_go_as_planned wellRead_requiringLoop
    (by unfold Written; decide +kernel) (by unfold WellPlaced; decide +kernel)
    (by unfold DeclaredApart; decide +kernel) done with
    ⟨notThere, -⟩ | ⟨_, plan, _, _, _, made⟩
  · exact absurd notThere (by decide +kernel)
  · exact ⟨transformed, plan, done, removed, made, emptied⟩

end NullGuard.Transform
