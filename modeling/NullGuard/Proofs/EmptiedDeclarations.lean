import NullGuard.Proofs.ExportedHelpers
import NullGuard.Proofs.Placement
import NullGuard.Proofs.Subtrees

/-!
# Declarations that have lost all declarators

When the last declarator of a declaration of variables goes away, the
declaration has to go as well. A rewrite looks after this where such
declarations may stand: in lists of statements, as lone statements, and as the
start of a loop. Nothing looks after the head of a loop over a collection, and
nothing has to behind `export`, where helpers stay.

`Fills` says of a node that it is all right in this sense, and `Filled` of
several nodes that they are and can be put into any place. `filled_finish` is
the step for the children of a node, and `rewrites_clear` the induction.
-/

namespace NullGuard.Transform

open NullGuard.Text (Span)
open NullGuard.Tree NullGuard.Chain NullGuard.Scope

/-- What has lost all declarators among some nodes stands at some places. -/
def EmptiedAt (S : Nat → Prop) (ns : List Node) : Prop :=
  ∀ i n, ns[i]? = some n → isEmptied n = true → S i

section EmptiedAt

variable {S : Nat → Prop} {ns : List Node} {f : Node → Node} {i : Nat}

/-- Where there is no such node, there is none anywhere. -/
theorem EmptiedAt.of_none (none : ∀ n ∈ ns, isEmptied n = false) :
    EmptiedAt S ns := by
  intro i n there empty
  cases (none n (List.mem_of_getElem? there)).symm.trans empty

theorem EmptiedAt.none (h : EmptiedAt S ns) (nowhere : ∀ i, ¬ S i) :
    ∀ n ∈ ns, isEmptied n = false := by
  intro n hn
  obtain ⟨i, there⟩ := List.mem_iff_getElem?.1 hn
  rw [← Bool.not_eq_true]
  exact fun empty => nowhere i (h i n there empty)

/-- A change that leaves no such node behind takes its place away. -/
theorem EmptiedAt.modify (h : EmptiedAt S ns)
    (fresh : ∀ n, isEmptied (f n) = false) (i : Nat) :
    EmptiedAt (fun j => S j ∧ j ≠ i) (ns.modify i f) := by
  intro j n there empty
  rw [List.getElem?_modify] at there
  split at there
  · rename_i same
    obtain ⟨m, -, rfl⟩ := Option.map_eq_some_iff.1 there
    cases (fresh m).symm.trans empty
  · rename_i other
    exact ⟨h j n (by simpa using there) empty, Ne.symm other⟩

theorem isEmptied_of_kind {n : Node} (other : ∀ w d, n.kind ≠ .varDecl w d) :
    isEmptied n = false := by
  unfold isEmptied
  split
  · exact absurd rfl (other _ _)
  · rfl

theorem isEmptied_loneStatement (n : Node) :
    isEmptied (loneStatement n) = false := by
  unfold loneStatement
  split
  · rfl
  · rwa [← Bool.not_eq_true]

theorem isEmptied_loopStart (n : Node) : isEmptied (loopStart n) = false := by
  unfold loopStart
  split
  · rfl
  · rwa [← Bool.not_eq_true]

theorem isEmptied_of_staysIn {removals : List (Option Span)} {n : Node}
    (stays : staysIn removals n = true) : isEmptied n = false := by
  unfold staysIn at stays
  split at stays
  · rename_i isImport
    exact isEmptied_of_kind (by rw [isImport]; simp)
  · rwa [Bool.not_eq_true'] at stays

end EmptiedAt

/-- Right in a node, only the head of a loop over a collection is a declaration
without declarators. -/
def Fills (n : Node) : Prop :=
  EmptiedAt (fun i => isPass n.kind = true ∧ i = 0) n.children

/-- There are no declarations without declarators in some nodes, but the heads
of loops over collections. -/
structure Filled (ns : List Node) : Prop where
  everywhere : Everywhere Fills ns
  here : ∀ n ∈ ns, isEmptied n = false

section Filled

variable {n : Node} {k : Kind} {s : Option Span} {ns ms : List Node}
  {names : List String} {policy : ChainPolicy}

theorem filled_nil : Filled [] :=
  ⟨everywhere_nil, nofun⟩

theorem filled_append : Filled (ns ++ ms) ↔ Filled ns ∧ Filled ms := by
  constructor
  · rintro ⟨all, here⟩
    obtain ⟨left, right⟩ := everywhere_append.1 all
    obtain ⟨here, there⟩ := List.forall_mem_append.1 here
    exact ⟨⟨left, here⟩, right, there⟩
  · rintro ⟨⟨left, here⟩, right, there⟩
    exact ⟨everywhere_append.2 ⟨left, right⟩,
      List.forall_mem_append.2 ⟨here, there⟩⟩

theorem filled_cons : Filled (n :: ns) ↔ Filled [n] ∧ Filled ns := by
  rw [← List.singleton_append, filled_append]

/-- A node that is no declaration of variables can be put around such nodes. -/
theorem filled_node (other : ∀ w d, k ≠ .varDecl w d) (h : Filled ns) :
    Filled [.node k s ns] :=
  ⟨everywhere_node.2 ⟨.of_none h.here, h.everywhere⟩,
    List.forall_mem_singleton.2 (isEmptied_of_kind other)⟩

/-- What is in a node that is no loop over a collection. -/
theorem filled_children (notPass : isPass k = false)
    (all : Everywhere Fills [.node k s ns]) : Filled ns := by
  obtain ⟨own, below⟩ := everywhere_node.1 all
  refine ⟨below, EmptiedAt.none own fun _ isHead => ?_⟩
  cases notPass.symm.trans isHead.1

theorem chaining_filled : Chaining Filled where
  nil := filled_nil
  append := filled_append
  node s ms chained h := filled_node (by rintro w d rfl; cases chained) h

/-- Tidying up puts no declaration into a place where there was none. -/
theorem Trims.fills (trims : Trims ns ms) (all : Everywhere Fills ns) :
    Everywhere Fills ms ∧
      ((∀ n ∈ ns, isEmptied n = false) → ∀ m ∈ ms, isEmptied m = false) := by
  induction trims with
  | nil => exact ⟨everywhere_nil, fun _ => nofun⟩
  | keep n rest ih =>
    obtain ⟨first, others⟩ := everywhere_cons.1 all
    obtain ⟨inRest, ofRest⟩ := ih others
    refine ⟨everywhere_cons.2 ⟨first, inRest⟩, fun here => ?_⟩
    obtain ⟨own, there⟩ := List.forall_mem_cons.1 here
    exact List.forall_mem_cons.2 ⟨own, ofRest there⟩
  | drop n rest ih =>
    obtain ⟨inRest, ofRest⟩ := ih (everywhere_cons.1 all).2
    exact ⟨inRest, fun here => ofRest (List.forall_mem_cons.1 here).2⟩
  | @gone n k ns ms empty rest ih =>
    obtain ⟨inRest, ofRest⟩ := ih (everywhere_cons.1 all).2
    have new : Filled [.node k none []] :=
      filled_node (by rcases empty with rfl | rfl <;> simp) filled_nil
    refine ⟨everywhere_cons.2 ⟨new.everywhere, inRest⟩, fun here => ?_⟩
    exact List.forall_mem_cons.2 ⟨new.here _ List.mem_cons_self,
      ofRest (List.forall_mem_cons.1 here).2⟩
  | unwrap inner rest ih =>
    obtain ⟨first, others⟩ := everywhere_cons.1 all
    obtain ⟨inRest, ofRest⟩ := ih others
    have inside := filled_children rfl first
    refine ⟨everywhere_cons.2 ⟨inside.everywhere, inRest⟩, fun here => ?_⟩
    exact List.forall_mem_cons.2 ⟨inside.here _ List.mem_cons_self,
      ofRest (List.forall_mem_cons.1 here).2⟩
  | @within k s ns ms ns' ms' wraps inside rest ih ih' =>
    obtain ⟨first, others⟩ := everywhere_cons.1 all
    obtain ⟨inRest, ofRest⟩ := ih' others
    have before :=
      filled_children (by rcases wraps with rfl | rfl <;> rfl) first
    obtain ⟨inner, ofInner⟩ := ih before.everywhere
    have new : Filled [.node k s ms] :=
      filled_node (by rcases wraps with rfl | rfl <;> simp)
        ⟨inner, ofInner before.here⟩
    refine ⟨everywhere_cons.2 ⟨new.everywhere, inRest⟩, fun here => ?_⟩
    exact List.forall_mem_cons.2 ⟨new.here _ List.mem_cons_self,
      ofRest (List.forall_mem_cons.1 here).2⟩
  | trans _ _ ih ih' =>
    obtain ⟨first, ofFirst⟩ := ih all
    obtain ⟨second, ofSecond⟩ := ih' first
    exact ⟨second, fun here => ofSecond (ofFirst here)⟩

theorem Trims.filled (trims : Trims ns ms) (h : Filled ns) : Filled ms :=
  ⟨(trims.fills h.everywhere).1, (trims.fills h.everywhere).2 h.here⟩

theorem filled_varStatement (some : names ≠ []) :
    Filled [varStatement names] := by
  have missing : Filled [.none] := filled_node (by simp) filled_nil
  have each : Filled (names.map fun x => made (.declarator false)
      [made (.bindingIdent x false) [.none], .none]) := by
    induction names with
    | nil => exact filled_nil
    | cons x names ih =>
      refine filled_cons.2 ⟨filled_node (by simp)
        (filled_cons.2 ⟨filled_node (by simp) missing, missing⟩), ?_⟩
      rcases names with _ | ⟨y, names⟩
      · exact filled_nil
      · exact ih (by simp)
  refine ⟨everywhere_node.2 ⟨.of_none each.here, each.everywhere⟩,
    List.forall_mem_singleton.2 ?_⟩
  rcases names with _ | ⟨x, names⟩
  · exact absurd rfl some
  · rfl

theorem filled_declareIn (h : Filled ns) : Filled (declareIn names ns) := by
  unfold declareIn
  split
  · exact h
  · rename_i some
    rw [← List.takeWhile_append_dropWhile (p := isDirective) (l := ns),
      filled_append] at h
    exact filled_append.2
      ⟨h.1, filled_cons.2 ⟨filled_varStatement (by simpa using some), h.2⟩⟩

theorem filled_arrowBody (h : Filled [n]) : Filled [arrowBody names n] := by
  unfold arrowBody
  split
  · exact filled_node (by simp)
      (filled_declareIn (filled_children rfl h.everywhere))
  · split
    · exact (trimming_unwrapConditional n .nil).filled h
    · rename_i some
      have value := (trimming_unwrap n .nil).filled h
      exact filled_node (by simp) (filled_cons.2 ⟨filled_varStatement
        (by simpa using some), filled_node (by simp) value⟩)

/-- The pieces of a chain stand in calls and accesses, so there are no
declarations among them. -/
theorem filled_spine {name : String} {body : Node} {steps : List Step}
    (h : Spine policy name body steps) (all : Filled [body]) :
    Filled (pieces steps) := by
  induction h with
  | leaf => exact filled_nil
  | paren s rest ih => exact ih (filled_children rfl all.everywhere)
  | @member s object property steps clean rest ih =>
    obtain ⟨first, second⟩ := filled_cons.1 (filled_children rfl all.everywhere)
    rw [pieces_append]
    exact filled_append.2 ⟨ih first, second⟩
  | @call s l callee types arguments steps permissive ordinary clean rest ih =>
    obtain ⟨first, others⟩ := filled_cons.1 (filled_children rfl all.everywhere)
    obtain ⟨list, last⟩ := filled_cons.1 others
    have own : pieces [.call arguments types] = arguments ++ [types] :=
      List.append_nil _
    rw [pieces_append, own]
    exact filled_append.2
      ⟨ih first, filled_append.2 ⟨filled_children rfl list.everywhere, last⟩⟩

theorem filled_stripParens (h : Filled [n]) : Filled [n.stripParens] := by
  fun_induction Node.stripParens n with
  | case1 s inner ih => exact ih (filled_children rfl h.everywhere)
  | case2 => exact h

/-- Taking a call apart leaves such nodes. -/
theorem filled_decompose {span : Option Span} {c : AccessChain}
    (taken : decompose policy span ns = .ok c) (h : Filled ns) :
    Filled (c.base :: pieces c.steps) := by
  obtain ⟨call, helper, walked, same, -⟩ := decompose_ok taken
  cases helper with
  | @intro base callback body name b o s l i ascription rest _ _ isArrow _ =>
    obtain ⟨first, second⟩ := filled_cons.1 h
    refine filled_cons.2 ⟨same ▸ first, filled_spine walked ?_⟩
    have inArrow := filled_stripParens second
    rw [isArrow] at inArrow
    exact (filled_cons.1
      (filled_cons.1 (filled_children rfl inArrow.everywhere)).2).1

end Filled

/-- A node has lost all declarators only if all were to go, and nothing in it
has but the heads of loops. -/
structure Clears (removals : List (Option Span)) (n n' : Node) : Prop where
  everywhere : Everywhere Fills [n']
  emptied : isEmptied n' = true → (∃ w d, n.kind = .varDecl w d) ∧
    ∀ t ∈ declaredIn n, t ∈ removals

section Clears

variable {setting : Setting} {removals : List (Option Span)} {j : Treatment}
  {js : List Treatment} {n n' : Node} {k : Kind} {s : Option Span}
  {ns ns' : List Node} {h : List String} {a : List RewrittenCall}

theorem Clears.of_filled (h : Filled [n']) : Clears removals n n' :=
  ⟨h.everywhere,
    fun empty => by cases (h.here n' List.mem_cons_self).symm.trans empty⟩

/-- A declaration of variables that was read has declarators. -/
theorem declaredIn_written (written : Written n)
    (isDeclared : ∃ w d, n.kind = .varDecl w d) : ∃ t, t ∈ declaredIn n := by
  obtain ⟨k, s, ns⟩ := n
  obtain ⟨w, d, rfl⟩ := isDeclared
  have well := written.self
  rw [wellWritten, Bool.and_eq_true, Bool.not_eq_true',
    List.isEmpty_eq_false_iff] at well
  obtain ⟨q, hq⟩ := List.exists_mem_of_ne_nil ns well.1
  exact ⟨q.span, List.mem_map_of_mem hq⟩

/-- Only declarations of variables lose their declarators. -/
theorem Clears.variables (clear : Clears removals n n')
    (empty : isEmptied n' = true) :
    isVariables n.kind = true := by
  obtain ⟨⟨w, d, isDeclared⟩, -⟩ := clear.emptied empty
  rw [isDeclared]
  rfl

theorem everywhere_clears (clears : Each (fun _ => Clears removals) js ns ns') :
    Everywhere Fills ns' := by
  induction clears with
  | nil => exact everywhere_nil
  | cons head tail ih => exact everywhere_cons.2 ⟨head.everywhere, ih⟩

/-- Where no declarations of variables are, none has lost its declarators. -/
theorem filled_operands (clears : Each (fun _ => Clears removals) js ns ns')
    (operands : ∀ n ∈ ns, isVariables n.kind = false) : Filled ns' := by
  refine ⟨everywhere_clears clears, fun n' hn' => ?_⟩
  obtain ⟨i, there⟩ := List.mem_iff_getElem?.1 hn'
  obtain ⟨_, n, -, child, clear⟩ := clears.get there
  rw [← Bool.not_eq_true]
  intro empty
  cases (operands n (List.mem_of_getElem? child)).symm.trans
    (clear.variables empty)

/-- Dropping items leaves no declaration without declarators. -/
theorem filled_items (clears : Each (fun _ => Clears removals) js ns ns') :
    Filled (ns'.filter (staysIn removals)) :=
  ⟨((Trims.filter _ ns').fills (everywhere_clears clears)).1,
    fun _ hn => isEmptied_of_staysIn (List.mem_filter.1 hn).2⟩

/-- What has lost its declarators stands where declarations of variables may. -/
theorem emptied_clears (placed : WellPlaced (.node k s ns))
    (clears : Each (fun _ => Clears removals) js ns ns') :
    EmptiedAt (fun i => takesVariables k i = true) ns' := by
  intro i n' there empty
  obtain ⟨_, n, -, child, clear⟩ := clears.get there
  exact (placedAt_iff.1 (placed.at child)).1 (clear.variables empty)

/-- In a loop over a collection, the head is what may have lost its
declarators. -/
theorem heads_finish (placed : WellPlaced (.node k s ns))
    (pass : isPass k = true)
    (clears : Each (fun _ => Clears removals) js ns ns') :
    Fills (.node k s (finish removals k ns')) := by
  have emptied := emptied_clears placed clears
  unfold isPass at pass
  split at pass
  · intro i n there empty
    have here := (emptied.modify isEmptied_loneStatement 2) i n there empty
    simp only [takesVariables, Bool.or_eq_true, beq_iff_eq] at here
    exact ⟨rfl, by omega⟩
  · intro i n there empty
    have here := (emptied.modify isEmptied_loneStatement 2) i n there empty
    simp only [takesVariables, Bool.or_eq_true, beq_iff_eq] at here
    exact ⟨rfl, by omega⟩
  · cases pass

/-- **What becomes of the children of a node** that is no loop over a collection
has no declarations without declarators. -/
theorem filled_finish (arranged : Arranged .place (.node k s ns))
    (notProgram : isProgram k = false) (notPass : isPass k = false)
    (exports : ∀ t ∈ exportedAmong [.node k s ns], t ∉ removals)
    (clears : Each (fun _ => Clears removals) (treatments k ns) ns ns') :
    Filled (finish removals k ns') := by
  have trims := (trims_finish removals k ns').fills (everywhere_clears clears)
  have emptied := emptied_clears arranged.placed clears
  refine ⟨trims.1, ?_⟩
  by_cases takes : ∃ i, takesVariables k i = true
  · obtain ⟨i, takes⟩ := takes
    unfold takesVariables at takes
    split at takes
    · cases notProgram
    · exact (filled_items clears).here
    · exact (filled_items clears).here
    · exact (filled_operands clears (arranged.operands rfl (by simp))).here
    · -- An exported declaration keeps its declarators.
      suffices own : EmptiedAt (fun _ => False) ns' from own.none fun _ => id
      intro i n' there empty
      obtain ⟨_, n, -, child, clear⟩ := clears.get there
      have mem := List.mem_of_getElem? child
      obtain ⟨t, direct⟩ :=
        declaredIn_written (arranged.written.child mem) (clear.emptied empty).1
      refine exports t ?_ ((clear.emptied empty).2 t direct)
      exact exportedAmong_node.2
        (.inl ⟨rfl, List.mem_flatMap.2 ⟨n, mem, direct⟩⟩)
    · refine ((emptied.modify isEmptied_loneStatement 1).modify
        isEmptied_loneStatement 2).none fun i => ?_
      simp only [takesVariables, Bool.or_eq_true, beq_iff_eq]
      omega
    iterate 4
      refine (emptied.modify isEmptied_loneStatement 1).none fun i => ?_
      simp only [takesVariables, beq_iff_eq]
      omega
    · refine ((emptied.modify isEmptied_loopStart 0).modify
        isEmptied_loneStatement 3).none fun i => ?_
      simp only [takesVariables, Bool.or_eq_true, beq_iff_eq]
      omega
    · cases notPass
    · cases notPass
    · cases takes
  · exact trims.2 (emptied.none fun i here => takes ⟨i, here⟩)

/-- A declaration of variables that lost all declarators lost them to the
removals. -/
theorem emptied_finish {w : VarWord} {d : Bool} (isDeclared : k = .varDecl w d)
    (written : Written (.node k s ns)) (kept : AllKept (treatments k ns) ns ns')
    (empty : isEmptied (.node k s (finish removals k ns')) = true) :
    ∀ t ∈ declaredIn (.node k s ns), t ∈ removals := by
  subst isDeclared
  intro t ht
  obtain ⟨n, hn, rfl⟩ := List.mem_map.1 ht
  obtain ⟨n', hn', stays⟩ := exists_of_forall₂ (AllKept.stays kept).flip hn
  have span : n'.span = n.span := by
    rcases stays with ⟨-, same⟩ | ⟨isCall, -⟩
    · exact same
    · have declares := declarators_of_written written w d rfl n hn
      rw [isCall] at declares
      cases declares
  obtain ⟨_, _, _, same⟩ := eq_of_isEmptied empty
  have none : ns'.filter (fun d => !removals.contains d.span) = [] :=
    (Node.node.inj same).2.2
  have gone := List.filter_eq_nil_iff.1 none n' hn'
  rw [span] at gone
  simpa using gone

/-- What was read has no such declarations. -/
theorem filled_written (written : ∀ n ∈ ns, Written n) : Filled ns := by
  refine ⟨fun m hm => .of_none fun c hc => ?_,
    fun n hn => (written n hn).notEmptied⟩
  obtain ⟨n, hn, inside⟩ := mem_subnodesAmong.1 hm
  obtain ⟨k, s, ms⟩ := m
  have occurs : Occurs c n := .trans (.inside hc .here) (mem_subnodes.1 inside)
  exact Written.notEmptied fun l hl => written n hn l
    (mem_subnodes.2 ((mem_subnodes.1 hl).trans occurs))

/-- A child that is rewritten where no declaration of variables may stand. -/
theorem Clears.filled (clear : Clears removals n n')
    (plain : isVariables n.kind = false) : Filled [n'] := by
  refine ⟨clear.everywhere, List.forall_mem_singleton.2 ?_⟩
  rw [← Bool.not_eq_true]
  intro empty
  cases plain.symm.trans (clear.variables empty)

/-- Among exported variables of the arguments of a call are those of the
call. -/
theorem exported_argument {plan : Plan} {arguments : Node}
    (planned : plannedArguments? plan n = some arguments) {t : Option Span}
    (ht : t ∈ exportedAmong arguments.children) : t ∈ exportedAmong [n] := by
  obtain ⟨s, callee, rest, rfl, -⟩ := planned_cases planned
  obtain ⟨k, l, items⟩ := arguments
  have inList : t ∈ exportedAmong [.node k l items] :=
    exportedAmong_node.2 (.inr ht)
  exact exportedAmong_node.2 (.inr (mem_exportedAmong.2
    ⟨_, List.mem_cons_of_mem _ List.mem_cons_self, inList⟩))

/-- **No rewrite leaves a declaration without declarators** but as the head of a
loop over a collection, where no exported variable goes away. -/
theorem rewrites_clear (rewritten : Rewrites setting js ns ns' h a)
    (arranged : AllArranged js ns)
    (exports : ∀ t ∈ exportedAmong ns, t ∉ setting.removals) :
    Each (fun _ => Clears setting.removals) js ns ns' := by
  induction rewritten with
  | nil => exact .nil
  | cons head tail ih ih' =>
    exact .cons (ih (.single arranged.head) fun t ht =>
      exports t (exportedAmong_cons.2 (.inl ht))).single
      (ih' arranged.tail fun t ht => exports t (exportedAmong_cons.2 (.inr ht)))
  | keep n =>
    exact .cons (.of_filled
      (filled_written (List.forall_mem_singleton.2 arranged.head.written))) .nil
  | @node k s ns ns' h a notProgram unplanned children ih =>
    have clears := ih (arranged_treatments arranged.head.toParsed) fun t ht =>
      exports t (exportedAmong_node.2 (.inr ht))
    have below :=
      ((trims_finish setting.removals k ns').fills (everywhere_clears clears)).1
    refine .cons ⟨everywhere_node.2 ⟨?_, below⟩, fun empty => ?_⟩ .nil
    · cases pass : isPass k with
      | true => exact heads_finish arranged.head.placed pass clears
      | false =>
        exact .of_none
          (filled_finish arranged.head notProgram pass exports clears).here
    · obtain ⟨w, d, _, same⟩ := eq_of_isEmptied empty
      obtain ⟨rfl, -⟩ := Node.node.inj same
      have kept :=
        rewrites_kept children (arranged_treatments arranged.head.toParsed).fit
      exact ⟨⟨w, d, rfl⟩, emptied_finish rfl arranged.head.written kept empty⟩
  | program => cases arranged.head.inner
  | @items k s ns ns' h a children ih =>
    have isList : k = .list := eq_of_beq (arranged.head.items rfl)
    subst isList
    have clears := ih (arranged_place arranged.head.toParsed (by simp))
      fun t ht => exports t (exportedAmong_node.2 (.inr ht))
    exact .cons (.of_filled (filled_node (by simp) (filled_items clears))) .nil
  | @block s ns ns' names h a children _ ih =>
    have clears := ih (arranged_place arranged.head.toParsed (by simp))
      fun t ht => exports t (exportedAmong_node.2 (.inr ht))
    exact .cons (.of_filled
      (filled_node (by simp) (filled_declareIn (filled_items clears)))) .nil
  | noBlock notBlock inPlace ih =>
    exact .cons
      (ih (.single (arranged.head.inPlace (by simp))) exports).single .nil
  | @function k s ns ns' h a parts ih =>
    have fits := arranged.head.function rfl
    cases k with
    | function b g =>
      have all : AllArranged (treatments (.function b g) ns) ns :=
        arranged_treatments arranged.head.toParsed
      have clears :=
        ih all fun t ht => exports t (exportedAmong_node.2 (.inr ht))
      have filled : Filled (finish setting.removals (.function b g) ns') :=
        filled_finish (arranged.head.inPlace (by simp)) rfl rfl exports clears
      exact .cons (.of_filled (filled_node (by simp) filled)) .nil
    | _ => cases fits
  | arrowBody inPlace _ ih =>
    have clear :=
      (ih (.single (arranged.head.inPlace (by simp))) exports).single
    exact .cons (.of_filled
      (filled_arrowBody (clear.filled (arranged.head.plain rfl)))) .nil
  | base planned children taken _ ih | guarded planned children taken _ ih =>
    have clears := ih (arranged_arguments planned arranged.head.toParsed)
      fun t ht => exports t (exported_argument planned ht)
    have given := filled_operands clears
      (operands_of_arguments planned arranged.head.toParsed)
    have filled :=
      filled_decompose taken ((Trims.map trimming_unwrapItem _).filled given)
    exact .cons (.of_filled (chaining_filled.expression filled)) .nil
  | @callbackArrow b s parameters body body' types h a inner ih =>
    have second : body ∈ parameters :: body :: types :=
      List.mem_cons_of_mem _ List.mem_cons_self
    have clear := (ih (.single (arranged.head.toParsed.operand
      (by simp) second (.inl rfl))) fun t ht => exports t (exportedAmong_node.2
      (.inr (mem_exportedAmong.2 ⟨body, second, ht⟩)))).single
    have filled :=
      clear.filled (arranged.head.placed.plain (fun _ => rfl) second)
    obtain ⟨first, others⟩ :=
      filled_cons.1 (filled_written fun n hn => arranged.head.written.child hn)
    have rest := (filled_cons.1 others).2
    exact .cons (.of_filled (filled_node (by simp)
      (filled_cons.2 ⟨first, filled_cons.2 ⟨filled, rest⟩⟩))) .nil
  | @callbackInside k s n n' h a wraps _ inside ih =>
    have noCase : k ≠ .switchCase := by rcases wraps with rfl | rfl <;> simp
    have clear := (ih (.single
      (arranged.head.toParsed.operand noCase List.mem_cons_self (.inr rfl)))
      fun t ht => exports t (exportedAmong_node.2 (.inr ht))).single
    have plain : isVariables n.kind = false := by
      rcases wraps with rfl | rfl <;>
        exact arranged.head.placed.plain (fun _ => rfl) List.mem_cons_self
    have other : ∀ w d, k ≠ .varDecl w d := by
      rcases wraps with rfl | rfl <;> simp
    exact .cons (.of_filled (filled_node other (clear.filled plain))) .nil
  | noCallback _ _ inPlace ih =>
    exact .cons
      (ih (.single (arranged.head.inPlace (by simp))) exports).single .nil

end Clears

end NullGuard.Transform
