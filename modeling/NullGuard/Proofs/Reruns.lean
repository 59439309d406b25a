import NullGuard.Proofs.Constancy
import NullGuard.Proofs.Tidying

/-!
# Transforming the result again

The result of a transformation is a program like any other, but it was not read
from a text: there are made parentheses and conditionals in it. When it is
transformed again, all of it is tidied up once more.

`rewrites_settle` says that this changes nothing: whatever becomes of a settled
tree is settled again. What is left to say is that there is nothing to rewrite.
The callees of all calls that were planned are gone, so only something that
looks like a call of the helper in the result, but was none in the program, can
be rewritten in a second run. Where there is no such call, a second run does
nothing (`rerun_without_new_calls`).

Calls without steps can lead to one: they become their base, and what was
`get(require('m'), _ => _)` is a declaration of the helper then. A parameter
that is assigned to in its own callback can lead to one as well, or to a second
run that fails: once its declaration is gone, it may have the name of a helper.
Where all callbacks of planned calls lead through a step, and their parameters
are neither called nor assigned to, a second run does nothing
(`rerun_changes_nothing`).
-/

namespace NullGuard.Transform

open NullGuard.Text (Span)
open NullGuard.Tree NullGuard.Chain NullGuard.Scope

/-- What becomes of a settled node that is treated in a way. -/
structure Settles (j : Treatment) (n n' : Node) : Prop where
  settled : j ≠ .callback → Settled [] n'
  alone : LeftAlone [] j n'
  once : j = .place → Once n'
  /-- Nothing is spread that was not. -/
  item : j = .place → (argument n).2 = false → (argument n').2 = false
  /-- Of a callback only the body stays, so only the body has to be settled. -/
  body : ∀ b s parameters body types, n'.stripParens =
    .node (.arrow b) s (parameters :: body :: types) → Settled [] body

section Settles

variable {setting : Setting} {removals : List (Option Span)} {j : Treatment}
  {js : List Treatment} {n n' : Node} {k : Kind} {s : Option Span}
  {ns ns' ms : List Node} {h : List String} {a : List RewrittenCall}
  {names : List String}

theorem Settled.arrowBody (settled : Settled [] n) (b : Bool) (s : Option Span)
    (parameters body : Node) (types : List Node)
    (isArrow : n.stripParens =
      .node (.arrow b) s (parameters :: body :: types)) : Settled [] body := by
  have inParens : Settled [] n.stripParens := settled.of_occurs (.stripParens n)
  rw [isArrow] at inParens
  exact inParens.child (List.mem_cons_of_mem _ List.mem_cons_self)

theorem settles_place (settled : Settled [] n') (once : Once n')
    (item : (argument n).2 = false → (argument n').2 = false) :
    Settles .place n n' :=
  ⟨fun _ => settled, trivial, fun _ => once, fun _ => item, settled.arrowBody⟩

theorem settles_other (notPlace : j ≠ .place) (settled : Settled [] n')
    (alone : LeftAlone [] j n') : Settles j n n' :=
  ⟨fun _ => settled, alone, fun same => absurd same notPlace,
    fun same => absurd same notPlace, settled.arrowBody⟩

theorem settles_callback
    (body : ∀ b s parameters body types, n'.stripParens =
      .node (.arrow b) s (parameters :: body :: types) → Settled [] body) :
    Settles .callback n n' :=
  ⟨fun other => absurd rfl other, trivial, fun same => absurd same (by decide),
    fun same => absurd same (by decide), body⟩

/-- What becomes of several settled nodes is settled. -/
theorem settled_of_each (each : Each Settles js ns ns')
    (noCallback : ∀ j ∈ js, j ≠ .callback) :
    ∀ n' ∈ ns', Settled [] n' := by
  intro n' hn'
  obtain ⟨i, there⟩ := List.mem_iff_getElem?.1 hn'
  obtain ⟨j, n, treated, -, settles⟩ := each.get there
  exact settles.settled (noCallback j (List.mem_of_getElem? treated))

/-- What becomes of several nodes in their own places is tidied up once and for
all. -/
theorem once_of_each (each : Each Settles (ns.map fun _ => .place) ns ns') :
    ∀ n' ∈ ns', Once n' := by
  intro n' hn'
  obtain ⟨n, -, settles⟩ := exists_of_forall₂ each.placed hn'
  exact settles.once rfl

theorem treatments_map (f : Node → Node) (k : Kind) (ns : List Node) :
    treatments k (ns.map f) = treatments k ns := by
  have each (u : Treatment) (ns : List Node) : ((ns.map f).map fun _ => u) =
      ns.map fun _ => u := List.map_map
  cases k
  case function =>
    rcases ns with _ | ⟨_, _ | ⟨_, _ | ⟨_, types⟩⟩⟩
    case cons.cons.cons =>
      exact congrArg (Treatment.place :: Treatment.place :: Treatment.body :: ·)
        (each .keep types)
    all_goals rfl
  case arrow =>
    rcases ns with _ | ⟨_, _ | ⟨_, types⟩⟩
    case cons.cons =>
      exact congrArg (Treatment.place :: Treatment.arrowBody :: ·)
        (each .keep types)
    all_goals rfl
  case switchCase | method =>
    rcases ns with _ | ⟨_, _ | ⟨_, _ | ⟨_, more⟩⟩⟩
    case cons.cons.cons =>
      exact congrArg (Treatment.place :: Treatment.place :: Treatment.place ::
        ·) (each .place more)
    all_goals rfl
  case constructor | getterProp =>
    rcases ns with _ | ⟨_, _ | ⟨_, _ | ⟨_, _ | ⟨_, more⟩⟩⟩⟩
    case cons.cons.cons.cons =>
      exact congrArg (List.replicate 4 Treatment.place ++ ·) (each .place more)
    all_goals rfl
  case setterProp =>
    rcases ns with _ | ⟨_, _ | ⟨_, _ | ⟨_, _ | ⟨_, _ | ⟨_, more⟩⟩⟩⟩⟩
    case cons.cons.cons.cons.cons =>
      exact congrArg (List.replicate 5 Treatment.place ++ ·) (each .place more)
    all_goals rfl
  case staticBlock =>
    rcases ns with _ | ⟨_, _ | ⟨_, more⟩⟩
    case cons.cons =>
      exact congrArg (List.replicate 2 Treatment.place ++ ·) (each .place more)
    all_goals rfl
  all_goals exact each .place ns

/-- How the children of a node are treated depends on how many there are. -/
theorem treatments_congr (same : ns.length = ms.length) :
    treatments k ns = treatments k ms := by
  have blank : (ns.map fun _ => Node.none) = ms.map fun _ => Node.none := by
    rw [List.map_const', List.map_const', same]
  rw [← treatments_map (fun _ => Node.none) k ns, blank, treatments_map]

theorem Each.length_eq {P : Treatment → Node → Node → Prop}
    (each : Each P js ns ns') : ns.length = ns'.length := by
  induction each with
  | nil => rfl
  | cons head tail ih => rw [List.length_cons, List.length_cons, ih]

/-- What is taken out of made parentheses is not spread. -/
theorem argument_unwrap (settled : Settled [] n)
    (notSpread : (argument n).2 = false) :
    (argument (unwrap n)).2 = false := by
  unfold unwrap
  split
  · exact settled.self.paren rfl rfl _ List.mem_cons_self
  · exact notSpread

/-- Tidying up what became of the children of a node leaves it tidied up. -/
theorem finish_of_each (removals : List (Option Span))
    (each : Each Settles (treatments k ns) ns ns') :
    finish [] k (finish removals k ns') = finish removals k ns' := by
  rcases idle_or_placed k with idle | placed
  · rw [idle, idle]
  · rw [placed] at each
    exact finish_finish removals (once_of_each each)

/-- What became of the children of parentheses. -/
theorem paren_of_each (settled : Settled [] (.node .paren s ns))
    (each : Each Settles (ns.map fun _ => .place) ns ns') (made : s = none) :
    ∀ m ∈ ns'.modify 0 unwrap, (argument m).2 = false := by
  have all := settled_of_each each notCallback_of_place
  have plain : ∀ n' ∈ ns', (argument n').2 = false := by
    intro n' hn'
    obtain ⟨n, hn, settles⟩ := exists_of_forall₂ each.placed hn'
    exact settles.item rfl (settled.self.paren rfl made n hn)
  cases ns' with
  | nil => exact List.forall_mem_nil _
  | cons n' rest =>
    obtain ⟨first, others⟩ := List.forall_mem_cons.1 plain
    rw [List.modify_zero_cons]
    exact List.forall_mem_cons.2
      ⟨argument_unwrap (all n' List.mem_cons_self) first, others⟩

/-- **A node that is put together from what became of its children** is settled,
if it was. -/
theorem settles_node (inner : isProgram k = false)
    (settled : Settled [] (.node k s ns))
    (each : Each Settles (treatments k ns) ns ns') :
    Settles .place (.node k s ns) (.node k s (finish removals k ns')) := by
  have all := settled_of_each each notCallback_of_treatments
  have self : SettledAt [] k s (finish removals k ns') := by
    refine ⟨finish_of_each removals each, fun isProgram => ?_,
      fun i j m treated there => ?_, ?_⟩
    · cases inner.symm.trans isProgram
    · rcases idle_or_placed k with idle | placed
      · rw [idle] at treated there
        rw [← treatments_congr each.length_eq] at treated
        obtain ⟨j', n, treated', -, settles⟩ := each.get there
        cases treated.symm.trans treated'
        exact settles.alone
      · rw [placed] at treated
        exact leftAlone_place treated m
    · rintro rfl
      exact paren_of_each settled each
  refine settles_place (settled_node self
    ((trims_finish removals k ns').settled all)) ?_ fun notSpread => ?_
  · by_cases isParen : k = .paren
    · subst isParen
      refine once_paren fun c made same => ?_
      have plain : (argument c).2 = false := by
        refine paren_of_each settled each made c ?_
        change ns'.modify 0 unwrap = [c] at same
        rw [same]
        exact List.mem_cons_self
      rcases ns' with _ | ⟨n', rest⟩
      · cases same
      · cases same
        exact ⟨(once_of_each each _ List.mem_cons_self).unwrap, plain⟩
    · by_cases isSpread : k = .spread
      · subst isSpread
        refine once_spread fun c same => ?_
        change ns' = [c] at same
        subst same
        exact (once_of_each each c List.mem_cons_self).unwrap
      · by_cases isList : k = .list
        · subst isList
          exact once_list fun c hc => (once_of_each each c hc).item
        · exact once_of_kind isParen isSpread isList
  · by_cases isSpread : k = .spread
    · subst isSpread
      have same := each.length_eq
      rcases ns' with _ | ⟨n', _ | ⟨more, rest⟩⟩
      · rfl
      · obtain ⟨n, rfl⟩ := List.length_eq_one_iff.1 same
        cases notSpread
      · rfl
    · exact argument_of_kind isSpread

/-- Statements that stay, with a declaration in front. -/
theorem settled_declareIn (names : List String)
    (settled : ∀ n ∈ ns, Settled [] n) (stay : ∀ n ∈ ns, staysIn [] n = true) :
    ∀ n ∈ declareIn names ns, Settled [] n ∧ staysIn [] n = true := by
  unfold declareIn
  split
  · exact fun n hn => ⟨settled n hn, stay n hn⟩
  · rename_i some
    intro n hn
    rcases List.mem_append.1 hn with front | behind
    · have mem := (List.takeWhile_sublist _).subset front
      exact ⟨settled n mem, stay n mem⟩
    · rcases List.mem_cons.1 behind with rfl | back
      · refine ⟨settled_varStatement names, ?_⟩
        cases names with
        | nil => exact absurd rfl some
        | cons => rfl
      · have mem := (List.dropWhile_sublist _).subset back
        exact ⟨settled n mem, stay n mem⟩

/-- Statements that are left, with a declaration in front. -/
theorem settled_body (names : List String)
    (each : Each Settles (ns.map fun _ => .place) ns ns') :
    ∀ n ∈ declareIn names (ns'.filter (staysIn removals)), Settled [] n ∧
      staysIn [] n = true :=
  settled_declareIn names (fun n hn =>
    settled_of_each each notCallback_of_place n (List.mem_of_mem_filter hn))
    fun _ hn => staysIn_nothing (List.mem_filter.1 hn).2

theorem settled_block (all : ∀ n ∈ ns, Settled [] n ∧ staysIn [] n = true) :
    Settled [] (.node .block s ns) :=
  settled_idle (List.filter_eq_self.2 fun n hn => (all n hn).2) rfl rfl
    (by simp) fun n hn => (all n hn).1

theorem settles_arrowBody (names : List String) (settled : Settled [] n')
    (once : Once n') :
    Settles .arrowBody n (arrowBody names n') := by
  have value : Settled [] (unwrap n') :=
    (trimming_unwrap n' .nil).settled
      (List.forall_mem_singleton.2 settled) _ List.mem_cons_self
  unfold arrowBody
  split
  · rename_i s items
    have stay : ∀ n ∈ items, staysIn [] n = true :=
      List.filter_eq_self.1 settled.self.finished
    exact settles_other (by decide) (settled_block
      (settled_declareIn names (fun _ hn => settled.child hn) stay)) rfl
  · split
    · refine settles_other (by decide) ?_ (unwrapConditional_twice n')
      exact (trimming_unwrapConditional n' .nil).settled
        (List.forall_mem_singleton.2 settled) _ List.mem_cons_self
    · rename_i some
      have returned : Settled [] (made .returnStmt [unwrap n']) :=
        settled_idle (congrArg (fun n => [n]) once.unwrap) rfl rfl (by simp)
          (List.forall_mem_singleton.2 value)
      have declared : staysIn [] (varStatement names) = true := by
        cases names with
        | nil => exact absurd rfl some
        | cons => rfl
      refine settles_other (by decide) (settled_block ?_) rfl
      exact List.forall_mem_cons.2 ⟨⟨settled_varStatement names, declared⟩,
        List.forall_mem_singleton.2 ⟨returned, rfl⟩⟩

theorem argument_expression (c : AccessChain) (t : String) :
    (argument (c.expression t)).2 = false := by
  unfold AccessChain.expression
  split <;> rfl

/-- What a helper call becomes is settled. -/
theorem settles_call {given given' : List Node} {policy : ChainPolicy}
    {span : Option Span} {c : AccessChain} (t : String)
    (each : Each Settles (argumentTreatments given) given given')
    (taken : decompose policy span (given'.map unwrapItem) = .ok c) :
    Settles .place n (c.expression t) := by
  obtain ⟨call, helper, walked, same, -⟩ := decompose_ok taken
  generalize items : given'.map unwrapItem = arguments at helper
  cases helper with
  | @intro base callback body name b o s l i ascription rest notSpread
      callbackNotSpread isArrow _ =>
    obtain ⟨base', callback', rfl⟩ : ∃ x y, given' = [x, y] := by
      rcases given' with _ | ⟨x, _ | ⟨y, _ | ⟨more, rest⟩⟩⟩
      case cons.cons.nil => exact ⟨x, y, rfl⟩
      all_goals cases items
    cases items
    obtain ⟨base₀, callback₀, rfl⟩ := List.length_eq_two.1 each.length_eq
    cases each with | cons first others => ?_
    have second : Settles .callback callback₀ callback' := others.single
    rw [stripParens_unwrapItem callbackNotSpread] at isArrow
    have bare : unwrapItem base' = unwrap base' := by
      unfold unwrapItem at notSpread ⊢
      split
      · simp [argument] at notSpread
      · rfl
    have settled : Settled [] c.base := by
      rw [same, bare]
      exact (trimming_unwrap base' .nil).settled (List.forall_mem_singleton.2
        (first.settled (by decide))) _ List.mem_cons_self
    have unwrapped : unwrap c.base = c.base := by
      rw [same, bare]
      exact (first.once rfl).unwrap
    have plain : (argument c.base).2 = false := by
      rw [same, notSpread]
    obtain ⟨whole, once⟩ := settled_expression (t := t) settled unwrapped plain
      (settled_spine walked (second.body _ _ _ _ _ isArrow))
    exact settles_place whole once fun _ => argument_expression c t

/-- **What becomes of settled trees is settled.** -/
theorem rewrites_settle (rewritten : Rewrites setting js ns ns' h a)
    (fit : AllFit js ns) (settled : ∀ n ∈ ns, Settled [] n) :
    Each Settles js ns ns' := by
  induction rewritten with
  | nil => exact .nil
  | cons head tail ih ih' =>
    obtain ⟨first, others⟩ := List.forall_mem_cons.1 settled
    exact .cons (ih (.single fit.head)
      (List.forall_mem_singleton.2 first)).single (ih' fit.tail others)
  | keep n =>
    exact .cons
      (settles_other (by decide) (settled n List.mem_cons_self) trivial) .nil
  | node notProgram unplanned children ih =>
    have whole := settled _ List.mem_cons_self
    exact .cons (settles_node notProgram whole
      (ih (fit_treatments fit.head.regular) fun n hn => whole.child hn)) .nil
  | program children all ih => cases fit.head.inner
  | @items k s ns ns' h a children ih =>
    have isList : k = .list := eq_of_beq (fit.head.items rfl)
    subst isList
    have whole := settled _ List.mem_cons_self
    obtain ⟨-, below, outer⟩ := regular_node.1 fit.head.regular
    have each := ih (fit_place fun n hn => ⟨below n hn, outer n hn⟩) fun n hn =>
      whole.child hn
    have stay : ∀ n ∈ ns'.filter (staysIn setting.removals),
        staysIn [] n = true :=
      fun n hn => staysIn_nothing (List.mem_filter.1 hn).2
    refine .cons (settles_other (by decide) ?_ stay) .nil
    exact settled_idle rfl rfl rfl (by simp) fun n hn =>
      settled_of_each each notCallback_of_place n (List.mem_of_mem_filter hn)
  | @block s ns ns' names h a children all ih =>
    have whole := settled _ List.mem_cons_self
    obtain ⟨-, below, outer⟩ := regular_node.1 fit.head.regular
    have each := ih (fit_place fun n hn => ⟨below n hn, outer n hn⟩) fun n hn =>
      whole.child hn
    exact .cons (settles_other (by decide)
      (settled_block (settled_body names each)) trivial) .nil
  | noBlock notBlock inPlace ih =>
    have each := ih (.single (fit_plain fit.head.regular fit.head.inner
      (by decide) (by decide))) settled
    exact .cons
      (settles_other (by decide) (each.single.settled (by decide)) trivial) .nil
  | @function k s ns ns' h a parts ih =>
    have fits := fit.head.function rfl
    have whole := settled _ List.mem_cons_self
    cases k with
    | function b g =>
      have each : Each Settles (treatments (.function b g) ns) ns ns' :=
        ih (fit_treatments (k := .function b g) fit.head.regular) fun n hn =>
          whole.child hn
      have put : Settles .place (.node (.function b g) s ns)
          (.node (.function b g) s (finish [] (.function b g) ns')) :=
        settles_node rfl whole each
      exact .cons
        (settles_other (by decide) (put.settled (by decide)) trivial) .nil
    | _ => cases fits
  | @arrowBody n n' names h a inPlace all ih =>
    have each := ih (.single (fit_plain fit.head.regular fit.head.inner
      (by decide) (by decide))) settled
    exact .cons (settles_arrowBody names (each.single.settled (by decide))
      (each.single.once rfl)) .nil
  | @base n arguments arguments' chain h a planned children taken bare ih
  | @guarded n arguments arguments' chain t h a planned children taken
      needed ih =>
    have each := ih (fit_arguments
      (regular_plannedArguments planned fit.head.regular)) fun m hm => by
      obtain ⟨k, s, ns⟩ := n
      obtain ⟨k', s', ms⟩ := arguments
      exact ((settled _ List.mem_cons_self).child
        (occurs_of_planned planned)).child hm
    exact .cons (settles_call _ each taken) .nil
  | @callbackArrow b s parameters body body' types h a inner ih =>
    obtain ⟨-, below, outer⟩ := regular_node.1 fit.head.regular
    have second : body ∈ parameters :: body :: types :=
      List.mem_cons_of_mem _ List.mem_cons_self
    have each := ih (.single (fit_plain (below _ second) (outer _ second)
      (by decide) (by decide))) (List.forall_mem_singleton.2
      ((settled _ List.mem_cons_self).child second))
    refine .cons
      (settles_callback fun b' s' parameters' inside types' isArrow => ?_) .nil
    rw [Node.stripParens] at isArrow
    · cases isArrow
      exact each.single.settled (by decide)
    · simp
  | @callbackInside k s n n' h a wraps isArrow inner ih =>
    obtain ⟨-, below, outer⟩ := regular_node.1 fit.head.regular
    have each := ih (.single (fit_plain (below _ List.mem_cons_self) (outer _
      List.mem_cons_self) (by decide) (by decide))) (List.forall_mem_singleton.2
      ((settled _ List.mem_cons_self).child List.mem_cons_self))
    refine .cons
      (settles_callback fun b' s' parameters' inside types' isArrow => ?_) .nil
    rcases wraps with rfl | rfl
    · rw [Node.stripParens] at isArrow
      exact each.single.body _ _ _ _ _ isArrow
    · rw [Node.stripParens] at isArrow
      · cases isArrow
      · simp
  | noCallback notArrow notInside inPlace ih =>
    have each := ih (.single (fit_plain fit.head.regular fit.head.inner
      (by decide) (by decide))) settled
    exact .cons (settles_callback each.single.body) .nil

end Settles

section Rerun

variable {options : Options} {text : String} {tree : Node}
  {comments : CommentMap} {transformed : Transformed} {analysis : Analysis}
  {plan : Plan}

/-- A program that was read is settled. -/
theorem Written.settledTree (written : Written tree) : Settled [] tree :=
  written.settled fun m _ => by rw [isGone, List.contains_nil, Bool.and_false]

/-- The result of a transformation is settled. -/
theorem Performed.settledTree (p : Performed options tree comments transformed)
    (wellRead : WellRead tree) (written : Written tree) :
    Settled [] transformed.tree := by
  obtain ⟨h, a, rewritten, -⟩ := p.rewrites
  obtain ⟨b, i, s, ns, ns', names, h', rfl, result, rfl, children, -⟩ :=
    rewrites_program wellRead.isProgram rewritten
  obtain ⟨-, below, outer⟩ := regular_node.1 wellRead.regular
  have each := rewrites_settle children (fit_place fun n hn =>
    ⟨below n hn, outer n hn⟩) fun n hn => written.settledTree.child hn
  have body : ∀ n ∈ declareIn names (ns'.filter (staysIn p.setting.removals)),
      Settled [] n ∧ staysIn [] n = true :=
    settled_body names each
  rw [result]
  refine settled_node ⟨rfl, fun _ n hn => (body n hn).2, fun i j n treated _ =>
    leftAlone_place treated n, ?_⟩ fun n hn => (body n hn).1
  simp

/-- What is to be rewritten is among the identifiers of the program. -/
theorem mem_spans_of_isTarget
    (analyzed : analyze options.importName tree = .ok analysis)
    (planned : Transform.plan analysis.table = .ok plan) {s : Option Span}
    (isTarget : plan.isTarget s = true) : s ∈ spans tree := by
  obtain ⟨h, hh, isCall⟩ := List.any_eq_true.1 isTarget
  obtain ⟨d, -, attributed⟩ := exists_of_forall₂ (attributed_of_plan planned) hh
  rw [attributed.calls] at isCall
  obtain ⟨r, hr, rfl⟩ := List.mem_map.1 (List.contains_iff_mem.1 isCall)
  have among :
      r ∈ (Table.ofOutline (outline options.importName tree)).references := by
    rw [← table_of_analyze analyzed]
    exact (List.mem_filter.1 (List.mem_filter.1 hr).1).1
  have count := listed_le_times r.span options.importName tree
  rw [times, spansAmong_single] at count
  have isListed : r.span ∈
      listed (Table.ofOutline (outline options.importName tree)) :=
    List.mem_append_right _ (List.mem_map_of_mem among)
  exact List.count_pos_iff.1
    (Nat.lt_of_lt_of_le (List.count_pos_iff.2 isListed) count)

/-- **A run over a settled program that plans no call** succeeds and does
nothing. -/
theorem transformProgram_settled (program : isProgram tree.kind = true)
    (settled : Settled [] tree)
    (analyzed : analyze options.importName tree = .ok analysis)
    (planned : Transform.plan analysis.table = .ok plan)
    (noTarget : ∀ s, plan.isTarget s = false) :
    ∃ report, transformProgram options text tree comments =
      .ok ⟨tree, comments, report⟩ ∧
      report.callsRewritten = 0 ∧ report.temporaries = [] ∧
        report.removed = [] := by
  have noCalls : ∀ h ∈ plan.helpers, h.isRemovable = false := by
    intro h hh
    have none : h.calls = [] := by
      refine List.eq_nil_iff_forall_not_mem.2 fun s hs => ?_
      have isTarget : plan.isTarget s = true :=
        List.any_eq_true.2 ⟨h, hh, List.contains_iff_mem.2 hs⟩
      cases isTarget.symm.trans (noTarget s)
    rw [HelperPlan.isRemovable, none, List.isEmpty_nil, Bool.not_true,
      Bool.and_false, Bool.false_and]
  have stay : plan.helpers.filter HelperPlan.isRemovable = [] :=
    List.filter_eq_nil_iff.2 fun h hh => by
      rw [noCalls h hh]; exact Bool.false_ne_true
  have nothing : plan.removals = [] := by
    rw [Plan.removals, stay]
    rfl
  have unplanned (m : Node) : plannedArguments? plan m = none := by
    cases given : plannedArguments? plan m with
    | none => rfl
    | some arguments =>
      cases (callee_of_planned given).1.symm.trans (noTarget _)
  unfold transformProgram
  split
  · exact ⟨_, rfl, rfl, rfl, rfl⟩
  · simp only [analyzed, planned, bind, Except.bind]
    split
    · exact ⟨_, rfl, rfl, rfl, rfl⟩
    · let setting : Setting :=
        { options
          plan
          removals := plan.removals
          programStart := itemStart tree }
      have free : setting.removals = [] := nothing
      obtain ⟨tree', progress, run⟩ :=
        succeeds_toPending free (n := tree) (fun m _ => unplanned m)
        { supply := analysis.names, comments := comments }
      obtain ⟨h, a, rewritten, adv, noted⟩ := rewrites_of_runs run
      have none : a = [] :=
        rewrites_unplanned rewritten fun n _ m _ => unplanned m
      subst none
      obtain ⟨same, -⟩ :=
        rewrites_settled rewritten (by rwa [free, List.forall_mem_singleton])
        (fun _ _ _ treated _ => leftAlone_one treated trivial) rfl
      cases same
      have comments' : progress.comments = comments :=
        keepsComments_toPending free tree _ _ _ run
      have counted : progress.calls = 0 := adv.calls
      have made : progress.temporaries = [] :=
        List.map_eq_nil_iff.1 (noted program).eq_nil
      have done : rewriteProgram options plan analysis.names tree comments =
          .ok (tree, progress) := run
      rw [done]
      refine ⟨plan.report analysis.table.unrecognized progress, ?_,
        counted, made, ?_⟩
      · rw [← comments']
        rfl
      · rw [Plan.report, stay]
        rfl

/-- **Without new calls a second run does nothing.** Where nothing is a call to
rewrite in the result that was none in the program, transforming the result
again succeeds and changes nothing. -/
theorem rerun_without_new_calls (wellRead : WellRead tree)
    (written : Written tree)
    (h : transformProgram options text tree comments = .ok transformed)
    (analyzed : analyze options.importName tree = .ok analysis)
    (planned : Transform.plan analysis.table = .ok plan) {analysis' : Analysis}
    {plan' : Plan}
    (analyzed' : analyze options.importName transformed.tree = .ok analysis')
    (planned' : Transform.plan analysis'.table = .ok plan')
    (noNew : ∀ s, plan'.isTarget s = true → plan.isTarget s = true)
    (text' : String)
    (mentioned : mayReferenceHelper text' options = true →
      mayReferenceHelper text options = true) :
    ∃ report,
      transformProgram options text' transformed.tree transformed.comments =
      .ok ⟨transformed.tree, transformed.comments, report⟩ ∧
      report.callsRewritten = 0 ∧ report.temporaries = [] ∧
        report.removed = [] := by
  rcases transformProgram_ok h
    with ⟨notThere, rfl⟩ | ⟨_, found, none, rfl⟩ | ⟨⟨p⟩⟩
  · have skipped : mayReferenceHelper text' options = false := by
      rw [← Bool.not_eq_true] at notThere ⊢
      exact fun there => notThere (mentioned there)
    refine ⟨{ isSkipped := true }, ?_, rfl, rfl, rfl⟩
    rw [transformProgram, skipped]
    rfl
  · cases analyzed.symm.trans found
    cases planned.symm.trans none
    refine transformProgram_settled wellRead.isProgram written.settledTree
      analyzed' planned' fun s => ?_
    rw [← Bool.not_eq_true]
    exact fun isTarget => by cases noNew s isTarget
  · have program : isProgram transformed.tree.kind = true := by
      obtain ⟨_, _, rewritten, -⟩ := p.rewrites
      obtain ⟨b, i, s, ns, ns', names, h', -, result, -⟩ :=
        rewrites_program wellRead.isProgram rewritten
      rw [result]
      rfl
    refine transformProgram_settled program (p.settledTree wellRead written)
      analyzed' planned' fun s => ?_
    rw [← Bool.not_eq_true]
    intro isTarget
    cases analyzed.symm.trans p.analyzed
    cases planned.symm.trans p.planned
    obtain ⟨_, _, rewritten, -⟩ := p.rewrites
    exact (targets_rewritten wellRead p (attributed_of_plan p.planned)
      rewritten).2 s (mem_targets.2 (noNew s isTarget))
      (mem_spans_of_isTarget analyzed' planned' isTarget)

/-- **A second run does nothing.** Suppose that a transformation of a script
succeeds, that the callbacks of all planned calls lead through a step, and that
what calls or assigns to a name means none of their parameters. If the text of
the result mentions the helper only if that of the program did, then
transforming the result again with the same options succeeds, leaves the program
and its comments as they are, rewrites no call, declares no temporary and
removes no helper. -/
theorem rerun_changes_nothing (wellRead : WellRead tree)
    (written : Written tree) (script : isScript tree = true)
    (apart : DeclaredApart tree)
    (h : transformProgram options text tree comments = .ok transformed)
    (analyzed : analyze options.importName tree = .ok analysis)
    (planned : Transform.plan analysis.table = .ok plan)
    (led : ∀ n ∈ subnodes tree, leads plan n = true)
    (onlyRead : ParametersRead analysis.table plan tree) (text' : String)
    (mentioned : mayReferenceHelper text' options = true →
      mayReferenceHelper text options = true) :
    ∃ report,
      transformProgram options text' transformed.tree transformed.comments =
      .ok ⟨transformed.tree, transformed.comments, report⟩ ∧
      report.callsRewritten = 0 ∧ report.temporaries = [] ∧
        report.removed = [] := by
  have rerun (same : transformed.tree = tree) :=
    rerun_without_new_calls wellRead written h analyzed planned
    (same ▸ analyzed) planned (fun _ isTarget => isTarget) text' mentioned
  rcases transformProgram_ok h with ⟨-, rfl⟩ | ⟨_, -, -, rfl⟩ | ⟨⟨p⟩⟩
  · exact rerun rfl
  · exact rerun rfl
  · cases analyzed.symm.trans p.analyzed
    cases planned.symm.trans p.planned
    have plain : isPlain tree = true := (Bool.and_eq_true_iff.1 script).1
    have guarded := p.guarded_of_leads wellRead led
    obtain ⟨analysis', analyzed'⟩ := p.analyzed_result wellRead plain apart
    obtain ⟨plan', planned'⟩ :=
      p.planned_result wellRead written script apart guarded onlyRead
    have stem : ∀ s, plan'.isTarget s = true → p.plan.isTarget s = true :=
      fun s => p.targets_stem wellRead written script apart guarded onlyRead
        planned'
    rw [← table_of_analyze analyzed'] at planned'
    exact rerun_without_new_calls wellRead written h analyzed planned analyzed'
      planned' stem text' mentioned

end Rerun

/-- A program that calls the helper and also uses it in another way. -/
def keptHelperText : String :=
  "import idx from 'idx'; idx(a, _ => _.b); f(idx);"

/-- The tree of `keptHelperText`. -/
def keptHelper : Node :=
  let use := readAt .call 41 47 [readAt (.ident "f") 41 42 [],
    .ofList [readAt (.ident "idx") 43 46 []], .none]
  readAt (.program true none) 0 48 [shortImport,
    readAt .exprStmt 23 40 [shortCall 23 "a" "b"], readAt .exprStmt 41 48 [use]]

/-- The text of what becomes of `keptHelper`, which still mentions the
helper. -/
def keptHelperResultText : String :=
  "import idx from 'idx'; var _ref; (_ref = a) != null ? _ref.b : _ref; f(idx);"

theorem wellRead_keptHelper : WellRead keptHelper :=
  ⟨rfl, by decide +kernel, by decide +kernel, by decide +kernel,
    by decide +kernel⟩

theorem written_keptHelper : Written keptHelper := by
  unfold Written
  decide +kernel

/-- The call is rewritten in the first run, and nothing is done in the second
run, although the helper is still there. -/
theorem rerun_changes_nothing_keptHelper :
    ∃ transformed report, transformProgram {} keptHelperText keptHelper {} =
      .ok transformed ∧
      mayReferenceHelper keptHelperResultText {} = true ∧
        transformed.report.callsRewritten = 1 ∧
      transformProgram
        {} keptHelperResultText transformed.tree transformed.comments =
        .ok ⟨transformed.tree, transformed.comments, report⟩ ∧
      report.callsRewritten = 0 ∧ report.temporaries = [] ∧
        report.removed = [] := by
  obtain ⟨transformed, done⟩ : ∃ transformed, transformProgram
      {} keptHelperText keptHelper {} = .ok transformed := ⟨_, rfl⟩
  obtain ⟨analysis, analyzed⟩ : ∃ analysis, analyze "idx" keptHelper =
      .ok analysis := ⟨_, rfl⟩
  obtain ⟨plan, planned⟩ : ∃ plan, Transform.plan analysis.table = .ok plan :=
    by
    cases analyzed
    exact ⟨_, rfl⟩
  have onlyRead : ParametersRead analysis.table plan keptHelper := by
    have apart : ∀ r ∈ analysis.table.references, r.kind ≠ .read →
        (analysis.table.meaning r.scope r.name).all (fun d =>
          !(movedParameters plan keptHelper).contains d.span) = true := by
      cases analyzed
      cases planned
      decide +kernel
    intro r hr notRead d means moved
    have free := apart r hr notRead
    rw [means, Option.all_some, List.contains_iff_mem.2 moved] at free
    cases free
  have led : ∀ n ∈ subnodes keptHelper, leads plan n = true := by
    cases analyzed
    cases planned
    decide +kernel
  obtain ⟨report, again, nothing⟩ := rerun_changes_nothing
    wellRead_keptHelper written_keptHelper (by decide +kernel)
    (by unfold DeclaredApart; decide +kernel) done analyzed planned led
    onlyRead keptHelperResultText (fun _ => by decide +kernel)
  refine ⟨transformed, report, done, by decide +kernel, ?_, again, nothing⟩
  cases done
  rfl

end NullGuard.Transform
