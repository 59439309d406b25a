import NullGuard.Proofs.Composites
import NullGuard.Proofs.Conveying
import NullGuard.Proofs.Settled

/-!
# What a transformation leaves alone

A transformation changes the calls that it rewrites and the declarations that it
removes, and nothing else.

`rewrites_untouched` is one half of this: nodes in which no call is to be
rewritten and nothing goes away become themselves, with no temporaries to
declare around them. The other half is about the nodes around a call:
`rewrites_pass` says that a node shows in the result whatever remains of it, and
conveys the parts of a callback to the chain that its call becomes
(`conveyance_shown`). It uses that parts of the program that are never looked
at, such as types, hold no call to rewrite, because every planned call is
rewritten (`Accounted`).

`remaining_nodes_stand` puts the two together for a whole transformation.
-/

namespace NullGuard.Transform

open NullGuard.Text (Span)
open NullGuard.Tree NullGuard.Chain NullGuard.Scope

section Untouched

variable {setting : Setting} {removals : List (Option Span)}
  {js : List Treatment} {k : Kind} {s : Option Span} {ns ns' : List Node}
  {h : List String} {a : List RewrittenCall}

/-- **Nodes that are not touched become themselves.** -/
theorem rewrites_untouched (same : setting.removals = setting.plan.removals)
    (rewritten : Rewrites setting js ns ns' h a) (written : ∀ n ∈ ns, Written n)
    (untouched : ∀ n ∈ ns, Untouched setting.plan n) :
    ns' = ns ∧ h = [] ∧ a = [] := by
  have stays : ∀ n ∈ ns, ∀ m ∈ subnodes n, isGone setting.removals m = false :=
    fun n hn m hm =>
    same ▸ (isTouched_eq_false.1 (untouched n hn m hm)).2
  have none : a = [] := rewrites_unplanned rewritten fun n hn m hm =>
    (isTouched_eq_false.1 (untouched n hn m hm)).1
  obtain ⟨unchanged, nothing⟩ := rewrites_settled rewritten
    (fun n hn => (written n hn).settled (stays n hn)) (fun _ j n _ there => by
      have mem := List.mem_of_getElem? there
      exact leftAlone_written (written n mem) (stays n mem) j) none
  exact ⟨unchanged, nothing, none⟩

end Untouched

/-- The identifiers of some nodes have spans of their own, and the calls to
rewrite among them were rewritten. -/
structure Accounted (plan : Plan) (ns : List Node) (a : List RewrittenCall) :
    Prop where
  once : ∀ s, s ≠ none → times s ns ≤ 1
  reached : ∀ s ∈ spansAmong ns, plan.isTarget s = true → s ≠ none ∧
    s ∈ a.map RewrittenCall.callee

section Accounted

variable {setting : Setting} {plan : Plan} {js : List Treatment} {n n' : Node}
  {k : Kind} {s : Option Span} {ns ms ns' : List Node} {h : List String}
  {a b : List RewrittenCall}

/-- What is accounted for among some nodes is accounted for among fewer. -/
theorem Accounted.mono (accounted : Accounted plan ns a)
    (fewer : ∀ s, times s ms ≤ times s ns) : Accounted plan ms a where
  once s given := Nat.le_trans (fewer s) (accounted.once s given)
  reached s there := accounted.reached s
    (times_pos.1 (Nat.lt_of_lt_of_le (times_pos.2 there) (fewer s)))

theorem Accounted.children (accounted : Accounted plan [.node k s ns] a) :
    Accounted plan ns a :=
  accounted.mono fun _ => times_children_le

/-- Some of the calls are not needed for the nodes that their callees are not
in. -/
theorem Accounted.without (accounted : Accounted plan ns (a ++ b))
    (other : ∀ s, s ≠ none → s ∈ spansAmong ns →
      s ∉ b.map RewrittenCall.callee) : Accounted plan ns a where
  once := accounted.once
  reached s there isTarget := by
    obtain ⟨given, among⟩ := accounted.reached s there isTarget
    rw [List.map_append, List.mem_append] at among
    exact ⟨given, among.resolve_right (other s given there)⟩

theorem Accounted.head (accounted : Accounted setting.plan (n :: ns) (a ++ b))
    (tail : Rewrites setting js ns ns' h b) : Accounted setting.plan [n] a := by
  refine (accounted.mono fun s => ?_).without fun s given there inTail => ?_
  · rw [times_cons n ns]
    exact Nat.le_add_right _ _
  · obtain ⟨r, hr, rfl⟩ := List.mem_map.1 inTail
    have bound := accounted.once r.callee given
    have first := times_pos.2 there
    have second := times_pos.2 (rewrites_targets tail r hr).2
    rw [times_cons n ns] at bound
    omega

theorem Accounted.tail (accounted : Accounted setting.plan (n :: ns) (a ++ b))
    (head : Rewrites setting js [n] [n'] h a) :
    Accounted setting.plan ns b := by
  have swapped : Accounted setting.plan (n :: ns) (b ++ a) :=
    ⟨accounted.once, fun s there isTarget => by
      obtain ⟨given, among⟩ := accounted.reached s there isTarget
      exact ⟨given, (List.perm_append_comm.map _).mem_iff.1 among⟩⟩
  refine (swapped.mono fun s => ?_).without fun s given there inHead => ?_
  · rw [times_cons n ns]
    exact Nat.le_add_left _ _
  · obtain ⟨r, hr, rfl⟩ := List.mem_map.1 inHead
    have bound := accounted.once r.callee given
    have second := times_pos.2 there
    have first := times_pos.2 (rewrites_targets head r hr).2
    rw [times_cons n ns] at bound
    omega

theorem Accounted.arguments {arguments : Node} {t : Option String}
    (accounted : Accounted plan [n] (a ++ [⟨calleeSpan n, t⟩]))
    (planned : plannedArguments? plan n = some arguments) :
    Accounted plan arguments.children a := by
  have beside := (callee_of_planned planned).2
  refine (accounted.mono fun s => ?_).without fun s given there isCallee => ?_
  · exact Nat.le_trans (Nat.le_add_right _ _) (beside s)
  · obtain rfl : s = calleeSpan n := List.mem_singleton.1 isCallee
    have bound := accounted.once _ given
    have inside := times_pos.2 there
    have both := beside (calleeSpan n)
    rw [List.count_singleton_self] at both
    omega

/-- Where no call was rewritten none was to be. -/
theorem Accounted.unplanned (accounted : Accounted plan ns []) :
    ∀ n ∈ ns, ∀ m ∈ subnodes n, plannedArguments? plan m = none := by
  intro n hn m hm
  cases planned : plannedArguments? plan m with
  | none => rfl
  | some arguments =>
    obtain ⟨isTarget, beside⟩ := callee_of_planned planned
    have inM : calleeSpan m ∈ spansAmong [m] := by
      have there := beside (calleeSpan m)
      rw [List.count_singleton_self] at there
      exact times_pos.1 (by omega)
    rw [spansAmong_single, mem_spans] at inM
    obtain ⟨x, named⟩ := inM
    have among : calleeSpan m ∈ spansAmong ns :=
      mem_spansAmong.2
        ⟨n, hn, mem_spans.2 ⟨x, (mem_subnodes.1 hm).mentions named⟩⟩
    cases (accounted.reached _ among isTarget).2

/-- Where no call is to be rewritten, what has to be left stands there. -/
theorem Remains.shows {ps : List Situated} (remains : Remains plan ns ps)
    (written : ∀ n ∈ ns, Written n)
    (unplanned : ∀ n ∈ ns, ∀ m ∈ subnodes n, plannedArguments? plan m = none) :
    Shows plan.removals ns ps := by
  induction remains with
  | nil => exact .nil
  | pass n rest ih =>
    exact .pass n (ih (fun m hm => written m (List.mem_cons_of_mem _ hm))
      fun m hm => unplanned m (List.mem_cons_of_mem _ hm))
  | here untouched whole rest ih =>
    exact .here (written _ List.mem_cons_self)
      (isTouched_eq_false.1 untouched.self).2 whole
      (ih (fun m hm => written m (List.mem_cons_of_mem _ hm)) fun m hm =>
      unplanned m (List.mem_cons_of_mem _ hm))
  | inside plain within rest ih ih' =>
    refine .inside (isTouched_eq_false.1 plain).2
      (ih (fun m hm => (written _ List.mem_cons_self).child hm) ?_)
      (ih' (fun m hm => written m (List.mem_cons_of_mem _ hm)) fun m hm =>
      unplanned m (List.mem_cons_of_mem _ hm))
    exact fun m hm m' hm' => unplanned _ List.mem_cons_self m'
      (mem_subnodes.2 (.inside hm (mem_subnodes.1 hm')))
  | call planned within rest ih ih' =>
    cases planned.symm.trans
      (unplanned _ List.mem_cons_self _ (mem_subnodes.2 .here))

end Accounted

/-- Some nodes show whatever has to be left of others. -/
def Shown (plan : Plan) (ns ns' : List Node) : Prop :=
  ∀ ps, Remains plan ns ps → Shows plan.removals ns' ps

/-- **What remains is conveyed by a call**: the parts stand in the conditional
that it becomes. -/
theorem shown_call {plan : Plan} {n arguments base callback : Node}
    {c : AccessChain} (t : String)
    (planned : plannedArguments? plan n = some arguments)
    (given : arguments.children = [base, callback]) (span : c.span = n.span)
    (empty : callbackParts plan callback = [] ↔ c.steps = [])
    (shown : Shown plan (base :: callbackParts plan callback)
      (c.base :: pieces c.steps)) :
    Shown plan [n] [c.expression t] := by
  intro ps remains
  have touched : isTouched plan n = true := by
    rw [isTouched, planned]
    rfl
  rcases remains.single with rfl | ⟨-, untouched, -⟩ | ⟨_, -, plain, -⟩ | ⟨_,
    qs, rfl, planned', within⟩
  · exact .nothing ..
  · cases touched.symm.trans untouched.self
  · cases touched.symm.trans plain
  · cases planned.symm.trans planned'
    have parts : callParts plan arguments.children = base ::
        callbackParts plan callback := by
      rw [given, callParts]
    rw [parts] at within ⊢
    have placed := shows_expression t (shown qs within)
    have moved :
      qs.map (Situated.inCall (base :: callbackParts plan callback) n.span) =
        if c.needsTemporary then qs.map (.under .cond c.span) else qs := by
      rw [span, AccessChain.needsTemporary]
      cases steps : c.steps with
      | nil =>
        rw [empty.2 steps]
        exact List.map_id qs
      | cons step rest =>
        have some : callbackParts plan callback ≠ [] := fun none => by
          cases steps.symm.trans (empty.1 none)
        have more : ¬ (base :: callbackParts plan callback).length ≤ 1 := by
          have positive := List.length_pos_iff.2 some
          rw [List.length_cons]
          omega
        refine List.map_congr_left fun p _ => ?_
        rw [Situated.inCall, if_neg more]
    rwa [moved]

theorem conveyance_shown (plan : Plan) : Conveyance plan (Shown plan) where
  nil ps remains := by
    cases remains
    exact .nil
  append left right ps remains := by
    obtain ⟨qs, rs, rfl, first, others⟩ := remains.of_append
    exact (left qs first).append (right rs others)
  list shown ps remains := shows_list.1 (shown ps remains)
  item shown ps remains := showing_unwrapItem _ ps (shown ps remains)
  items shown ps remains :=
    showing_mapItems showing_unwrapItem _ ps (shown ps remains)
  call := shown_call

/-- **What a node that is treated in a way reveals** of what has to be left. A
block comes from a block, whose items it shows. -/
structure Reveals (plan : Plan) (j : Treatment) (n n' : Node) :
    Prop extends Passes plan (Shown plan) j n n' where
  block : j = .place → ∀ s items, n' = .node .block s items →
    ∃ ns, n = .node .block s ns ∧
    Shown plan ns items

section Passes

variable {setting : Setting} {plan : Plan} {j : Treatment} {js : List Treatment}
  {n n' : Node} {k : Kind} {s : Option Span} {ns ns' ms : List Node}
  {h : List String} {a : List RewrittenCall} {ps : List Situated}

/-- Several nodes that are not the callback of a call show what remains of
them. -/
theorem shown_of_reveals (h : Each (Reveals plan) js ns ns')
    (noCallback : ∀ j ∈ js, j ≠ .callback) : Shown plan ns ns' :=
  (conveyance_shown plan).all (h.imp fun _ _ _ => Reveals.toPasses) noCallback

/-- What is rewritten neither in its own place nor as a callback has to show
what remains of it. -/
theorem Reveals.of_shown (notPlace : j ≠ .place) (notArrowBody : j ≠ .arrowBody)
    (notCallback : j ≠ .callback) (shown : Shown plan [n] [n']) :
    Reveals plan j n n' :=
  ⟨.of_conveyed notPlace notArrowBody notCallback shown,
    fun same => absurd same notPlace⟩

/-- A node that is not touched is left where it was. -/
theorem shows_untouched (same : setting.removals = setting.plan.removals)
    (rewritten : Rewrites setting [j] [n] [n'] h a) (written : Written n)
    (untouched : Untouched setting.plan n) (whole : n.kind ≠ .list) :
    Shows setting.plan.removals [n'] [⟨[], n⟩] := by
  obtain ⟨unchanged, -⟩ :=
    rewrites_untouched same rewritten (List.forall_mem_singleton.2 written)
    (List.forall_mem_singleton.2 untouched)
  cases unchanged
  exact .here written (isTouched_eq_false.1 untouched.self).2 whole .nil

/-- A node that keeps its kind and span, and whose children pass, shows what
remains of it. -/
theorem shows_node (same : setting.removals = setting.plan.removals)
    (rewritten : Rewrites setting [j] [.node k s ns] [.node k s ms] h a)
    (written : Written (.node k s ns))
    (unplanned : plannedArguments? setting.plan (.node k s ns) = none)
    (inside : Shown setting.plan ns ms) :
    Shown setting.plan [.node k s ns] [.node k s ms] := by
  intro ps remains
  rcases remains.single with rfl | ⟨rfl, untouched, whole⟩ | ⟨qs, rfl, plain,
    within⟩ | ⟨_, _, _, planned, -⟩
  · exact .nothing ..
  · exact shows_untouched same rewritten written untouched whole
  · exact Shows.within (isTouched_eq_false.1 plain).2 (inside qs within)
  · cases planned.symm.trans unplanned

/-- Only calls are planned. -/
theorem unplanned_of_kind (notCall : k ≠ .call) :
    plannedArguments? plan (.node k s ns) = none := by
  unfold plannedArguments?
  split
  · rename_i same
    cases same
    exact absurd rfl notCall
  · rfl

/-- A plan without helpers rewrites no call. -/
theorem unplanned_of_no_helpers (n : Node) :
    plannedArguments? ⟨[]⟩ n = none := by
  cases isPlanned : plannedArguments? ⟨[]⟩ n with
  | none => rfl
  | some arguments => cases (callee_of_planned isPlanned).1

/-- The declarators of a declaration stay declarators. -/
theorem declarators_of_rewrites (written : Written (.node k s ns))
    (isRegular : regular (.node k s ns) = true)
    (children : Rewrites setting (treatments k ns) ns ns' h a) :
    ∀ w d, k = .varDecl w d → ∀ n' ∈ ns', isDeclarator n'.kind = true := by
  rintro w d rfl n' hn'
  obtain ⟨i, there⟩ := List.mem_iff_getElem?.1 hn'
  obtain ⟨j, n, treated, child, kept⟩ :=
    (rewrites_kept children (fit_treatments isRegular)).get there
  have placed : (ns.map fun _ => Treatment.place)[i]? = some j := treated
  have isPlace : j = .place := eq_of_map placed
  have was :=
    declarators_of_written written w d rfl n (List.mem_of_getElem? child)
  rwa [(kept.stays (by rw [isPlace]; rfl)).kind]
  intro isCall
  rw [isCall] at was
  cases was

/-- The body of an arrow function passes, and so does what it leads through if
it stays an expression. -/
theorem reveals_arrowBody {names : List String}
    (same : setting.removals = setting.plan.removals) (written : Written n)
    (rewritten : Rewrites setting [.arrowBody] [n] [arrowBody names n'] h a)
    (reveals : Reveals setting.plan .place n n') :
    Reveals setting.plan .arrowBody n (arrowBody names n') where
  conveyed _ := by
    by_cases isBlock : n'.kind = .block
    · obtain ⟨k', s, items⟩ := n'
      cases isBlock
      obtain ⟨ns, rfl, inside⟩ := reveals.block rfl s items rfl
      exact shows_node same rewritten written (unplanned_of_kind (by simp))
        fun ps remains => shows_declareIn names (inside ps remains)
    · exact fun ps remains => shows_arrowBody names isBlock
        (reveals.conveyed (by simp) ps remains)
  block same := nomatch same
  chain _ policy name steps spine :=
    reveals.chain (.inl rfl) policy name steps (spine_of_arrowBody spine)
  callback same := by rcases same with same | same <;> cases same

/-- **Every rewrite reveals what remains**, where all planned calls are
accounted for. -/
theorem rewrites_pass (same : setting.removals = setting.plan.removals)
    (rewritten : Rewrites setting js ns ns' h a) (fit : AllFit js ns)
    (written : ∀ n ∈ ns, Written n) (accounted : Accounted setting.plan ns a) :
    Each (Reveals setting.plan) js ns ns' := by
  have closed := conveyance_shown setting.plan
  induction rewritten with
  | nil => exact .nil
  | cons head tail ih ih' =>
    obtain ⟨first, others⟩ := List.forall_mem_cons.1 written
    exact .cons (ih (.single fit.head) (List.forall_mem_singleton.2 first)
      (accounted.head tail)).single (ih' fit.tail others (accounted.tail head))
  | keep n =>
    exact .cons (.of_shown (by simp) (by simp) (by simp) fun ps remains =>
      remains.shows written accounted.unplanned) .nil
  | @node k s ns ns' h a notProgram unplanned children ih =>
    have whole := written _ List.mem_cons_self
    have isRegular := fit.head.regular
    have reveals := ih (fit_treatments isRegular)
      (fun n hn => whole.child hn) accounted.children
    have shown := shown_of_reveals reveals notCallback_of_treatments
    have pass := reveals.imp fun _ _ _ => Reveals.toPasses
    refine .cons ⟨⟨fun _ => ?_, fun _ => ?_,
      fun _ b s' _ body types isArrow => ?_⟩, fun _ s' items isBlock => ?_⟩ .nil
    · refine shows_node same (.node notProgram unplanned children) whole
        unplanned fun ps remains => ?_
      rw [same]
      exact shows_finish (declarators_of_rewrites whole isRegular children)
        (shown ps remains)
    · exact chain_node closed setting.removals unplanned pass
    · exact callback_node setting.removals pass isArrow
    · simp only [Node.node.injEq] at isBlock
      obtain ⟨rfl, rfl, rfl⟩ := isBlock
      refine ⟨ns, rfl, fun ps remains => ?_⟩
      rw [same]
      exact shows_filter_staysIn (shown ps remains)
  | program => cases fit.head.inner
  | @items k s ns ns' h a children ih =>
    have whole := written _ List.mem_cons_self
    obtain ⟨-, below, outer⟩ := regular_node.1 fit.head.regular
    have reveals := ih (fit_place fun n hn => ⟨below n hn, outer n hn⟩)
      (fun n hn => whole.child hn) accounted.children
    have isList : k = .list := eq_of_beq (fit.head.items rfl)
    subst isList
    refine .cons (.of_shown (by simp) (by simp) (by simp) ?_) .nil
    refine shows_node same (.items children) whole (unplanned_of_kind (by simp))
      fun ps remains => ?_
    rw [same]
    exact shows_filter_staysIn
      (shown_of_reveals reveals notCallback_of_place ps remains)
  | @block s ns ns' names h a children all ih =>
    have whole := written _ List.mem_cons_self
    obtain ⟨-, below, outer⟩ := regular_node.1 fit.head.regular
    have reveals := ih (fit_place fun n hn => ⟨below n hn, outer n hn⟩)
      (fun n hn => whole.child hn) accounted.children
    refine .cons (.of_shown (by simp) (by simp) (by simp) ?_) .nil
    refine shows_node same (.block children all) whole
      (unplanned_of_kind (by simp)) fun ps remains => ?_
    rw [same]
    exact shows_declareIn names (shows_filter_staysIn
      (shown_of_reveals reveals notCallback_of_place ps remains))
  | noBlock notBlock inPlace ih =>
    have reveals := (ih (.single (fit_plain fit.head.regular fit.head.inner
      (by simp) (by simp))) written accounted).single
    exact .cons (.of_shown (by simp) (by simp) (by simp)
      (reveals.conveyed (by simp))) .nil
  | @function k s ns ns' h a parts ih =>
    have whole := written _ List.mem_cons_self
    have fits := fit.head.function rfl
    cases k with
    | function b g =>
      have reveals :
          Each (Reveals setting.plan) (treatments (.function b g) ns) ns ns' :=
        ih (fit_treatments fit.head.regular)
          (fun n hn => whole.child hn) accounted.children
      refine .cons (.of_shown (by simp) (by simp) (by simp) ?_) .nil
      exact shows_node same (.function parts) whole (unplanned_of_kind
        (by simp)) (shown_of_reveals reveals notCallback_of_treatments)
    | _ => cases fits
  | arrowBody inPlace all ih =>
    have reveals := (ih (.single (fit_plain fit.head.regular fit.head.inner
      (by simp) (by simp))) written accounted).single
    exact .cons (reveals_arrowBody same (written _ List.mem_cons_self)
      (.arrowBody inPlace all) reveals) .nil
  | base planned children taken bare ih
      | guarded planned children taken needed ih =>
    have inArguments :=
      fit_arguments (regular_plannedArguments planned fit.head.regular)
    have reveals := ih inArguments
      (fun n hn => (written _ List.mem_cons_self).argument planned hn)
      (accounted.arguments planned)
    have pass := reveals.imp fun _ _ _ => Reveals.toPasses
    refine .cons ⟨passes_call closed _ planned pass taken,
      fun _ s items isBlock => ?_⟩ .nil
    cases (congrArg Node.kind isBlock).symm.trans (kind_expression _ _)
  | @callbackArrow b s parameters body body' types h a inner ih =>
    have whole := written _ List.mem_cons_self
    obtain ⟨-, below, outer⟩ := regular_node.1 fit.head.regular
    have second : body ∈ parameters :: body :: types :=
      List.mem_cons_of_mem _ List.mem_cons_self
    have fewer s : times s [body] ≤ times s (parameters :: body :: types) := by
      rw [times_cons parameters (body :: types), times_cons body types]
      omega
    have reveals := (ih (.single (fit_plain (below _ second) (outer _ second)
      (by simp) (by simp))) (List.forall_mem_singleton.2 (whole.child second))
      (accounted.children.mono fewer)).single
    exact .cons ⟨reveals.toPasses.arrow, nofun⟩ .nil
  | @callbackInside k s n n' h a wraps isArrow inside ih =>
    have whole := written _ List.mem_cons_self
    obtain ⟨-, below, outer⟩ := regular_node.1 fit.head.regular
    have reveals := (ih (.single (fit_plain (below _ List.mem_cons_self) (outer
      _ List.mem_cons_self) (by simp) (by simp))) (List.forall_mem_singleton.2
      (whole.child List.mem_cons_self)) accounted.children).single
    exact .cons ⟨.inside wraps reveals.toPasses, nofun⟩ .nil
  | noCallback _ _ inPlace ih =>
    have reveals := (ih (.single (fit_plain fit.head.regular fit.head.inner
      (by simp) (by simp))) written accounted).single
    exact .cons ⟨reveals.toPasses.asCallback, nofun⟩ .nil

end Passes

section Performed

variable {options : Options} {text : String} {tree : Node}
  {comments : CommentMap} {transformed : Transformed}

namespace Performed

variable (p : Performed options tree comments transformed)

/-- A transformation accounts for all planned calls. -/
theorem accounted (wellRead : WellRead tree) {h : List String}
    {a : List RewrittenCall}
    (rewritten : Rewrites p.setting [.place] [tree] [transformed.tree] h a) :
    Accounted p.plan [tree] a where
  once s _ := by
    rw [times, spansAmong_single]
    exact List.nodup_iff_count_le_one.1 wellRead.distinct s
  reached s there isTarget := by
    rw [spansAmong_single] at there
    refine ⟨fun same => wellRead.given (same ▸ there), ?_⟩
    exact (targets_rewritten wellRead p (attributed_of_plan p.planned)
      rewritten).1.mem_iff.2 (mem_targets.2 isTarget)

/-- What remains of the program stands in the result. -/
theorem shows (wellRead : WellRead tree) (written : Written tree)
    {ps : List Situated} (remains : Remains p.plan [tree] ps) :
    Shows p.plan.removals [transformed.tree] ps := by
  obtain ⟨h, a, rewritten, -⟩ := p.rewrites
  have accounted := p.accounted wellRead rewritten
  obtain ⟨b, i, s, ns, ns', names, h', rfl, result, -, children, -⟩ :=
    rewrites_program wellRead.isProgram rewritten
  obtain ⟨-, below, outer⟩ := regular_node.1 wellRead.regular
  have pass := rewrites_pass rfl children (fit_place fun n hn =>
    ⟨below n hn, outer n hn⟩) (fun n hn => written.child hn) accounted.children
  have shown := shown_of_reveals pass notCallback_of_place
  rw [result] at rewritten ⊢
  exact shows_node rfl rewritten written (unplanned_of_kind (by simp))
    (fun ps remains => shows_declareIn names
    (shows_filter_staysIn (shown ps remains))) ps remains

include p in
/-- A transformation that rewrote no call and removed nothing changed
nothing. -/
theorem unchanged (wellRead : WellRead tree) (written : Written tree)
    (same : transformed.report.isChanged = false) :
    transformed.tree = tree ∧ transformed.comments = comments := by
  obtain ⟨h, a, rewritten, adv, -⟩ := p.rewrites
  rw [p.report, Report.isChanged, Bool.or_eq_false_iff, decide_eq_false_iff_not,
    Bool.not_eq_false'] at same
  obtain ⟨noCalls, noRemovals⟩ := same
  have none : a = [] := by
    have counted : p.progress.calls = a.length :=
      adv.calls.trans (Nat.zero_add _)
    refine List.length_eq_zero_iff.1
      (counted.symm.trans (Nat.eq_zero_of_not_pos noCalls))
  have nothing : p.plan.removals = [] := by
    have empty := List.map_eq_nil_iff.1 (List.isEmpty_iff.1 noRemovals)
    rw [Plan.removals, empty]
    rfl
  have accounted := p.accounted wellRead rewritten
  rw [none] at accounted
  have untouched : Untouched p.plan tree := fun m hm =>
    isTouched_eq_false.2 ⟨accounted.unplanned tree List.mem_cons_self m hm,
      by rw [isGone, nothing]; simp⟩
  obtain ⟨unchanged, -⟩ :=
    rewrites_untouched rfl rewritten (List.forall_mem_singleton.2 written)
    (List.forall_mem_singleton.2 untouched)
  refine ⟨List.singleton_inj.1 unchanged, p.settled.trans ?_⟩
  have removesNone : p.setting.removals = [] := nothing
  exact keepsComments_toPending removesNone tree _ _ _ p.rewritten

end Performed

/-- **What a transformation leaves alone.** If it reports no change, neither the
tree nor the comments changed. Otherwise it skipped the program, or whatever
remains of the program under its plan stands in the result: in the same order,
and each node below the same nodes. -/
theorem remaining_nodes_stand (wellRead : WellRead tree)
    (written : Written tree)
    (h : transformProgram options text tree comments = .ok transformed) :
    (transformed.report.isChanged = false → transformed.tree = tree ∧
      transformed.comments = comments) ∧
      ((mayReferenceHelper text options = false ∧
        transformed = ⟨tree, comments, { isSkipped := true }⟩) ∨
        ∃ analysis plan, analyze options.importName tree = .ok analysis ∧
        Transform.plan analysis.table = .ok plan ∧
        ∀ ps, Remains plan [tree] ps →
          Shows plan.removals [transformed.tree] ps) := by
  rcases transformProgram_ok h
    with ⟨notThere, rfl⟩ | ⟨analysis, analyzed, planned, rfl⟩ | ⟨⟨p⟩⟩
  · exact ⟨fun _ => ⟨rfl, rfl⟩, .inl ⟨notThere, rfl⟩⟩
  · refine ⟨fun _ => ⟨rfl, rfl⟩,
      .inr ⟨analysis, ⟨[]⟩, analyzed, planned, fun ps remains => ?_⟩⟩
    exact remains.shows (List.forall_mem_singleton.2 written) fun _ _ m _ =>
      unplanned_of_no_helpers m
  · exact ⟨p.unchanged wellRead written, .inr ⟨p.analysis, p.plan, p.analyzed,
      p.planned, fun ps remains => p.shows wellRead written remains⟩⟩

end Performed

/-- A program whose helper is required with a further argument. -/
def keyedRequireText : String :=
  "const idx = require('idx', f()); idx(a, _ => _[b]);"

/-- `f()` in `keyedRequireText`. -/
def furtherArgument : Node :=
  readAt .call 27 30 [readAt (.ident "f") 27 28 [], .ofList [], .none]

/-- The tree of `keyedRequireText`. -/
def keyedRequire : Node :=
  let required := readAt .call 12 31 [readAt (.ident "require") 12 19 [],
    .ofList [readAt (.str "'idx'" (some "idx")) 20 25 [], furtherArgument],
    .none]
  let parameter := readAt (.bindingIdent "_" false) 40 41 [.none]
  let body := readAt .member 45 49 [readAt (.ident "_") 45 46 [],
    readAt .computed 46 49 [readAt (.ident "b") 47 48 []]]
  let call := readAt .call 33 50 [readAt (.ident "idx") 33 36 [],
    .ofList [readAt (.ident "a") 37 38 [], readAt (.arrow false) 40 49
    [.ofList [parameter], body, .none, .none]], .none]
  readAt (.program false none) 0 51 [readAt (.varDecl .const false) 0 32
    [readAt (.declarator false) 6 31 [readAt (.bindingIdent "idx" false) 6 9
    [.none], required]], readAt .exprStmt 33 51 [call]]

/-- The plan for `keyedRequire`: its one call is rewritten, and the declaration
goes away. -/
def keyedRequirePlan : Plan :=
  ⟨[⟨"idx", .required (some ⟨6, 31⟩) false, some ⟨6, 9⟩, [some ⟨33, 36⟩], []⟩]⟩

theorem wellRead_keyedRequire : WellRead keyedRequire :=
  ⟨rfl, by decide +kernel, by decide +kernel, by decide +kernel,
    by decide +kernel⟩

theorem written_keyedRequire : Written keyedRequire := by
  unfold Written
  decide +kernel

theorem planned_keyedRequire :
    ∃ analysis, analyze "idx" keyedRequire = .ok analysis ∧
      Transform.plan analysis.table = .ok keyedRequirePlan :=
  ⟨_, rfl, rfl⟩

/-- The base and the key of a call still stand in the program, in the
conditional that the call became. -/
theorem remaining_nodes_stand_keyedRequire :
    ∃ transformed, transformProgram {} keyedRequireText keyedRequire {} =
      .ok transformed ∧
      Shows keyedRequirePlan.removals [transformed.tree]
        (let around := [(.program false none, some ⟨0, 51⟩),
        (.exprStmt, some ⟨33, 51⟩), (.cond, some ⟨33, 50⟩)]
        [⟨around, readAt (.ident "a") 37 38 []⟩, ⟨around ++
        [(.computed, some ⟨46, 49⟩)], readAt (.ident "b") 47 48 []⟩]) := by
  obtain ⟨transformed, done⟩ : ∃ transformed, transformProgram
      {} keyedRequireText keyedRequire {} = .ok transformed :=
    ⟨_, rfl⟩
  obtain ⟨analysis, analyzed, planned⟩ := planned_keyedRequire
  have untouched (x : String) (start stop : Nat) :
      Untouched keyedRequirePlan (readAt (.ident x) start stop []) := by
    intro m hm
    cases List.mem_singleton.1 hm
    rfl
  have base := untouched "a" 37 38
  have key : Remains keyedRequirePlan
      [readAt .computed 46 49 [readAt (.ident "b") 47 48 []]]
      [⟨[(.computed, some ⟨46, 49⟩)], readAt (.ident "b") 47 48 []⟩] :=
    .inside rfl (.here (untouched "b" 47 48) (by decide) .nil) .nil
  have remains : Remains keyedRequirePlan [keyedRequire] _ :=
    .inside rfl (.pass _
      (.inside rfl (.call rfl (.here base (by decide) key) .nil) .nil)) .nil
  rcases (remaining_nodes_stand wellRead_keyedRequire written_keyedRequire
    done).2 with
    ⟨notThere, -⟩ | ⟨_, _, analyzed', planned', stand⟩
  · exact absurd notThere (by decide +kernel)
  · cases analyzed.symm.trans analyzed'
    cases planned.symm.trans planned'
    exact ⟨transformed, done, stand _ remains⟩

/-- **What stands in a declaration that goes away goes with it**, although it is
in no call to rewrite and nothing in it is touched. -/
theorem removed_declaration_takes_its_parts :
    ∃ transformed analysis, WellRead keyedRequire ∧ Written keyedRequire ∧
      transformProgram {} keyedRequireText keyedRequire {} = .ok transformed ∧
      analyze "idx" keyedRequire = .ok analysis ∧
      Transform.plan analysis.table = .ok keyedRequirePlan ∧ furtherArgument ∈
      subnodes keyedRequire ∧ Untouched keyedRequirePlan furtherArgument ∧
      (∀ m ∈ subnodes keyedRequire, plannedArguments? keyedRequirePlan m ≠
        none → furtherArgument ∉ subnodes m) ∧
      furtherArgument ∉ subnodes transformed.tree := by
  obtain ⟨transformed, done⟩ : ∃ transformed, transformProgram
      {} keyedRequireText keyedRequire {} = .ok transformed :=
    ⟨_, rfl⟩
  obtain ⟨analysis, analyzed, planned⟩ := planned_keyedRequire
  have apart {m : Node} (away : ("f", some ⟨27, 28⟩) ∉ mentions m) :
      furtherArgument ∉ subnodes m := fun inside =>
    away ((mem_subnodes.1 inside).mentions (by decide +kernel))
  have calls : ∀ m ∈ subnodes keyedRequire, plannedArguments? keyedRequirePlan
      m ≠ none → ("f", some ⟨27, 28⟩) ∉ mentions m := by
    decide +kernel
  refine ⟨transformed, analysis, wellRead_keyedRequire,
    written_keyedRequire, done, analyzed, planned, ?_, ?_,
    fun m hm isPlanned => apart (calls m hm isPlanned), ?_⟩
  · have second {n m : Node} {ns : List Node} : n ∈ m :: n :: ns :=
      List.mem_cons_of_mem _ List.mem_cons_self
    exact mem_subnodes.2 (.inside List.mem_cons_self (.inside List.mem_cons_self
      (.inside second (.inside second (.inside second .here)))))
  · unfold Untouched
    decide +kernel
  · cases done
    exact apart (by decide +kernel)

end NullGuard.Transform
