import NullGuard.Proofs.Rewrites

/-!
# What rewrites are put together from

The rewrite of a node is put together from the rewrites of its parts: one after
the other, in holders of their own, with comments moved where items are dropped,
and with calls taken apart here and there. Only the last depends on the policy.
So a relation between rewrites under two policies that is kept by putting them
together (`Composes`), and that calls to rewrite stand in, holds between all of
them (`throughout_toPending`). With one policy for both, and a relation that
looks at one of the two, this is a property of all rewrites.

Two such properties are needed. Comments stand beside the tree and are moved
only where items of a list are dropped: if nothing is to be removed, no rewrite
moves any (`keepsComments_toPending`). And only a call that cannot be taken
apart makes a rewrite fail: if no call is planned, every rewrite succeeds
(`succeeds_toPending`).
-/

namespace NullGuard.Transform

open NullGuard.Text (Span)
open NullGuard.Tree NullGuard.Chain NullGuard.Scope

/-- A setting with another policy. -/
def Setting.under (setting : Setting) (policy : ChainPolicy) : Setting :=
  { setting with options := { setting.options with policy } }

theorem plan_under (setting : Setting) (policy : ChainPolicy) :
    (setting.under policy).plan = setting.plan :=
  rfl

/-- A relation between rewrites that is kept by putting them together. -/
structure Composes (Q : (α : Type) → Rewrite α → Rewrite α → Prop) : Prop where
  pure : ∀ {α : Type} (a : α), Q α (pure a) (pure a)
  bind : ∀ {α β : Type} {act act' : Rewrite α} {next next' : α → Rewrite β},
    Q α act act' → (∀ a, Q β (next a) (next' a)) →
    Q β (act >>= next) (act' >>= next')
  holder : ∀ {α : Type} {act act' : Rewrite α} (priority : HoistPriority),
    Q α act act' → Q _ (withHolder priority act) (withHolder priority act')

/-- If something is to be removed, the relation holds of moving comments. -/
def Moves (Q : (α : Type) → Rewrite α → Rewrite α → Prop) (setting : Setting) :
    Prop :=
  setting.removals ≠ [] → ∀ f : CommentMap →
    List Node × CommentMap, Q _ (modifyGet fun p =>
    ((f p.comments).1, { p with comments := (f p.comments).2 })) (modifyGet
    fun p => ((f p.comments).1, { p with comments := (f p.comments).2 }))

/-- A node whose rewrites under two policies stand in a relation, where it is
and as a callback, and so do those of all its parts. -/
inductive Throughout (Q : (α : Type) → Rewrite α → Rewrite α → Prop)
    (setting : Setting) (policy : ChainPolicy) : Node → Prop where
  | intro {n : Node}
      (rewrite : Q _ (toPending setting n).rewrite
        (toPending (setting.under policy) n).rewrite)
      (inline : Q _ (toPending setting n).inline
        (toPending (setting.under policy) n).inline)
      (parts : ∀ m ∈ n.children, Throughout Q setting policy m) :
      Throughout Q setting policy n

section Composes

variable {Q : (α : Type) → Rewrite α → Rewrite α → Prop} {setting : Setting}
  {policy : ChainPolicy} {ns : List Node} {n : Node}

theorem Throughout.rewrite (whole : Throughout Q setting policy n) :
    Q _ (toPending setting n).rewrite
      (toPending (setting.under policy) n).rewrite := by
  cases whole
  assumption

theorem Throughout.inline (whole : Throughout Q setting policy n) :
    Q _ (toPending setting n).inline
      (toPending (setting.under policy) n).inline := by
  cases whole
  assumption

theorem Throughout.parts (whole : Throughout Q setting policy n) :
    ∀ m ∈ n.children, Throughout Q setting policy m := by
  cases whole
  assumption

namespace Composes

/-- Rewrites whose results are made into something else. -/
theorem result (composes : Composes Q) {α β : Type} {act act' : Rewrite α}
    (h : Q α act act') (f : α → β) :
    Q β (do return f (← act)) (do return f (← act')) :=
  composes.bind h fun _ => composes.pure _

theorem all (composes : Composes Q)
    (each : ∀ n ∈ ns, Throughout Q setting policy n) :
    Q _ (rewriteAll (toPendings setting ns))
      (rewriteAll (toPendings (setting.under policy) ns)) := by
  induction ns with
  | nil => exact composes.pure []
  | cons n ns ih =>
    obtain ⟨first, others⟩ := List.forall_mem_cons.1 each
    rw [rewriteAll, rewriteAll, toPendings, toPendings, List.mapM_cons,
      List.mapM_cons]
    exact composes.bind first.rewrite fun _ => composes.result (ih others) _

/-- Which items are dropped does not depend on the policy. -/
theorem rewriteItems_under (ps : List Pending) :
    rewriteItems (setting.under policy) ps = rewriteItems setting ps :=
  rfl

/-- Items are rewritten one after the other, and then some are dropped. -/
theorem items (composes : Composes Q) (moves : Moves Q setting)
    (each : ∀ n ∈ ns, Throughout Q setting policy n) :
    Q _ (rewriteItems setting (toPendings setting ns)) (rewriteItems
      (setting.under policy) (toPendings (setting.under policy) ns)) := by
  rw [rewriteItems_under]
  refine composes.bind (composes.all each) fun items => ?_
  dsimp only
  by_cases nothing : setting.removals.isEmpty = true
  · rw [if_pos nothing]
    exact composes.pure _
  · rw [if_neg nothing]
    exact moves (by simpa using nothing) fun m =>
      let retained := retainItems setting.programStart
        (staysIn setting.removals) items (some m)
      (retained.1, retained.2.getD m)

/-- Only a block holds what is made in it. -/
theorem rewriteBody_of_ne {priority : HoistPriority}
    (notBlock : n.kind ≠ .block) :
    rewriteBody setting priority (toPending setting n) =
      (toPending setting n).rewrite := by
  unfold rewriteBody
  split
  · rename_i same
    rw [node_toPending] at same
    exact absurd (congrArg Node.kind same) notBlock
  · rfl

theorem body (composes : Composes Q) (moves : Moves Q setting)
    (priority : HoistPriority) (whole : Throughout Q setting policy n) :
    Q _ (rewriteBody setting priority (toPending setting n))
      (rewriteBody (setting.under policy) priority
      (toPending (setting.under policy) n)) := by
  by_cases isBlock : n.kind = .block
  · obtain ⟨k, s, ns⟩ := n
    cases isBlock
    exact composes.result
      (composes.holder priority (composes.items moves whole.parts)) _
  · rw [rewriteBody_of_ne isBlock, rewriteBody_of_ne isBlock]
    exact whole.rewrite

theorem function (composes : Composes Q) (moves : Moves Q setting)
    (priority : HoistPriority)
    (each : ∀ n ∈ ns, Throughout Q setting policy n) :
    Q _ (rewriteFunction setting priority (toPendings setting ns))
      (rewriteFunction (setting.under policy) priority
      (toPendings (setting.under policy) ns)) := by
  rcases ns with _ | ⟨parameters, _ | ⟨decorators, _ | ⟨body, types⟩⟩⟩
  case cons.cons.cons =>
    simp only [toPendings, rewriteFunction, map_node_toPendings]
    exact composes.bind (each decorators (by simp)).rewrite fun _ =>
      composes.bind (each parameters (by simp)).rewrite fun _ =>
      composes.result (composes.body moves priority (each body (by simp))) _
  all_goals exact composes.all each

theorem arrow (composes : Composes Q)
    (each : ∀ n ∈ ns, Throughout Q setting policy n) :
    Q _ (rewriteArrow (toPendings setting ns))
      (rewriteArrow (toPendings (setting.under policy) ns)) := by
  rcases ns with _ | ⟨parameters, _ | ⟨body, types⟩⟩
  case cons.cons =>
    simp only [toPendings, rewriteArrow, map_node_toPendings]
    exact composes.bind (each parameters (by simp)).rewrite fun _ =>
      composes.result
        (composes.holder defaultPriority (each body (by simp)).rewrite) _
  all_goals exact composes.all each

theorem arguments (composes : Composes Q)
    (each : ∀ n ∈ ns, Throughout Q setting policy n) :
    Q _ (rewriteArguments (toPendings setting ns))
      (rewriteArguments (toPendings (setting.under policy) ns)) := by
  rcases ns with _ | ⟨base, _ | ⟨callback, rest⟩⟩
  case cons.cons =>
    simp only [toPendings, rewriteArguments]
    exact composes.bind (each base (by simp)).rewrite fun _ =>
      composes.bind (each callback (by simp)).inline fun _ =>
      composes.result (composes.all fun n hn => each n (by simp [hn])) _
  all_goals exact composes.result (composes.all each) _

theorem parts (composes : Composes Q) (moves : Moves Q setting) (k : Kind)
    (each : ∀ n ∈ ns, Throughout Q setting policy n) :
    Q _ (rewriteParts setting k (toPendings setting ns)) (rewriteParts
      (setting.under policy) k (toPendings (setting.under policy) ns)) := by
  have plain : Q _
      (do return tidy setting.removals k (← rewriteAll (toPendings setting ns)))
      (do
        return tidy setting.removals k
          (← rewriteAll (toPendings (setting.under policy) ns))) :=
    composes.result (composes.all each) _
  have body (n : Node) (hn : n ∈ ns) :=
    composes.body moves defaultPriority (each n hn)
  cases k
  case program =>
    exact composes.result
      (composes.holder defaultPriority (composes.items moves each)) _
  case block | moduleBlock => exact composes.items moves each
  case switchCase =>
    rcases ns with _ | ⟨test, _ | ⟨items, _ | ⟨more, rest⟩⟩⟩
    case cons.cons.nil =>
      simp only [toPendings, rewriteParts, parts_toPending, node_toPending]
      exact composes.bind (each test (by simp)).rewrite fun _ =>
        composes.result (composes.items moves (each items (by simp)).parts) _
    all_goals exact plain
  case function => exact composes.function moves defaultPriority each
  case method =>
    rcases ns with _ | ⟨key, _ | ⟨function, _ | ⟨more, rest⟩⟩⟩
    case cons.cons.nil =>
      simp only [toPendings, rewriteParts, parts_toPending, node_toPending]
      exact composes.bind (each key (by simp)).rewrite fun _ =>
        composes.result
          (composes.function moves _ (each function (by simp)).parts) _
    all_goals exact plain
  case constructor =>
    rcases ns with _ | ⟨key, _ | ⟨parameters, _ | ⟨last, _ | ⟨more, rest⟩⟩⟩⟩
    case cons.cons.cons.nil =>
      exact composes.bind (each key (by simp)).rewrite fun _ =>
        composes.bind (each parameters (by simp)).rewrite fun _ =>
        composes.result (body last (by simp)) _
    all_goals exact plain
  case getterProp =>
    rcases ns with _ | ⟨key, _ | ⟨type, _ | ⟨last, _ | ⟨more, rest⟩⟩⟩⟩
    case cons.cons.cons.nil =>
      simp only [toPendings, rewriteParts, node_toPending]
      exact composes.bind (each key (by simp)).rewrite fun _ =>
        composes.result (body last (by simp)) _
    all_goals exact plain
  case setterProp =>
    rcases ns
      with _ | ⟨key, _ | ⟨this, _ | ⟨parameter, _ | ⟨last, _ | ⟨more, rest⟩⟩⟩⟩⟩
    case cons.cons.cons.cons.nil =>
      simp only [toPendings, rewriteParts, node_toPending]
      exact composes.bind (each key (by simp)).rewrite fun _ =>
        composes.bind (each parameter (by simp)).rewrite fun _ =>
        composes.result (body last (by simp)) _
    all_goals exact plain
  case staticBlock =>
    rcases ns with _ | ⟨last, _ | ⟨more, rest⟩⟩
    case cons.nil => exact composes.result (body last (by simp)) _
    all_goals exact plain
  case arrow => exact composes.arrow each
  all_goals exact plain

theorem place (composes : Composes Q) (moves : Moves Q setting) (k : Kind)
    (s : Option Span) (each : ∀ n ∈ ns, Throughout Q setting policy n)
    (call : ∀ arguments, plannedArguments? setting.plan (.node k s ns) =
      some arguments → arguments ∈ ns →
      Q _ (rewriteCall setting s (toPending setting arguments)) (rewriteCall
      (setting.under policy) s (toPending (setting.under policy) arguments))) :
    Q _ (rewriteOf setting k s (toPendings setting ns)) (rewriteOf
      (setting.under policy) k s (toPendings (setting.under policy) ns)) := by
  have inPlace := composes.result (composes.parts moves k each) fun parts =>
    Node.node k s parts
  cases k
  case call =>
    rcases ns with _ | ⟨callee, _ | ⟨arguments, rest⟩⟩
    · exact inPlace
    · exact inPlace
    · simp only [toPendings, rewriteOf, node_toPending, plan_under]
      by_cases planned : isPlanned setting.plan callee = true
      · rw [if_pos planned, if_pos planned]
        exact call arguments (if_pos planned) (by simp)
      · rw [if_neg planned, if_neg planned]
        exact inPlace
  all_goals exact inPlace

theorem callback (composes : Composes Q) {k : Kind} {s : Option Span}
    (inPlace : Q _ (rewriteOf setting k s (toPendings setting ns)) (rewriteOf
      (setting.under policy) k s (toPendings (setting.under policy) ns)))
    (each : ∀ n ∈ ns, Throughout Q setting policy n) :
    Q _ (toPending setting (.node k s ns)).inline
      (toPending (setting.under policy) (.node k s ns)).inline := by
  have wrapped (inner : Node) (same : ns = [inner]) :
      Q _
        (if isArrow inner then do
            return .node k s [← (toPending setting inner).inline]
          else rewriteOf setting k s (toPendings setting ns))
        (if isArrow inner then do
            return .node k s
              [← (toPending (setting.under policy) inner).inline]
          else rewriteOf (setting.under policy) k s
            (toPendings (setting.under policy) ns)) := by
    by_cases arrow : isArrow inner = true
    · rw [if_pos arrow, if_pos arrow]
      exact composes.result (each inner (by simp [same])).inline _
    · rw [if_neg arrow, if_neg arrow]
      exact inPlace
  cases k
  case arrow =>
    rcases ns with _ | ⟨parameters, _ | ⟨body, types⟩⟩
    case cons.cons =>
      simp only [toPending, Pending.inline, toPendings, inlineOf,
        map_node_toPendings, node_toPending]
      exact composes.result (each body (by simp)).rewrite _
    all_goals exact inPlace
  case paren | spread =>
    rcases ns with _ | ⟨inner, _ | ⟨more, rest⟩⟩
    case cons.nil =>
      simpa only [toPending, Pending.inline, toPendings, inlineOf,
        node_toPending] using wrapped inner rfl
    all_goals exact inPlace
  all_goals exact inPlace

end Composes

/-- **Such a relation holds between all rewrites under two policies**, if it
holds between the rewrites of planned calls. -/
theorem throughout_toPending (policy : ChainPolicy) (composes : Composes Q)
    (moves : Moves Q setting) (n : Node)
    (calls : ∀ m ∈ subnodes n,
      ∀ arguments, plannedArguments? setting.plan m = some arguments →
      Q _ (rewriteArguments (toPending setting arguments).parts)
      (rewriteArguments (toPending (setting.under policy) arguments).parts) →
      Q _ (rewriteCall setting m.span (toPending setting arguments))
      (rewriteCall (setting.under policy) m.span
      (toPending (setting.under policy) arguments))) :
    Throughout Q setting policy n := by
  induction n using Node.induct with
  | step k s ns ih =>
    have parts : ∀ m ∈ ns, Throughout Q setting policy m := fun m hm =>
      ih m hm fun m' hm' => calls m'
        (mem_subnodes.2 (.inside hm (mem_subnodes.1 hm')))
    have inPlace :=
      composes.place moves k s parts fun arguments planned given => by
      refine calls _ (mem_subnodes.2 .here) arguments planned ?_
      rw [parts_toPending, parts_toPending]
      exact composes.arguments (parts arguments given).parts
    exact .intro inPlace (composes.callback inPlace parts) parts

end Composes

/-- A rewrite that moves no comments. -/
def KeepsComments {α : Type} (act : Rewrite α) : Prop :=
  ∀ p a p', Runs act p a p' → p'.comments = p.comments

section Comments

variable {setting : Setting}

theorem composes_keepsComments : Composes fun _ act _ => KeepsComments act where
  pure a p b p' run := by
    obtain ⟨-, rfl⟩ := runs_pure.1 run
    rfl
  bind first second p b p' run := by
    obtain ⟨a, q, runFirst, runSecond⟩ := runs_bind.1 run
    exact (second a q b p' runSecond).trans (first p a q runFirst)
  holder priority inside p r p' run := by
    obtain ⟨q, inner, -, rfl⟩ := runs_withHolder.1 run
    have kept := inside _ r.1 q inner
    exact kept

/-- A call that is taken apart moves no comments but those that its arguments
move. -/
theorem keepsComments_call (s : Option Span) {p : Pending}
    (arguments : KeepsComments (rewriteArguments p.parts)) :
    KeepsComments (rewriteCall setting s p) := by
  intro q n q' run
  obtain ⟨_, q₀, first, run⟩ := runs_bind.1 run
  refine Eq.trans ?_ (arguments _ _ _ first)
  obtain ⟨chain, q₁, taken, rest⟩ := runs_bind.1 run
  obtain ⟨-, rfl⟩ := runs_lift.1 taken
  obtain ⟨_, q₂, counted, last⟩ := runs_bind.1 rest
  obtain rfl := runs_modify.1 counted
  split at last
  · obtain ⟨t, q₃, fresh, result⟩ := runs_bind.1 last
    obtain ⟨-, rfl⟩ := runs_makeTemporary.1 fresh
    obtain ⟨-, rfl⟩ := runs_pure.1 result
    rw [Progress.comments_addTemporary]
  · obtain ⟨-, rfl⟩ := runs_pure.1 last
    rfl

/-- **If nothing is to be removed, no rewrite moves comments.** -/
theorem keepsComments_toPending (nothing : setting.removals = []) (n : Node) :
    KeepsComments (toPending setting n).rewrite :=
  (throughout_toPending setting.options.policy composes_keepsComments
    (absurd nothing) n fun _ _ _ _ given => keepsComments_call _ given).rewrite

end Comments

/-- A rewrite that always gives a result. -/
def Succeeds {α : Type} (act : Rewrite α) : Prop :=
  ∀ p, ∃ a p', Runs act p a p'

theorem composes_succeeds : Composes fun _ act _ => Succeeds act where
  pure a p := ⟨a, p, runs_pure.2 ⟨rfl, rfl⟩⟩
  bind first second p := by
    obtain ⟨a, q, runFirst⟩ := first p
    obtain ⟨b, p', runSecond⟩ := second a q
    exact ⟨b, p', runs_bind.2 ⟨a, q, runFirst, runSecond⟩⟩
  holder priority inside p := by
    obtain ⟨a, q, run⟩ := inside { p with holder := some ⟨priority, []⟩ }
    exact ⟨(a, q.held), _, runs_withHolder.2 ⟨q, run, rfl, rfl⟩⟩

/-- **If no call is planned and nothing is to be removed, every rewrite gives a
result.** -/
theorem succeeds_toPending {setting : Setting} (nothing : setting.removals = [])
    {n : Node}
    (unplanned : ∀ m ∈ subnodes n, plannedArguments? setting.plan m = none) :
    Succeeds (toPending setting n).rewrite := by
  refine (throughout_toPending setting.options.policy composes_succeeds
    (absurd nothing) n fun m hm arguments planned => ?_).rewrite
  cases planned.symm.trans (unplanned m hm)

end NullGuard.Transform
