import NullGuard.Proofs.Composites
import NullGuard.Proofs.Decomposition
import NullGuard.Proofs.Transformations

/-!
# The two policies

The strict policy takes apart the calls that the permissive one takes apart
without a call step, and gives the same chains (`decompose_strict_iff`).

For programs this has to be carried through a rewrite, where the chain of one
call has the rewritten calls in its arguments in it, and a rewrite that fails
has got somewhere before. So two rewrites are compared from the same state: one
`Restricts` the other if it runs just where the other does and takes only chains
without call steps apart, and then gives the same. This is kept by putting
rewrites together, because chains are only ever added, and it is true of a
helper call (`restricts_call`). `strict_iff_permissive_plain` puts the two
halves together for whole transformations: nothing but the taking apart of calls
depends on the policy.
-/

namespace NullGuard.Chain

open NullGuard.Text (Span)
open NullGuard.Tree
open NullGuard.Transform (ChainPolicy)

/-- Steps without a call. -/
def PlainSteps (steps : List Step) : Prop :=
  ∀ ns typeArguments, .call ns typeArguments ∉ steps

/-- A chain without call steps. -/
def AccessChain.IsPlain (c : AccessChain) : Prop :=
  PlainSteps c.steps

theorem plainSteps_append {front back : List Step} :
    PlainSteps (front ++ back) ↔ PlainSteps front ∧ PlainSteps back := by
  simp only [PlainSteps, List.mem_append, not_or, forall_and]

theorem plainSteps_member (property : Node) :
    PlainSteps [.member property] := by
  intro ns typeArguments there
  cases List.mem_singleton.1 there

theorem not_plainSteps_call (ns : List Node) (typeArguments : Node) :
    ¬ PlainSteps [.call ns typeArguments] :=
  fun plain => plain ns typeArguments List.mem_cons_self

/-- The bodies that the strict policy accepts are those that the permissive one
reads a chain without calls off. -/
theorem spine_strict_iff {parameter : String} {body : Node}
    {steps : List Step} :
    Spine .strict parameter body steps ↔
      Spine .permissive parameter body steps ∧
      PlainSteps steps := by
  constructor
  · intro walked
    induction walked with
    | leaf s ns => exact ⟨.leaf s ns, fun _ _ => List.not_mem_nil⟩
    | paren s rest ih => exact ⟨.paren s ih.1, ih.2⟩
    | member s clean rest ih =>
      exact ⟨.member s clean ih.1,
        plainSteps_append.2 ⟨ih.2, plainSteps_member _⟩⟩
    | call s l permissive => cases permissive
  · rintro ⟨walked, plain⟩
    induction walked with
    | leaf s ns => exact .leaf s ns
    | paren s rest ih => exact .paren s (ih plain)
    | member s clean rest ih =>
      exact .member s clean (ih (plainSteps_append.1 plain).1)
    | call s l permissive ordinary clean rest ih =>
      exact absurd (plainSteps_append.1 plain).2 (not_plainSteps_call _ _)

/-- **The strict policy takes apart what the permissive one takes apart without
a call step**, into the same chain. -/
theorem decompose_strict_iff {span : Option Span} {arguments : List Node}
    {c : AccessChain} :
    decompose .strict span arguments = .ok c ↔
      decompose .permissive span arguments = .ok c ∧
      c.IsPlain := by
  rw [decompose_ok_iff, decompose_ok_iff]
  constructor
  · rintro ⟨call, helper, walked, same⟩
    obtain ⟨walked, plain⟩ := spine_strict_iff.1 walked
    exact ⟨⟨call, helper, walked, same⟩, plain⟩
  · rintro ⟨⟨call, helper, walked, same⟩, plain⟩
    exact ⟨call, helper, spine_strict_iff.2 ⟨walked, plain⟩, same⟩

end NullGuard.Chain

namespace NullGuard.Transform

open NullGuard.Text (Span)
open NullGuard.Tree NullGuard.Chain NullGuard.Scope

/-- **One rewrite restricts another to chains without call steps.** Both only
ever add chains, and from any state the first one runs just as the second does
if that adds only such chains. -/
structure Restricts {α : Type} (act act' : Rewrite α) : Prop where
  loosens : ∀ {p a p'}, Runs act p a p' → Runs act' p a p' ∧
    ∃ added, p'.chains = p.chains ++ added ∧ ∀ c ∈ added, c.IsPlain
  tightens : ∀ {p a p'}, Runs act' p a p' → ∃ added, p'.chains =
    p.chains ++ added ∧
    ((∀ c ∈ added, c.IsPlain) → Runs act p a p')

section Restricts

/-- A rewrite that takes no calls apart restricts itself. -/
theorem restricts_of_keeps {α : Type} {act : Rewrite α}
    (keeps : ∀ p a p', Runs act p a p' → p'.chains = p.chains) :
    Restricts act act where
  loosens run := by
    refine ⟨run, [], ?_, nofun⟩
    rw [keeps _ _ _ run, List.append_nil]
  tightens run := by
    refine ⟨[], ?_, fun _ => run⟩
    rw [keeps _ _ _ run, List.append_nil]

theorem composes_restricts : Composes @Restricts where
  pure a := restricts_of_keeps fun p b p' run => by rw [(runs_pure.1 run).2]
  bind first others := {
    loosens := by
      intro p b p' run
      obtain ⟨a, q, runFirst, runNext⟩ := runs_bind.1 run
      obtain ⟨runFirst, front, grown, plain⟩ := first.loosens runFirst
      obtain ⟨runNext, back, grown', plain'⟩ := (others a).loosens runNext
      refine ⟨runs_bind.2 ⟨a, q, runFirst, runNext⟩, front ++ back, ?_,
        List.forall_mem_append.2 ⟨plain, plain'⟩⟩
      rw [grown', grown, List.append_assoc]
    tightens := by
      intro p b p' run
      obtain ⟨a, q, runFirst, runNext⟩ := runs_bind.1 run
      obtain ⟨front, grown, tight⟩ := first.tightens runFirst
      obtain ⟨back, grown', tight'⟩ := (others a).tightens runNext
      refine ⟨front ++ back, ?_, fun plain => ?_⟩
      · rw [grown', grown, List.append_assoc]
      · obtain ⟨plain, plain'⟩ := List.forall_mem_append.1 plain
        exact runs_bind.2 ⟨a, q, tight plain, tight' plain'⟩ }
  holder priority inside := {
    loosens := by
      intro p r p' run
      obtain ⟨q, inner, names, rfl⟩ := runs_withHolder.1 run
      obtain ⟨inner, added, grown, plain⟩ := inside.loosens inner
      exact ⟨runs_withHolder.2 ⟨q, inner, names, rfl⟩, added, grown, plain⟩
    tightens := by
      intro p r p' run
      obtain ⟨q, inner, names, rfl⟩ := runs_withHolder.1 run
      obtain ⟨added, grown, tight⟩ := inside.tightens inner
      exact ⟨added, grown,
        fun plain => runs_withHolder.2 ⟨q, tight plain, names, rfl⟩⟩ }

/-- Moving comments takes no calls apart. -/
theorem moves_restricts (setting : Setting) : Moves @Restricts setting := by
  intro _ f
  refine restricts_of_keeps fun p a p' run => ?_
  obtain ⟨-, rfl⟩ := Prod.mk.inj (runs_modifyGet.1 run)
  rfl

/-- What takes the place of a call that was taken apart adds its chain. -/
theorem chains_of_replaced {chain : AccessChain} {p p' : Progress} {n : Node}
    (run : Runs
      (do
        modify fun p => { p with chains := p.chains ++ [chain] }
        if chain.needsTemporary then
          return chain.expression (← makeTemporary)
        else return chain.expression "")
      p n p') :
    p'.chains = p.chains ++ [chain] := by
  obtain ⟨_, q, added, last⟩ := runs_bind.1 run
  obtain rfl := runs_modify.1 added
  split at last
  · obtain ⟨t, q', fresh, result⟩ := runs_bind.1 last
    obtain ⟨-, rfl⟩ := runs_makeTemporary.1 fresh
    obtain ⟨-, rfl⟩ := runs_pure.1 result
    rw [Progress.chains_addTemporary]
  · obtain ⟨-, rfl⟩ := runs_pure.1 last
    rfl

/-- **A helper call**: its chain is added, so the policies agree on it if it has
no call step. -/
theorem restricts_call {setting : Setting}
    (strict : setting.options.policy = .strict) (s : Option Span)
    {arguments : Node}
    (inside : Restricts
      (rewriteArguments (toPending setting arguments).parts) (rewriteArguments
      (toPending (setting.under .permissive) arguments).parts)) :
    Restricts (rewriteCall setting s (toPending setting arguments))
      (rewriteCall (setting.under .permissive) s
      (toPending (setting.under .permissive) arguments)) := by
  -- The arguments are rewritten first; what is left differs in how it takes
  -- them apart.
  refine composes_restricts.bind inside fun ns => ?_
  rw [strict]
  constructor
  case loosens =>
    intro p n p' run
    obtain ⟨chain, q, isTaken, rest⟩ := runs_bind.1 run
    obtain ⟨taken, rfl⟩ := runs_lift.1 isTaken
    obtain ⟨taken, plain⟩ := decompose_strict_iff.1 taken
    refine ⟨runs_bind.2 ⟨chain, q, runs_lift.2 ⟨taken, rfl⟩, rest⟩, [chain],
      chains_of_replaced rest, ?_⟩
    intro c there
    rwa [List.mem_singleton.1 there]
  case tightens =>
    intro p n p' run
    obtain ⟨chain, q, isTaken, rest⟩ := runs_bind.1 run
    obtain ⟨taken, rfl⟩ := runs_lift.1 isTaken
    refine ⟨[chain], chains_of_replaced rest, fun plain => ?_⟩
    have taken := decompose_strict_iff.2 ⟨taken, plain chain List.mem_cons_self⟩
    exact runs_bind.2 ⟨chain, q, runs_lift.2 ⟨taken, rfl⟩, rest⟩

/-- **The strict rewrite of any node restricts the permissive one.** -/
theorem restricts_toPending (setting : Setting)
    (strict : setting.options.policy = .strict) (n : Node) :
    Restricts (toPending setting n).rewrite
      (toPending (setting.under .permissive) n).rewrite :=
  (throughout_toPending .permissive composes_restricts (moves_restricts setting)
    n fun m _ _ _ inside => restricts_call strict m.span inside).rewrite

end Restricts

section Program

variable (options : Options)

/-- The rewrite of a program runs under the strict policy just if it runs under
the permissive one and takes only chains without call steps apart; and then the
two give the same. -/
theorem rewriteProgram_strict_iff {plan : Plan} {names : NameSupply}
    {tree tree' : Node} {comments : CommentMap} {progress : Progress} :
    rewriteProgram { options with policy := .strict } plan names tree comments =
        .ok (tree', progress) ↔
      rewriteProgram { options with policy := .permissive } plan names tree
          comments = .ok (tree', progress) ∧
        ∀ c ∈ progress.chains, c.IsPlain := by
  have restricts := restricts_toPending
    { options := { options with policy := .strict }
      plan
      removals := plan.removals
      programStart := itemStart tree } rfl tree
  constructor
  · intro run
    obtain ⟨run, added, grown, plain⟩ := restricts.loosens run
    exact ⟨run, fun c there => plain c (by simpa [grown] using there)⟩
  · rintro ⟨run, plain⟩
    obtain ⟨added, grown, tight⟩ := restricts.tightens run
    exact tight fun c there => plain c (by simpa [grown] using there)

variable {options : Options} {text : String} {tree : Node}
  {comments : CommentMap} {transformed : Transformed}

/-- A transformation takes only chains without call steps apart. -/
def OnlyPlain (options : Options) (tree : Node) (comments : CommentMap)
    (transformed : Transformed) : Prop :=
  ∀ p : Performed options tree comments transformed, ∀ c ∈
    p.progress.chains, c.IsPlain

/-- If no call was rewritten, none was taken apart. -/
theorem Performed.chains_eq_nil
    (p : Performed options tree comments transformed)
    (none : transformed.report.callsRewritten = 0) :
    p.progress.chains = [] := by
  rw [p.report] at none
  exact List.eq_nil_of_length_eq_zero none

/-- A transformation carries out one plan. -/
theorem Performed.progress_eq (p : Performed options tree comments transformed)
    {analysis : Analysis} {plan : Plan} {progress : Progress} {tree' : Node}
    (analyzed : analyze options.importName tree = .ok analysis)
    (planned : Transform.plan analysis.table = .ok plan)
    (rewritten : rewriteProgram options plan analysis.names tree comments =
      .ok (tree', progress)) : p.progress = progress := by
  have sameAnalysis : p.analysis = analysis :=
    Except.ok.inj (p.analyzed.symm.trans analyzed)
  have samePlan : p.plan = plan := by
    have own := p.planned
    rw [sameAnalysis] at own
    exact Except.ok.inj (own.symm.trans planned)
  have own := p.rewritten
  rw [sameAnalysis, samePlan] at own
  exact (Prod.mk.inj (Except.ok.inj (own.symm.trans rewritten))).2

/-- A transformation of a program that has a helper carries out its plan. -/
theorem transformProgram_ok_iff {analysis : Analysis} {plan : Plan}
    (mentioned : mayReferenceHelper text options = true)
    (analyzed : analyze options.importName tree = .ok analysis)
    (planned : Transform.plan analysis.table = .ok plan)
    (nonempty : plan.helpers.isEmpty = false) :
    transformProgram options text tree comments = .ok transformed ↔
      ∃ progress, rewriteProgram options plan analysis.names tree comments =
      .ok (transformed.tree, progress) ∧
      transformed.comments = progress.comments ∧
        transformed.report =
          plan.report analysis.table.unrecognized progress := by
  rw [transformProgram, mentioned]
  simp only [analyzed, planned, nonempty, bind, Except.bind]
  cases run : rewriteProgram options plan analysis.names tree comments with
  | error e => exact iff_of_false nofun fun ⟨_, h, _⟩ => by cases h
  | ok r =>
    obtain ⟨tree', progress⟩ := r
    constructor
    · rintro ⟨⟩
      exact ⟨progress, rfl, rfl, rfl⟩
    · rintro ⟨progress', same, settled, report⟩
      cases same
      cases transformed
      cases settled
      cases report
      rfl

variable (options text tree comments) in
/-- What comes before the rewrite does not depend on the policy: the program is
rejected, or nothing is rewritten, or there is a plan to carry out. -/
theorem transformProgram_cases :
    (∃ result : Except Rejection Transformed, (∀ policy, transformProgram
      { options with policy } text tree comments = result) ∧ ∀ t, result =
      .ok t → t.report.callsRewritten = 0) ∨ ∃ (analysis : Analysis)
      (plan : Plan), mayReferenceHelper text options = true ∧
      analyze options.importName tree = .ok analysis ∧ Transform.plan
        analysis.table = .ok plan ∧ plan.helpers.isEmpty = false := by
  have mentions (policy : ChainPolicy) : mayReferenceHelper text
      { options with policy } = mayReferenceHelper text options :=
    rfl
  cases mentioned : mayReferenceHelper text options with
  | false =>
    refine .inl ⟨.ok ⟨tree, comments, { isSkipped := true }⟩, fun policy => ?_,
      fun t done => ?_⟩
    · rw [transformProgram, mentions, mentioned]
      rfl
    · cases done
      rfl
  | true =>
    cases analyzed : analyze options.importName tree with
    | error e =>
      refine .inl ⟨.error e, fun policy => ?_, nofun⟩
      rw [transformProgram, mentions, mentioned]
      simp only [analyzed]
      rfl
    | ok analysis =>
      cases planned : Transform.plan analysis.table with
      | error e =>
        refine .inl ⟨.error e, fun policy => ?_, nofun⟩
        rw [transformProgram, mentions, mentioned]
        simp only [analyzed, planned, bind, Except.bind]
        rfl
      | ok plan =>
        cases nonempty : plan.helpers.isEmpty with
        | false => exact .inr ⟨analysis, plan, rfl, rfl, planned, nonempty⟩
        | true =>
          refine .inl ⟨.ok ⟨tree, comments,
            { unrecognizedRequires := analysis.table.unrecognized }⟩,
            fun policy => ?_, fun t done => ?_⟩
          · rw [transformProgram, mentions, mentioned]
            simp only [analyzed, planned, nonempty, bind, Except.bind]
            rfl
          · cases done
            rfl

variable (options) in
/-- A transformation succeeds under the strict policy just if it succeeds under
the permissive one and takes only chains without call steps apart; and then the
two give the same. -/
theorem transformProgram_strict_iff :
    transformProgram { options with policy := .strict } text tree comments =
      .ok transformed ↔ transformProgram { options with policy := .permissive }
      text tree comments = .ok transformed ∧
      OnlyPlain { options with policy := .permissive } tree comments
        transformed := by
  obtain ⟨result, both, none⟩ | ⟨analysis, plan, mentioned, analyzed, planned,
      nonempty⟩ :=
    transformProgram_cases options text tree comments
  · rw [both, both]
    refine ⟨fun done => ⟨done, fun p c there => ?_⟩, And.left⟩
    rw [p.chains_eq_nil (none _ done)] at there
    cases there
  · have mentions (policy : ChainPolicy) :
        mayReferenceHelper text { options with policy } = true := mentioned
    rw [transformProgram_ok_iff (mentions .strict) analyzed planned nonempty,
      transformProgram_ok_iff (mentions .permissive) analyzed planned nonempty]
    constructor
    · rintro ⟨progress, run, settled, report⟩
      obtain ⟨run, plain⟩ := (rewriteProgram_strict_iff options).1 run
      refine ⟨⟨progress, run, settled, report⟩, fun p => ?_⟩
      rw [p.progress_eq analyzed planned run]
      exact plain
    · rintro ⟨⟨progress, run, settled, report⟩, plain⟩
      have plain := plain ⟨analysis, plan, progress, analyzed, planned, run,
        settled, report⟩
      exact ⟨progress, (rewriteProgram_strict_iff options).2 ⟨run, plain⟩,
        settled, report⟩

end Program

/-- **Strict is permissive without calls.** For any call, the strict policy
takes it apart just if the permissive one does without a call step, into the
same chain. For any program, and options that differ in their policy only, a
transformation succeeds under the strict policy just if it succeeds under the
permissive one and no chain of a rewritten call has a call step, and then the
resulting programs, their comments and their reports are the same. -/
theorem strict_iff_permissive_plain :
    (∀ span arguments c, decompose .strict span arguments = .ok c ↔
      decompose .permissive span arguments = .ok c ∧
      c.IsPlain) ∧
      (∀ (options : Options) text tree comments transformed, transformProgram
        { options with policy := .strict } text tree comments = .ok
        transformed ↔ transformProgram { options with policy := .permissive }
        text tree comments = .ok transformed ∧
        OnlyPlain { options with policy := .permissive } tree comments
          transformed) :=
  ⟨fun _ _ _ => decompose_strict_iff,
    fun options _ _ _ _ => transformProgram_strict_iff options⟩

end NullGuard.Transform
