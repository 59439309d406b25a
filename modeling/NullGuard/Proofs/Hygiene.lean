import NullGuard.Proofs.CarriedRewrites
import NullGuard.Proofs.Remarks

/-!
# Names keep their meaning

A transformation moves the pieces of helper calls out of their callbacks,
declares temporaries and removes declarations of helpers. None of this captures
a name or loses its declaration (`references_keep_meaning`): every reference
that is left in the result means there what it meant before, save the parameter
of a callback that was rewritten away.

The edit of a transformation is described by the spans and names of the program
alone (`Performed.edit`): names are new if the program has no such identifier,
and what goes away are the declarations of helpers without other uses
(`removedDeclarations`) and the parameters of the callbacks of planned calls
(`movedParameters`). The rewrite carries the outline of the program over under
this edit (`Performed.carries`). What is left then are the two ways in which a
meaning can be lost; the names of references are not new, and a removed helper
has no reference that is left.
-/

namespace NullGuard.Transform

open NullGuard.Text (Span)
open NullGuard.Tree NullGuard.Chain NullGuard.Scope

/-- Where the parameters of the callbacks of planned calls stand. -/
def movedParameters (plan : Plan) (tree : Node) : List (Option Span) :=
  (subnodes tree).flatMap (callbackParameters plan)

/-- Where the helpers are declared whose declarations go away. -/
def removedDeclarations (plan : Plan) : List (Option Span) :=
  (plan.helpers.filter HelperPlan.isRemovable).map HelperPlan.declaredAt

/-- No two imports or declarators of a program stand at the same place. -/
def DeclaredApart (tree : Node) : Prop :=
  (((subnodes tree).filter fun n => isDeclaration n.kind).map Node.span).Nodup

/-- The import or declarator of an origin. -/
def originSpan : Origin → Option Span
  | .imported s | .required s _ => s

/-- Some import or declarator of a program introduces the helper at a span, and
declares nothing else. -/
def Introduced (m : String) (tree : Node) (place : Option Span)
    (origin : Origin) : Prop :=
  ∃ n ∈ subnodes tree, isDeclaration n.kind = true ∧ n.span =
    originSpan origin ∧ ∀ c, Inside c → ∀ r, ∀ d ∈ reachingAll r (said m c n),
    d.span = place

section Helpers

variable {m : String} {tree : Node}

/-- What reaches out of a helper is the helper. -/
theorem span_of_reaching_helper {x : String} {s : Option Span}
    {kind : BindingKind} {origin : Origin} {os : List Outline}
    (quiet : Quiet os) {r : Reach} {d : Declared}
    (hd : d ∈ reachingAll r (.helper x s kind origin :: os)) : d.span = s := by
  rw [reachingAll, quiet.reach, List.append_nil, reaching] at hd
  split at hd
  · rw [List.mem_singleton.1 hd]
  · cases hd

/-- **Every helper of a plain program is introduced by an import or declarator
of its own.** -/
theorem introduced_helpers (isRegular : regular tree = true)
    (plain : isPlain tree = true) {c : Context} {x : String} {s : Option Span}
    {kind : BindingKind} {origin : Origin}
    (told : .helper x s kind origin ∈ remarksAll (said m c tree)) :
    Introduced m tree s origin := by
  refine remarks_said (P := fun o => ∀ x s kind origin, o =
    .helper x s kind origin → Introduced m tree s origin) isRegular
    (fun k sp ns there => ?_) c _ told x s kind origin rfl
  have plainNode := isPlain_of_occurs (mem_subnodes.1 there) plain
  have regularNode := (mem_subnodes.1 there).regular isRegular
  refine ⟨?_, by rintro _ _ - - - _ _ _ _ ⟨⟩, by rintro _ - - _ _ _ _ ⟨⟩, ?_⟩
  · rintro b here x rfl isHelper checked isName _ _ _ _ ⟨⟩
    refine ⟨_, there, rfl, rfl, fun c _ r d hd => ?_⟩
    have said : said m c (.node (.importDecl b) sp ns) =
        [.helper x here.span .imported (.imported sp)] := by
      rw [said_node]
      simp [outlineOf, importOutline, isHelper, checked, isName]
    rw [said] at hd
    exact span_of_reaching_helper quiet_nil hd
  · rintro b x o kind isExported rfl isHelper isName _ _ _ _ ⟨⟩
    refine ⟨_, there, rfl, rfl, fun c hc r d hd => ?_⟩
    have said : said m c (.node (.declarator b) sp ns) =
        .helper x (child ns 0).span c.varKind (.required sp c.isExported) ::
        said m c (child ns 1) := by
      rw [said_node]
      simp [outlineOf, declaratorOutline, isHelper, isName]
    rw [said] at hd
    refine span_of_reaching_helper ?_ hd
    obtain ⟨here, below⟩ := isPlain_node.1 plainNode
    rw [plainAt, Bool.and_eq_true, Bool.and_eq_true] at here
    obtain ⟨-, regularBelow, outer⟩ := regular_node.1 regularNode
    rcases child_mem_or ns 1 with mem | missing
    · exact InnerOperand.quiet ⟨below _ mem, here.1.1, regularBelow _ mem,
        outer _ mem⟩ hc
    · rw [missing]
      exact quiet_nil

/-- A helper of the plan of a program has its binding in the table, and is
introduced where it is declared. -/
theorem introduced_of_planHelper (isRegular : regular tree = true)
    (plain : isPlain tree = true) {d : HelperDeclaration} {h : HelperPlan}
    (hd : d ∈ (Table.ofOutline (outline m tree)).helpers)
    (planned : planHelper (Table.ofOutline (outline m tree)) d = .ok h) :
    (∃ b, (Table.ofOutline (outline m tree)).bindings[d.binding]? = some b ∧
      b.span = h.declaredAt) ∧
      Introduced m tree h.declaredAt h.origin := by
  obtain ⟨once, declaredAt, origin⟩ := declared_of_planHelper planned
  rcases (Table.learned_addAll {} [0] (outline m tree)).helpers d hd
    with none | ⟨x, s, k, told, b, there, -, declared⟩
  · cases none
  · have same : (Table.ofOutline (outline m tree)).bindings.getD d.binding
        default = b := by
      rw [List.getD_eq_getElem?_getD]
      exact congrArg (fun b? => b?.getD default) there
    rw [same] at once declaredAt
    refine ⟨⟨b, there, declaredAt.symm⟩, ?_⟩
    rw [declaredAt, b.span_of_once once declared, origin]
    exact introduced_helpers isRegular plain told

end Helpers

section Performed

variable {options : Options} {text : String} {tree : Node}
  {comments : CommentMap} {transformed : Transformed}

namespace Performed

variable (p : Performed options tree comments transformed)

/-- What a transformation does to names. -/
def edit : Edit where
  isNew x := x ∉ identifiers tree
  isGone s := s ∈ removedDeclarations p.plan ∨ s ∈ movedParameters p.plan tree
  isLeft s := s ∈ spans transformed.tree
  keepsWrites := transformed.report.temporaries.length =
    transformed.report.callsRewritten

/-- Each removal is the declaration of a helper that is introduced by it. -/
theorem introduced_of_removal (isRegular : regular tree = true)
    (plain : isPlain tree = true) {s : Option Span}
    (removed : s ∈ p.plan.removals) :
    ∃ place ∈ removedDeclarations p.plan, ∃ origin, originSpan origin = s ∧
      Introduced options.importName tree place origin := by
  rw [Plan.removals, List.mem_eraseDups, List.mem_map] at removed
  obtain ⟨h, hh, rfl⟩ := removed
  obtain ⟨d, hd, planned⟩ :=
    exists_of_forall₂ (planned_each p.planned) (List.mem_filter.1 hh).1
  rw [p.table_eq] at hd planned
  refine ⟨h.declaredAt, List.mem_map_of_mem hh, h.origin, ?_,
    (introduced_of_planHelper isRegular plain hd planned).2⟩
  unfold originSpan HelperPlan.declaration
  rfl

theorem scene (wellRead : WellRead tree) (plain : isPlain tree = true)
    (apart : DeclaredApart tree) :
    Scene p.edit p.setting options.importName [tree] where
  given := by
    rw [spansAmong_single]
    exact wellRead.given
  distinct := by
    rw [spansAmong_single]
    exact wellRead.distinct
  parameters n hn s hs := by
    rw [subnodesAmong, subnodesAmong, List.append_nil] at hn
    exact .inr (List.mem_flatMap.2 ⟨n, hn, hs⟩)
  removed n hn declares removed c hc r d hd := by
    rw [subnodesAmong, subnodesAmong, List.append_nil] at hn
    obtain ⟨place, gone, origin, here, n', hn', declares', there, only⟩ :=
      p.introduced_of_removal wellRead.regular plain removed
    have same : n' = n := List.inj_on_of_nodup_map apart (List.mem_filter.2
      ⟨hn', declares'⟩) (List.mem_filter.2 ⟨hn, declares⟩) (there.trans here)
    subst same
    rw [only c hc r d hd]
    exact .inl gone

/-- As many temporaries as calls were rewritten: each call needed one. -/
theorem allGuarded {h : List String} {a : List RewrittenCall}
    (adv : Advances { supply := p.analysis.names, comments := comments }
      p.progress h a)
    (made : (transformed.report.temporaries.map Temporary.name).Perm
      (temporaries a))
    (guarded : transformed.report.temporaries.length =
      transformed.report.callsRewritten) : AllGuarded a := by
  have made : (temporaries a).length = transformed.report.temporaries.length :=
    by
    rw [← made.length_eq, List.length_map]
  have calls : transformed.report.callsRewritten = a.length := by
    rw [p.report]
    exact adv.calls.trans (Nat.zero_add _)
  exact List.filterMap_length_eq_length.1 (made.trans (guarded.trans calls))

/-- **A transformation carries over what a program says about names.** -/
theorem carries (wellRead : WellRead tree) (plain : isPlain tree = true)
    (apart : DeclaredApart tree) :
    Carries p.edit (outline options.importName tree)
      (outline options.importName transformed.tree) := by
  obtain ⟨h, a, rewritten, adv, made⟩ := p.rewrites
  have scene := p.scene wellRead plain apart
  have firm : p.edit.keepsWrites → AllGuarded a :=
    p.allGuarded adv (made wellRead.isProgram)
  have left : Left p.edit [tree] [transformed.tree] := by
    rw [Left, spansAmong_single transformed.tree]
    exact fun s _ isLeft => isLeft
  have new : ∀ t ∈ temporaries a, p.edit.isNew t := by
    intro t ht
    have unused := adv.fresh t ht
    rwa [p.used_eq, List.mem_eraseDups] at unused
  obtain ⟨b, i, s, ns, ns', names, h', rfl, result, rfl, children, all⟩ :=
    rewrites_program wellRead.isProgram rewritten
  rw [result] at left
  obtain ⟨-, below, outer⟩ := regular_node.1 wellRead.regular
  have fits := fit_place fun n hn => ⟨below n hn, outer n hn⟩
  have plains : AllPlain (ns.map fun _ => .place) ns :=
    .plain (isPlain_node.1 plain).2 noArrowBody_place
  have shaped : AllShaped ns :=
    AllShaped.children (List.forall_mem_singleton.2 wellRead.shaped)
  have kept : Left p.edit ns (ns'.filter (staysIn p.setting.removals)) :=
    (left.children scene).of_times
      (fun s given => Nat.le_of_eq (times_declareIn given _ _)) scene.children
  have parts := rewrites_carry children fits plains shaped scene.children
    (kept.of_times (fun s _ => (Trims.filter
    (staysIn p.setting.removals) ns').times_le) scene.children) new firm
  have newNames : ∀ x ∈ names, p.edit.isNew x :=
    fun x hx => new x ((rewrites_sublist children).subset (all.subset hx))
  have told (ms : List Node) : outline options.importName
      (.node (.program b i) s ms) = saidAmong options.importName {} ms :=
    outlines_toParts ..
  have inside : Inside {} := ⟨by decide, fun _ declares => by cases declares⟩
  rw [result, told, told]
  exact (carries_items (moved_of_carried children fits plains firm parts)
    scene.children kept inside).trans (carries_declareIn newNames)

end Performed

/-- The name of a reference is one of the program. -/
theorem name_mem_of_reference {m : String} (isRegular : regular tree = true)
    {r : Reference} (hr : r ∈ (Table.ofOutline (outline m tree)).references) :
    r.name ∈ identifiers tree := by
  by_contra clear
  have silent : Silent r.name (outline m tree) :=
    silent_of_clear isRegular (clear_iff.2 clear) {}
  refine silent.unused [reachingAll .root (outline m tree)]
    ((Table.ofOutline (outline m tree)).resolution r) ?_ rfl
  rw [← Table.resolve_ofOutline]
  exact List.mem_map_of_mem hr

/-- **No reference is left to a helper whose declaration goes away.** -/
theorem not_left_of_removed (wellRead : WellRead tree)
    (plain : isPlain tree = true)
    (p : Performed options tree comments transformed) {r : Reference}
    (hr : r ∈ p.analysis.table.references) {d : Declared}
    (means : p.analysis.table.meaning r.scope r.name = some d)
    (removed : d.span ∈ removedDeclarations p.plan) :
    r.span ∉ spans transformed.tree := by
  obtain ⟨h, hh, declaredAt⟩ := List.mem_map.1 removed
  obtain ⟨isHelper, isRemovable⟩ := List.mem_filter.1 hh
  obtain ⟨helper, isDeclared, planned⟩ :=
    exists_of_forall₂ (planned_each p.planned) isHelper
  obtain ⟨b, there, same⟩ : ∃ b, p.analysis.table.bindings[helper.binding]? =
      some b ∧ b.span = h.declaredAt := by
    rw [p.table_eq] at isDeclared planned ⊢
    exact (introduced_of_planHelper wellRead.regular plain isDeclared planned).1
  unfold Table.meaning at means
  obtain ⟨id, resolved, rfl⟩ := Option.map_eq_some_iff.1 means
  obtain ⟨y, -, found⟩ := List.exists_of_findSome?_eq_some resolved
  obtain ⟨bound, -⟩ := List.findIdx?_eq_some_iff_getElem.1 found
  -- The binding that is meant has the span of the helper's, so it is the
  -- helper's.
  have meant : id = helper.binding := by
    have distinct := bindings_nodup (m := options.importName) wellRead.distinct
    rw [← p.table_eq] at distinct
    obtain ⟨bound', rfl⟩ := List.getElem?_eq_some_iff.1 there
    have own : h.declaredAt = p.analysis.table.bindings[id].span := by
      rw [declaredAt, List.getD_eq_getElem?_getD,
        List.getElem?_eq_getElem bound]
      rfl
    have inMap {i : Nat} (bound : i < p.analysis.table.bindings.length) :
        (p.analysis.table.bindings.map Binding.span)[i]? =
        some p.analysis.table.bindings[i].span := by
      rw [List.getElem?_map, List.getElem?_eq_getElem bound]
      rfl
    refine (List.getElem?_inj (by simpa using bound) distinct).1 ?_
    rw [inMap bound, inMap bound', ← own, same]
  subst meant
  have attributed := attributed_of_planHelper planned
  have toHelper : r ∈ p.analysis.table.referencesTo helper.binding :=
    List.mem_filter.2 ⟨hr, beq_iff_eq.2 resolved⟩
  have listed : r.span ∈ h.calls := by
    have among := attributed.perm.mem_iff.2
      (List.mem_map_of_mem (f := Reference.span) toHelper)
    simp only [HelperPlan.isRemovable, Bool.and_eq_true, List.isEmpty_iff]
      at isRemovable
    rwa [isRemovable.2, List.append_nil] at among
  obtain ⟨_, a, rewritten, -⟩ := p.rewrites
  refine (targets_rewritten wellRead p
    (attributed_of_plan p.planned) rewritten).2 r.span (mem_targets.2 ?_)
  exact List.any_eq_true.2 ⟨h, isHelper, List.contains_iff_mem.2 listed⟩

/-- An identifier of a program that was read has a span, and is the only one
there. -/
theorem WellRead.once (wellRead : WellRead tree) {s : Option Span}
    (hs : s ∈ spans tree) :
    s ≠ none ∧ times s [tree] ≤ 1 := by
  refine ⟨fun none => wellRead.given (none ▸ hs), ?_⟩
  rw [times, spansAmong_single]
  exact List.nodup_iff_count_le_one.1 wellRead.distinct s

/-- **A reference that is left keeps its meaning**, unless it meant the
parameter of a callback that was rewritten. -/
theorem Performed.keepsMeaning (p : Performed options tree comments transformed)
    (wellRead : WellRead tree) (plain : isPlain tree = true)
    (apart : DeclaredApart tree) {r : Reference}
    (hr : r ∈ p.analysis.table.references)
    (left : r.span ∈ spans transformed.tree) :
    KeepsMeaning p.analysis.table
      (Table.ofOutline (outline options.importName transformed.tree)) r ∨
      ∃ d, p.analysis.table.meaning r.scope r.name = some d ∧
      d.span ∈ movedParameters p.plan tree := by
  have carried := p.carries wellRead plain apart
  have isUsed :
      r ∈ (Table.ofOutline (outline options.importName tree)).references :=
    p.table_eq ▸ hr
  have isUse : ⟨r.name, r.span, p.analysis.table.meaning r.scope r.name⟩ ∈
      Scope.uses [reachingAll .root (outline options.importName tree)]
      (outline options.importName tree) := by
    rw [p.table_eq]
    exact mem_uses_root.2 ⟨r, isUsed, rfl⟩
  have agrees :
      p.edit.Agrees [reachingAll .root (outline options.importName tree)]
      [reachingAll .root (outline options.importName transformed.tree)] :=
    (Edit.Agrees.refl []).cons (carried.reach .root)
  rcases carried.uses _ _ agrees _ isUse left with
    (isNew | ⟨d, means, gone⟩) | there
  · exact absurd (name_mem_of_reference wellRead.regular isUsed) isNew
  · rcases gone with removed | moved
    · exact absurd left (not_left_of_removed wellRead plain p hr means removed)
    · exact .inr ⟨d, means, moved⟩
  · obtain ⟨given, single⟩ :=
      wellRead.once (span_mem_of_reference wellRead.distinct isUsed)
    obtain ⟨_, _, rewritten, -⟩ := p.rewrites
    have copied := rewrites_spans rewritten given
    exact .inl (keepsMeaning_of_use (by omega) there)

/-- The result of a transformation can be analysed. -/
theorem Performed.analyzed_result
    (p : Performed options tree comments transformed) (wellRead : WellRead tree)
    (plain : isPlain tree = true) (apart : DeclaredApart tree) :
    ∃ analysis', analyze options.importName transformed.tree = .ok analysis' :=
  analyze_isOk.2
    ((p.carries wellRead plain apart).fine (analyze_isOk.1 ⟨_, p.analyzed⟩))

/-- **Names keep their meaning.** Where a transformation succeeds, its result
can be analysed as the program can. Every reference of the program that is left
in the result is a reference there once, of the same name, and means the same
declaration or nothing, as it did; unless it meant the parameter of the callback
of a call that was rewritten. -/
theorem references_keep_meaning (wellRead : WellRead tree)
    (plain : isPlain tree = true) (apart : DeclaredApart tree)
    (h : transformProgram options text tree comments = .ok transformed)
    {analysis : Analysis}
    (analyzed : analyze options.importName tree = .ok analysis) :
    ∃ analysis', analyze options.importName transformed.tree = .ok analysis' ∧
      ∀ r ∈ analysis.table.references, r.span ∈ spans transformed.tree →
        KeepsMeaning analysis.table analysis'.table r ∨
        transformed.report.isSkipped = false ∧
      ∃ plan d, Transform.plan analysis.table = .ok plan ∧
        analysis.table.meaning r.scope r.name = some d ∧
        d.span ∈ movedParameters plan tree := by
  have unchanged : ∀ r ∈ analysis.table.references,
      KeepsMeaning analysis.table analysis.table r := by
    intro r hr
    rw [table_of_analyze analyzed] at hr ⊢
    have once := (wellRead.once (span_mem_of_reference wellRead.distinct hr)).2
    exact keepsMeaning_of_use once (mem_uses_root.2 ⟨r, hr, rfl⟩)
  rcases transformProgram_ok h with ⟨-, rfl⟩ | ⟨_, -, -, rfl⟩ | ⟨⟨p⟩⟩
  · exact ⟨analysis, analyzed, fun r hr _ => .inl (unchanged r hr)⟩
  · exact ⟨analysis, analyzed, fun r hr _ => .inl (unchanged r hr)⟩
  · obtain rfl : p.analysis = analysis :=
      Except.ok.inj (p.analyzed.symm.trans analyzed)
    obtain ⟨analysis', analyzed'⟩ := p.analyzed_result wellRead plain apart
    refine ⟨analysis', analyzed', fun r hr left => ?_⟩
    rw [table_of_analyze analyzed']
    rcases p.keepsMeaning wellRead plain apart hr left with kept | ⟨d,
      means, moved⟩
    · exact .inl kept
    · refine .inr ⟨?_, p.plan, d, p.planned, means, moved⟩
      rw [p.report]
      rfl

end Performed

/-- A program with a variable that is used in the callback of a call. -/
def keyedCallText : String :=
  "import idx from 'idx'; let a; idx(b, _ => _[a]);"

/-- The tree of `keyedCallText`. -/
def keyedCall : Node :=
  let parameter := readAt (.bindingIdent "_" false) 37 38 [.none]
  let body := readAt .member 42 46 [readAt (.ident "_") 42 43 [],
    readAt .computed 43 46 [readAt (.ident "a") 44 45 []]]
  let call := readAt .call 30 47 [readAt (.ident "idx") 30 33 [],
    .ofList [readAt (.ident "b") 34 35 [], readAt (.arrow false) 37 46
    [.ofList [parameter], body, .none, .none]], .none]
  readAt (.program true none) 0 48 [shortImport, readAt (.varDecl .let false) 23
    29 [readAt (.declarator false) 27 28 [readAt (.bindingIdent "a" false) 27 28
    [.none], .none]], readAt .exprStmt 30 48 [call]]

theorem wellRead_keyedCall : WellRead keyedCall :=
  ⟨rfl, by decide +kernel, by decide +kernel, by decide +kernel,
    by decide +kernel⟩

/-- The variable that the callback uses is what its name means outside of it as
well. -/
theorem references_keep_meaning_keyedCall :
    ∃ transformed analysis analysis', transformProgram
      {} keyedCallText keyedCall {} = .ok transformed ∧
      analyze "idx" keyedCall = .ok analysis ∧
        analyze "idx" transformed.tree = .ok analysis' ∧
        ⟨"a", some ⟨44, 45⟩, .read, 1⟩ ∈ analysis.table.references ∧
        analysis.table.meaning 1 "a" = some ⟨"a", some ⟨27, 28⟩, .lexical⟩ ∧
      KeepsMeaning analysis.table analysis'.table
        ⟨"a", some ⟨44, 45⟩, .read, 1⟩ := by
  obtain ⟨transformed, done⟩ : ∃ transformed, transformProgram
      {} keyedCallText keyedCall {} = .ok transformed := ⟨_, rfl⟩
  obtain ⟨analysis, analyzed⟩ : ∃ analysis, analyze "idx" keyedCall =
      .ok analysis := ⟨_, rfl⟩
  obtain ⟨analysis', analyzed', kept⟩ :=
    references_keep_meaning wellRead_keyedCall (by decide +kernel)
    (by unfold DeclaredApart; decide +kernel) done analyzed
  have among : ⟨"a", some ⟨44, 45⟩, .read, 1⟩ ∈ analysis.table.references := by
    cases analyzed
    decide +kernel
  have means : analysis.table.meaning 1 "a" =
      some ⟨"a", some ⟨27, 28⟩, .lexical⟩ := by
    cases analyzed
    decide +kernel
  refine ⟨transformed, analysis, analysis', done, analyzed, analyzed',
    among, means, ?_⟩
  refine (kept _ among ?_).resolve_right ?_
  · cases done
    decide +kernel
  · rintro ⟨-, plan, d, planned, same, moved⟩
    cases means.symm.trans same
    cases analyzed
    cases planned
    exact absurd moved (by decide +kernel)

end NullGuard.Transform
