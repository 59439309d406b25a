import NullGuard.Proofs.Carrying
import NullGuard.Proofs.PlainRewrites
import NullGuard.Proofs.PlannedCalls
import NullGuard.Proofs.Temporaries

/-!
# What a helper call carries over

A helper call is taken apart into its base and the pieces of the callback's
body, and these become an expression. What stands in them stands in the
expression, and besides it the temporary (`Listing.mem_expression`). What the
body uses besides is the parameter, at the end of the chain
(`Listing.mem_spine`). The callback's scope goes away, but as it declares
nothing but the parameter, all other names mean outside of it what they meant
inside. So the expression carries the arguments over, if the parameter is among
the declarations that go away and the temporary is new (`carries_call`).
-/

namespace NullGuard.Transform

open NullGuard.Text (Span)
open NullGuard.Tree NullGuard.Chain NullGuard.Scope

/-- Nothing comes out of some outlines, and they have no malformed import. -/
structure Quiet (os : List Outline) : Prop where
  reach : ∀ r, reachingAll r os = []
  fine : malformedAmong? os = none

/-- The parameters of an arrow function, parentheses aside. -/
def parametersOf (n : Node) : List Node :=
  match n.stripParens with
  | .node (.arrow _) _ (parameters :: _) => parameters.children
  | _ => []

section Calls

variable {e : Edit} {m : String} {c : Context} {frames : List (List Declared)}

/-- Between outlines out of which nothing comes, only what stands in them has to
be carried over. -/
theorem carries_of_quiet {os os' : List Outline} (quiet : Quiet os)
    (quiet' : Quiet os')
    (kept : ∀ frames, ∀ u ∈ uses frames os, e.isLeft u.span →
      e.Lost u.name u.means ∨ u ∈ uses frames os')
    (holds : ∀ i ∈ contentsAll os', e.Holds (contentsAll os) i) :
    Carries e os os' where
  reach r x := .inr (by rw [quiet.reach, quiet'.reach])
  uses frames frames' agrees u hu isLeft := by
    rcases kept frames u hu isLeft with lost | hu'
    · exact .inl lost
    · exact uses_of_agrees agrees u hu'
  fewer r := by
    rw [quiet.reach, quiet'.reach]
    exact .refl _
  holds := holds
  fine _ := quiet'.fine

/-- An operand that can stand inside of a program. -/
structure InnerOperand (n : Node) : Prop where
  plain : isPlain n = true
  sort : isOperand n = true
  regular : regular n = true
  inner : isProgram n.kind = false

theorem InnerOperand.inside {n : Node} (h : InnerOperand n) : PlainInside n :=
  ⟨h.plain, h.regular, h.inner, noImport_of_isOperand h.sort⟩

theorem quiet_nil : Quiet [] :=
  ⟨fun _ => rfl, rfl⟩

theorem Quiet.append {os os' : List Outline} (h : Quiet os) (h' : Quiet os') :
    Quiet (os ++ os') where
  reach r := by rw [reachingAll_append, h.reach, h'.reach, List.append_nil]
  fine := by
    rw [malformedAmong?_append, h.fine, h'.fine]
    rfl

theorem InnerOperand.quiet {n : Node} (h : InnerOperand n) (hc : Inside c) :
    Quiet (said m c n) :=
  ⟨reaching_expression h.inside hc (.inl h.sort), fine_said h.inside c⟩

/-- Operands are closed towards the program around them. -/
theorem quiet_operands {ns : List Node} (all : ∀ n ∈ ns, InnerOperand n)
    (hc : Inside c) : Quiet (saidAmong m c ns) := by
  induction ns with
  | nil => exact quiet_nil
  | cons n ns ih =>
    obtain ⟨first, rest⟩ := List.forall_mem_cons.1 all
    exact (first.quiet hc).append (ih rest)

/-- The ways in which a temporary is used. -/
def temporaryUses (t : String) : List Outline :=
  [.reference t none .write, .reference t none .read]

/-- A way to list what stands in outlines, the same for those that say the
same. -/
structure Listing {α : Type} (F : List Outline → List α) : Prop where
  nil : F [] = []
  append : ∀ os os', F (os ++ os') = F os ++ F os'
  same : ∀ {os os'}, Synonymous os os' → F os' = F os

theorem listing_uses (frames : List (List Declared)) : Listing (uses frames) :=
  ⟨rfl, uses_append, fun h => h.uses frames⟩

theorem listing_contents : Listing contentsAll :=
  ⟨rfl, contentsAll_append, fun h => h.contents⟩

section Listing

variable {α : Type} {F : List Outline → List α} (listing : Listing F) {i : α}
include listing

/-- What several nodes list, one of them lists. -/
theorem Listing.mem_among {ns : List Node} :
    i ∈ F (saidAmong m c ns) ↔ ∃ n ∈ ns, i ∈ F (said m c n) := by
  induction ns with
  | nil =>
    have nothing : F (saidAmong m c []) = [] := listing.nil
    rw [nothing]
    exact iff_of_false List.not_mem_nil nofun
  | cons n ns ih =>
    rw [saidAmong, List.flatMap_cons, listing.append, List.mem_append,
      List.exists_mem_cons_iff, ← ih]
    rfl

/-- A sequence lists what its items list. -/
theorem Listing.mem_sequence {s : Option Span} {ns : List Node} :
    i ∈ F (said m c (.node .list s ns)) ↔ ∃ n ∈ ns, i ∈ F (said m c n) := by
  rw [said_sequence, listing.mem_among]

/-- A call lists what its parts list. -/
theorem Listing.mem_call {s : Option Span} {ns : List Node}
    (plain : isPlain (.node .call s ns) = true) :
    i ∈ F (said m c (.node .call s ns)) ↔ ∃ n ∈ ns, i ∈ F (said m c n) := by
  rw [← listing.same (synonymous_call plain), listing.mem_among]

/-- A call lists what its callee, its arguments and its types list. -/
theorem Listing.mem_callParts {s l : Option Span} {callee types : Node}
    {arguments : List Node} (plain : isPlain (.node .call s
      [callee, .node .list l arguments, types]) = true) :
    i ∈ F (said m c (.node .call s [callee, .node .list l arguments, types])) ↔
      ∃ n ∈ callee :: (arguments ++ [types]), i ∈ F (said m c n) := by
  rw [listing.mem_call plain]
  simp only [List.mem_cons, List.mem_append, List.not_mem_nil, or_false,
    or_and_right, exists_or, exists_eq_left, listing.mem_sequence]

/-- **The body of a callback lists the use of the parameter and what its pieces
list.** -/
theorem Listing.mem_spine {policy : ChainPolicy} {name : String} {body : Node}
    {steps : List Step} (h : Spine policy name body steps)
    (plain : isPlain body = true) :
    ∃ s, ∀ i, i ∈ F (said m c body) ↔ i ∈ F [.reference name s .read] ∨
      ∃ n ∈ pieces steps, i ∈ F (said m c n) := by
  induction h with
  | leaf s ns =>
    exact ⟨s, fun i => ⟨.inl, fun h => h.resolve_right nofun⟩⟩
  | @paren s inner steps rest ih =>
    have same : said m c (.node .paren s [inner]) = said m c inner :=
      List.append_nil _
    rw [same]
    exact ih ((isPlain_node.1 plain).2 inner List.mem_cons_self)
  | @member s object property steps clean rest ih =>
    obtain ⟨t, inner⟩ := ih ((isPlain_node.1 plain).2 _ List.mem_cons_self)
    have last : pieces [Step.member property] = [property] := rfl
    refine ⟨t, fun i => ?_⟩
    have same : said m c (.node .member s [object, property]) =
        saidAmong m c [object, property] := rfl
    rw [same, listing.mem_among, pieces_append, last]
    simp only [List.mem_cons, List.mem_append, List.not_mem_nil, or_false,
      or_and_right, exists_or, exists_eq_left, inner, or_assoc]
  | @call s l callee typeArguments arguments steps permissive ordinary
      clean rest ih =>
    obtain ⟨t, inner⟩ := ih ((isPlain_node.1 plain).2 _ List.mem_cons_self)
    have last : pieces [.call arguments typeArguments] = arguments ++
        [typeArguments] := List.append_nil _
    refine ⟨t, fun i => ?_⟩
    rw [listing.mem_callParts plain, pieces_append, last]
    simp only [List.mem_cons, List.mem_append, List.not_mem_nil, or_false,
      or_and_right, exists_or, exists_eq_left, inner, or_assoc]

variable {t : String}

theorem Listing.mem_apply {object : Node} {l : Level}
    (plain : isPlain (l.apply object) = true) :
    i ∈ F (said m c (l.apply object)) ↔
      ∃ n ∈ object :: levelPieces l, i ∈ F (said m c n) := by
  have member {object property : Node} :
      i ∈ F (said m c (made .member [object, property])) ↔
      ∃ n ∈ [object, property], i ∈ F (said m c n) := by
    have same : said m c (made .member [object, property]) =
        saidAmong m c [object, property] := rfl
    rw [same, listing.mem_among]
  cases l with
  | member property => exact member
  | call arguments typeArguments =>
    have last : levelPieces (.call arguments typeArguments) = arguments ++
        [typeArguments] := List.append_nil _
    rw [last]
    exact listing.mem_callParts plain
  | method property arguments typeArguments =>
    have last : levelPieces (.method property arguments typeArguments) =
        property :: (arguments ++ [typeArguments]) := by
      simp [levelPieces, Level.steps, pieces, stepPieces]
    rw [last]
    refine (listing.mem_callParts plain).trans ?_
    simp only [List.mem_cons, List.mem_append, List.not_mem_nil, or_false,
      or_and_right, exists_or, exists_eq_left, member, or_assoc]

/-- A level of the temporary lists the use of it and what its pieces list. -/
theorem Listing.mem_level {l : Level}
    (plain : isPlain (l.apply (temporary t)) = true) :
    i ∈ F (said m c (l.apply (temporary t))) ↔
      i ∈ F [.reference t none .read] ∨
        ∃ n ∈ levelPieces l, i ∈ F (said m c n) := by
  rw [listing.mem_apply plain, List.exists_mem_cons_iff]
  rfl

theorem Listing.mem_guarded {span : Option Span} {value more : Node} :
    i ∈ F (said m c (guarded span t value more)) ↔
      i ∈ F (temporaryUses t) ∨ i ∈ F (said m c value) ∨
        i ∈ F (said m c more) := by
  have assignment : said m c (made (.assign .plain) [temporary t, value]) =
      [.reference t none .write] ++ said m c value := rfl
  have split : said m c (guarded span t value more) =
      said m c (made (.assign .plain) [temporary t, value]) ++ said m c more ++
        said m c (temporary t) := by
    simp [guarded, said_node, outlineOf, saidAmong, made, parenthesized]
  have used : said m c (temporary t) = [.reference t none .read] := rfl
  have both : temporaryUses t =
      [.reference t none .write] ++ [.reference t none .read] := rfl
  rw [split, assignment, used, both]
  simp only [listing.append, List.mem_append]
  tauto

/-- Levels of the temporary list what their pieces list, and uses of it. -/
theorem Listing.mem_guardedLevels {ls : List Level}
    (plain : isPlain (guardedLevels t ls) = true) :
    i ∈ F (temporaryUses t) ∨ i ∈ F (said m c (guardedLevels t ls)) ↔
      i ∈ F (temporaryUses t) ∨
        ∃ n ∈ ls.flatMap levelPieces, i ∈ F (said m c n) := by
  have read (h : i ∈ F [.reference t none .read]) :
      i ∈ F (temporaryUses t) := by
    have both : temporaryUses t =
        [.reference t none .write] ++ [.reference t none .read] := rfl
    rw [both, listing.append]
    exact List.mem_append_right _ h
  fun_induction guardedLevels t ls with
  | case1 =>
    have nothing : ¬∃ n ∈ [].flatMap levelPieces, i ∈ F (said m c n) := by
      simp
    exact ⟨fun h => .inl (h.elim id read), fun h =>
      h.imp_right fun some => absurd some nothing⟩
  | case2 last =>
    rw [List.flatMap_cons, List.flatMap_nil, List.append_nil,
      listing.mem_level plain]
    tauto
  | case3 level rest _ ih =>
    have value : isPlain (level.apply (temporary t)) = true :=
      isPlain_of_occurs (.inside List.mem_cons_self
        (.inside List.mem_cons_self (.inside List.mem_cons_self
        (.inside (List.mem_cons_of_mem _ List.mem_cons_self) .here)))) plain
    have more : isPlain (guardedLevels t rest) = true :=
      (isPlain_node.1 plain).2 _ (List.mem_cons_of_mem _ List.mem_cons_self)
    rw [listing.mem_guarded, listing.mem_level value, List.flatMap_cons]
    simp only [List.mem_append, or_and_right, exists_or]
    have inner := ih more
    constructor
    · rintro (h | h | (h | h) | h)
      exacts [.inl h, .inl h, .inl (read h), .inr (.inl h),
        (inner.1 (.inr h)).imp_right .inr]
    · rintro (h | h | h)
      exacts [.inl h, .inr (.inr (.inl (.inr h))),
        (inner.2 (.inr h)).imp_right fun h => .inr (.inr h)]

/-- **The expression of a chain lists what its pieces list**, and uses of the
temporary. -/
theorem Listing.mem_expression {chain : AccessChain}
    (plain : isPlain (chain.expression t) = true) :
    i ∈ F (said m c (chain.expression t)) ↔
      (chain.needsTemporary = true ∧ i ∈ F (temporaryUses t)) ∨
      ∃ n ∈ chain.base :: pieces chain.steps, i ∈ F (said m c n) := by
  have paren (n : Node) : said m c (parenthesized n) = said m c n :=
    List.append_nil _
  have grouped := flatMap_steps_levels chain.steps
  rw [AccessChain.needsTemporary, ← flatMap_levels, List.exists_mem_cons_iff]
  unfold AccessChain.expression at plain ⊢
  split
  · rename_i none
    rw [none] at grouped
    rw [paren, none, ← grouped]
    have nothing : ¬∃ n ∈ [].flatMap levelPieces, i ∈ F (said m c n) := by
      simp
    exact ⟨fun h => .inr (.inl h), fun h => h.elim (fun h => by cases h.1)
      fun h => h.resolve_right nothing⟩
  · rename_i someLevels
    have steps : (!chain.steps.isEmpty) = true := by
      cases given : chain.steps with
      | nil => exact absurd (by rw [given]; rfl) someLevels
      | cons step steps => rfl
    have more : isPlain (guardedLevels t (levels chain.steps)) = true := by
      split at plain
      · exact absurd ‹_› someLevels
      · have guarded := (isPlain_node.1 plain).2 _ List.mem_cons_self
        exact (isPlain_node.1 guarded).2 _
          (List.mem_cons_of_mem _ List.mem_cons_self)
    rw [paren, listing.mem_guarded, or_left_comm,
      listing.mem_guardedLevels more, or_left_comm]
    simp only [steps, true_and]

end Listing

/-- What the steps of a chain take along are operands. -/
theorem operand_of_steps {steps : List Step}
    (all : ∀ step ∈ steps,
      StepParts PlainOperand PlainExpression PlainMissing step) :
    ∀ n ∈ pieces steps, PlainOperand n := by
  intro n hn
  obtain ⟨step, hstep, hn⟩ := List.mem_flatMap.1 hn
  have parts := all step hstep
  cases step with
  | member property =>
    cases List.mem_singleton.1 hn
    exact parts
  | call arguments typeArguments =>
    rcases List.mem_append.1 hn with hn | hn
    · exact ⟨(parts.1 n hn).1, isOperand_of_isExpression (parts.1 n hn).2⟩
    · cases List.mem_singleton.1 hn
      refine ⟨parts.2.1, ?_⟩
      have missing := parts.2.2
      unfold isMissing at missing
      split at missing
      · rfl
      · cases missing

/-- What an arrow function says whose body is an expression. -/
theorem said_callback {b o : Bool} {s l i : Option Span} {name : String}
    {ascription rest : List Node} {body : Node}
    (notBlock : body.kind ≠ .block) :
    said m c (.node (.arrow b) s (.node .list l
      [.node (.bindingIdent name o) i ascription] :: body :: rest)) = [.scope
      .function (.declaration name i .param :: said m c.inScope body)] := by
  rw [said_node]
  simp only [outlineOf, part_toParts, functionOutline, child,
    List.getD_cons_zero, List.getD_cons_succ, bodyOutline_of_other notBlock]
  rfl

/-- **The expression that a helper call becomes carries its arguments over**,
where the parameter goes away and the temporary is new. -/
theorem carries_call {policy : ChainPolicy} {span : Option Span}
    {arguments : List Node} {chain : AccessChain} {t : String}
    (taken : decompose policy span arguments = .ok chain)
    (all : ∀ n ∈ arguments, InnerOperand n)
    (expressions : ∀ n ∈ arguments, isExpression n.kind = true) (hc : Inside c)
    (gone : ∀ n, arguments[1]? = some n → ∀ p ∈ parametersOf n,
      e.isGone p.span)
    (new : chain.needsTemporary = true → e.isNew t) :
    Carries e (saidAmong m c arguments) (said m c (chain.expression t)) := by
  obtain ⟨base, steps⟩ :=
    plain_decompose taken fun n hn => ⟨(all n hn).plain, expressions n hn⟩
  obtain ⟨plain, isExpr⟩ := plain_expression (u := t) base steps
  have regular : AllRegular arguments :=
    fun n hn => ⟨(all n hn).regular, (all n hn).inner⟩
  obtain ⟨isRegular, inner⟩ := chaining_allRegular.expression (t := t)
    (regular_of_decompose taken regular) _ List.mem_cons_self
  have result : InnerOperand (chain.expression t) :=
    ⟨plain, isOperand_of_isExpression isExpr, isRegular, inner⟩
  have inScope := passing_allowing (fun _ => id) |>.inScope hc
  obtain ⟨call, helper, walked, same, -⟩ := decompose_ok taken
  cases helper with
  | @intro first callback body name b o s l i ascription rest _ _
      isArrow notBlock =>
    have second : callback ∈ [first, callback] :=
      List.mem_cons_of_mem _ List.mem_cons_self
    have arrow := isPlain_stripParens (all callback second).plain
    have arrowRegular :=
      (Occurs.stripParens callback).regular (all callback second).regular
    have parameter := gone callback rfl
    rw [parametersOf] at parameter
    rw [isArrow] at arrow arrowRegular parameter
    have bodyPlain : isPlain body = true := (isPlain_node.1 arrow).2 body
      (List.mem_cons_of_mem _ List.mem_cons_self)
    have bodyInner : InnerOperand body := by
      obtain ⟨-, below, outer⟩ := regular_node.1 arrowRegular
      have there : body ∈ Node.node .list l
          [.node (.bindingIdent name o) i ascription] :: body :: rest :=
        List.mem_cons_of_mem _ List.mem_cons_self
      exact ⟨bodyPlain, isOperand_of_isExpression
        ((body_of_arrow arrow).resolve_left notBlock), below body there,
        outer body there⟩
    -- The frame of the callback has the parameter and nothing else.
    have frame : reachingAll (.own .function) (.declaration name i .param ::
        said m c.inScope body) = [⟨name, i, .param⟩] := by
      rw [reachingAll, (bodyInner.quiet inScope).reach]
      rfl
    have told : said m c callback =
        [.scope .function (.declaration name i .param ::
          said m c.inScope body)] := by
      rw [← said_stripParens, isArrow, said_callback notBlock]
    have steady : ∀ n ∈ pieces chain.steps, said m c.inScope n = said m c n :=
      fun n hn => said_steady (operand_of_steps steps n hn).1
        ⟨rfl, .inl (operand_of_steps steps n hn).2⟩
    refine carries_of_quiet (quiet_operands all hc) (result.quiet hc)
      (fun frames u hu _ => ?_) fun j hj => ?_
    · have listing := listing_uses frames
      obtain ⟨n, hn, used⟩ := listing.mem_among.1 hu
      rcases List.mem_cons.1 hn with rfl | hn
      · refine .inr ((listing.mem_expression plain).2
          (.inr ⟨_, List.mem_cons_self, ?_⟩))
        rw [same]
        exact used
      · obtain rfl := List.mem_singleton.1 hn
        rw [told, uses_scope, frame] at used
        have parameterGone : e.isGone i := parameter _ List.mem_cons_self
        obtain ⟨t, inBody⟩ := (listing_uses
          ([⟨name, i, .param⟩] :: frames)).mem_spine walked bodyPlain
        rcases (inBody u).1 used with isParameter | ⟨n, hn, used⟩
        · refine .inl (.inr ⟨⟨name, i, .param⟩, ?_, parameterGone⟩)
          cases List.mem_singleton.1 isParameter
          change lookUp _ _ = _
          rw [lookUp_cons]
          simp [firstOf]
        · rw [steady n hn] at used
          have outside : e.Agrees ([⟨name, i, .param⟩] :: frames) frames :=
            .leave (List.forall_mem_singleton.2 parameterGone) (.refl _)
          exact (uses_of_agrees outside u used).imp_right fun used =>
            (listing.mem_expression plain).2
              (.inr ⟨n, List.mem_cons_of_mem _ hn, used⟩)
    · have listing := listing_contents
      rcases (listing.mem_expression plain).1 hj
        with ⟨needed, isTemporary⟩ | ⟨n, hn, there⟩
      · have uses : contentsAll (temporaryUses t) =
            [.use t none true, .use t none false] := rfl
        rw [uses, List.mem_pair] at isTemporary
        rcases isTemporary with rfl | rfl <;> exact .inl (new needed)
      · refine .of_mem (listing.mem_among.2 ?_)
        rcases List.mem_cons.1 hn with rfl | hn
        · rw [same] at there
          exact ⟨first, List.mem_cons_self, there⟩
        · refine ⟨callback, second, ?_⟩
          obtain ⟨t, inBody⟩ := listing.mem_spine walked bodyPlain
          have inside : j ∈ contentsAll (said m c.inScope body) :=
            (inBody j).2 (.inr ⟨n, hn, (steady n hn).symm ▸ there⟩)
          rw [told, contentsAll_scope]
          exact List.mem_cons_of_mem _ inside

end Calls

/-- The arrow function that an argument is once it is rewritten, parentheses
aside: a planned call can become its base. -/
def callbackOf (plan : Plan) : Node → Option Node
  | .node .paren _ [inner] => callbackOf plan inner
  | .node .call _ (callee :: .node .list _ (base :: _) :: _) =>
    if isPlanned plan callee then callbackOf plan base else none
  | .node (.arrow b) s ns => some (.node (.arrow b) s ns)
  | _ => none

/-- Where the parameters of the callback of a planned call stand. -/
def callbackParameters (plan : Plan) (n : Node) : List (Option Span) :=
  match (plannedArguments? plan n).map fun arguments =>
    child arguments.children 1 with
  | some callback =>
    ((callbackOf plan callback).toList.flatMap parametersOf).map Node.span
  | none => []

section Callback

variable {setting : Setting} {js : List Treatment} {ns ns' : List Node}
  {h : List String} {a : List RewrittenCall}

theorem parametersOf_unwrap (n : Node) :
    parametersOf (unwrap n) = parametersOf n := by
  rw [parametersOf, stripParens_unwrap]
  rfl

theorem parametersOf_paren (s : Option Span) (n : Node) :
    parametersOf (.node .paren s [n]) = parametersOf n := by
  rw [parametersOf, Node.stripParens]
  rfl

/-- Only an arrow function has parameters in this sense, parentheses aside. -/
theorem parametersOf_other {k : Kind} {s : Option Span}
    (notArrow : ∀ b, k ≠ .arrow b) (notParen : k ≠ .paren) :
    parametersOf (.node k s ns) = [] := by
  have same : (Node.node k s ns).stripParens = .node k s ns := by
    unfold Node.stripParens
    split
    · rename_i kind
      cases kind
      exact absurd rfl notParen
    · rfl
  rw [parametersOf, same]
  split
  · rename_i kind
    cases kind
    exact absurd rfl (notArrow _)
  · rfl

/-- What a node is looked at for as a callback: where it is rewritten to an
arrow function, it was one with the same parameters. -/
def SameParameters (plan : Plan) (j : Treatment) (n n' : Node) : Prop :=
  j = .place ∨ j = .callback → ∀ p' ∈ parametersOf n',
    identifier? p'.kind ≠ none → ∃ arrow, callbackOf plan n = some arrow ∧
    ∃ p ∈ parametersOf arrow, p.span = p'.span

/-- The parameters of an arrow function that is rewritten stand where they
stood. -/
theorem sameParameters_arrow {plan : Plan} {b : Bool} {s : Option Span}
    (isRegular : regular (.node (.arrow b) s ns) = true)
    (kept : AllKept (treatments (.arrow b) ns) ns ns') (j : Treatment) :
    SameParameters plan j (.node (.arrow b) s ns) (.node (.arrow b) s ns') := by
  rintro - p' hp' isName
  have given : parametersOf (.node (.arrow b) s ns') = (child ns' 0).children :=
    by
    cases ns' <;> rfl
  have given' : parametersOf (.node (.arrow b) s ns) = (child ns 0).children :=
    by
    cases ns <;> rfl
  rw [given] at hp'
  refine ⟨.node (.arrow b) s ns, by rw [callbackOf], ?_⟩
  rw [given']
  cases there : ns'[0]? with
  | none =>
    rw [child, List.getD_eq_getElem?_getD, there] at hp'
    cases hp'
  | some list' =>
    obtain ⟨i, list, treated, there', kept⟩ := kept.get there
    have same : child ns' 0 = list' := by
      rw [child, List.getD_eq_getElem?_getD, there]; rfl
    have same' : child ns 0 = list := by
      rw [child, List.getD_eq_getElem?_getD, there']; rfl
    rw [same] at hp'
    rw [same']
    have noBody : isBody i = false := by
      rw [← Bool.not_eq_true]
      intro isBody
      cases bodyIndex_of_treatments treated isBody
    have isList : list.kind = .list := by
      have first := (regular_node.1 isRegular).1
      exact eq_of_beq (all_take.1 first 0 list Nat.one_pos there')
    obtain ⟨p, hp, stays⟩ := kept.items noBody isList p' hp'
    refine ⟨p, hp, ?_⟩
    rcases stays with ⟨-, same⟩ | ⟨-, isParen⟩
    · exact same.symm
    · rw [isParen] at isName
      exact absurd rfl isName

/-- A planned call that becomes its base is looked at as its base. -/
theorem sameParameters_base {n arguments : Node} {arguments' : List Node}
    {policy : ChainPolicy} {chain : AccessChain}
    (planned : plannedArguments? setting.plan n = some arguments)
    (shaped : wellShaped n = true)
    (parts : Each (SameParameters setting.plan)
      (argumentTreatments arguments.children) arguments.children arguments')
    (taken : decompose policy n.span (arguments'.map unwrapItem) = .ok chain)
    (bare : chain.needsTemporary = false) :
    SameParameters setting.plan .place n (chain.expression "") := by
  obtain ⟨s, callee, rest, rfl, isPlanned⟩ := planned_cases planned
  obtain ⟨l, items, rfl⟩ := sequence_of_shaped shaped
  rintro - p' hp' isName
  obtain ⟨call, helper, -, same, -⟩ := decompose_ok taken
  have noSteps : chain.steps = [] := by
    simpa [AccessChain.needsTemporary] using bare
  have expression : chain.expression "" = parenthesized chain.base := by
    unfold AccessChain.expression
    rw [noSteps]
    rfl
  rw [expression, parenthesized, made, parametersOf_paren, same] at hp'
  generalize result : arguments'.map unwrapItem = given at helper
  cases helper with
  | @intro base callback body name b o sp l' i ascription rest' notSpread _
      isArrow _ =>
    rcases arguments' with _ | ⟨base', rest'⟩
    · cases result
    · obtain rfl : unwrapItem base' = base := (List.cons.inj result).1
      have whole : parametersOf (unwrapItem base') = parametersOf base' := by
        rw [parametersOf, stripParens_unwrapItem notSpread]
        rfl
      have inBase : p' ∈ parametersOf base' := whole ▸ hp'
      rcases items with _ | ⟨base, _ | ⟨callback, items⟩⟩
      · cases parts
      · cases parts with
        | cons first rest =>
          obtain ⟨arrow, isCallback, parameters⟩ :=
            first (.inl rfl) p' inBase isName
          refine ⟨arrow, ?_, parameters⟩
          rw [callbackOf, if_pos isPlanned, isCallback]
      · cases parts with
        | cons first rest =>
          obtain ⟨arrow, isCallback, parameters⟩ :=
            first (.inl rfl) p' inBase isName
          refine ⟨arrow, ?_, parameters⟩
          rw [callbackOf, if_pos isPlanned, isCallback]

/-- **The callback of a helper call has the parameters it had**, where it is
rewritten to an arrow function. -/
theorem rewrites_parameters (rewritten : Rewrites setting js ns ns' h a)
    (fit : AllFit js ns) (shaped : AllShaped ns) :
    Each (SameParameters setting.plan) js ns ns' := by
  have vacuous {j : Treatment} {n n' : Node} (other : j ≠ .place ∧
      j ≠ .callback) : SameParameters setting.plan j n n' :=
    fun place => (place.elim other.1 other.2).elim
  induction rewritten with
  | nil => exact .nil
  | cons head tail ih ih' =>
    exact .cons (ih (.single fit.head) shaped.head).single
      (ih' fit.tail shaped.tail)
  | keep n => exact .cons (vacuous (by decide)) .nil
  | items | block | noBlock | function | arrowBody =>
    exact .cons (vacuous (by decide)) .nil
  | program children all ih => cases fit.head.inner
  | @node k s ns ns' h a notProgram unplanned children ih =>
    refine .cons ?_ .nil
    have kept := rewrites_kept children (fit_treatments fit.head.regular)
    by_cases isArrow : ∃ b, k = .arrow b
    · obtain ⟨b, rfl⟩ := isArrow
      exact sameParameters_arrow fit.head.regular kept .place
    · by_cases isParen : k = .paren
      · subst isParen
        have parts := ih (fit_treatments fit.head.regular) shaped.children
        rintro - p' hp' isName
        rcases ns with _ | ⟨n, _ | ⟨more, rest⟩⟩
        · cases parts
          cases hp'
        · cases parts with
          | cons first rest =>
            cases rest
            have same {n' : Node} : parametersOf (.node .paren s
                (finish setting.removals .paren [n'])) = parametersOf n' :=
              (parametersOf_paren s _).trans (parametersOf_unwrap n')
            rw [same] at hp'
            have inner := first (.inl rfl) p' hp' isName
            rwa [callbackOf]
        · cases parts with
          | cons first rest =>
            cases rest with
            | cons second rest =>
              cases hp'
      · intro _ p' hp'
        rw [parametersOf_other (fun b same => isArrow ⟨b, same⟩) isParen] at hp'
        cases hp'
  | @base n arguments arguments' chain h a planned children taken bare ih =>
    refine .cons ?_ .nil
    have parts :=
      ih (fit_arguments (regular_plannedArguments planned fit.head.regular))
      fun c hc => shaped.under (occurs_of_planned planned) hc
    exact sameParameters_base planned shaped.self parts taken bare
  | @guarded n arguments arguments' chain t h a planned children taken
      needed ih =>
    refine .cons (fun _ p' hp' => ?_) .nil
    unfold AccessChain.expression at hp'
    split at hp'
    · rename_i none
      have noSteps : chain.steps = [] := by
        rw [← flatMap_steps_levels chain.steps, none]; rfl
      rw [AccessChain.needsTemporary, noSteps] at needed
      cases needed
    · rw [parenthesized, made, parametersOf_paren, guarded,
        parametersOf_other (fun _ => Kind.noConfusion) Kind.noConfusion] at hp'
      cases hp'
  | @callbackArrow b s parameters body body' types h a inner ih =>
    refine .cons (fun _ p' hp' isName => ?_) .nil
    exact ⟨.node (.arrow b) s (parameters :: body :: types),
      by rw [callbackOf], p', hp', rfl⟩
  | @callbackInside k s n n' h a wraps arrow inner ih =>
    refine .cons (fun _ p' hp' isName => ?_) .nil
    obtain ⟨-, below, outer⟩ := regular_node.1 fit.head.regular
    rcases wraps with rfl | rfl
    · have same := (ih (.single (fit_plain (below _ List.mem_cons_self) (outer _
        List.mem_cons_self) (by decide) (by decide))) shaped.children).single
      rw [parametersOf_paren] at hp'
      rw [callbackOf]
      exact same (.inr rfl) p' hp' isName
    · rw [parametersOf_other (fun _ => Kind.noConfusion) Kind.noConfusion]
        at hp'
      cases hp'
  | noCallback notArrow notInside inPlace ih =>
    have stays := (ih (.single (fit_plain fit.head.regular fit.head.inner
      (by decide) (by decide))) shaped).single
    exact .cons (fun _ => stays (.inl rfl)) .nil

end Callback

end NullGuard.Transform
