import NullGuard.Proofs.Remainders

/-!
# What a rewrite conveys to the result

A rewrite takes a call apart and puts its pieces together anew. What stands in
them comes through: it is *conveyed*. What that means depends on what one looks
at in the program and in the result, so it is a relation between nodes of the
one and nodes of the other here, of which nothing is known but that it is kept
by putting nodes one behind the other, by taking parentheses off, and by the
expression of a call (`Conveyance`).

The way from the parameter of a callback through its uses is then the same for
all such relations. A callback conveys what stands on this way (`chainParts`) to
the pieces of its chain. `chain_node` and `callback_node` are the steps of the
way for nodes that are rewritten in place, and `passes_call` says that a call
conveys its parts.
-/

namespace NullGuard.Transform

open NullGuard.Text (Span)
open NullGuard.Tree NullGuard.Chain NullGuard.Scope

/-- A relation between some nodes of a program and nodes of the result that
conveys what it looks at. -/
structure Conveyance (plan : Plan) (T : List Node → List Node → Prop) :
    Prop where
  nil : T [] []
  append {ns ms ns' ms' : List Node} :
      T ns ns' → T ms ms' → T (ns ++ ms) (ns' ++ ms')
  /-- A sequence stands for its items. -/
  list {ns items : List Node} {s : Option Span} :
      T ns [.node .list s items] → T ns items
  item {ns : List Node} {n' : Node} : T ns [n'] → T ns [unwrapItem n']
  items {ns : List Node} {n' : Node} : T ns [n'] → T ns [mapItems unwrapItem n']
  /-- A call to rewrite is conveyed by its parts. -/
  call {n arguments base callback : Node} {c : AccessChain} (t : String)
      (planned : plannedArguments? plan n = some arguments)
      (given : arguments.children = [base, callback]) (span : c.span = n.span)
      (empty : callbackParts plan callback = [] ↔ c.steps = []) :
      T (base :: callbackParts plan callback) (c.base :: pieces c.steps) →
        T [n] [c.expression t]

/-- Whatever a body leads through, some parts are conveyed to it; there are
steps just if there are parts. -/
def ChainPasses (T : List Node → List Node → Prop) (parts : List Node)
    (body : Node) : Prop :=
  ∀ policy name steps, Spine policy name body steps →
    (parts = [] ↔ steps = []) ∧
    T parts (pieces steps)

/-- **What passes through the rewrite of a node** that is treated in a way. -/
structure Passes (plan : Plan) (T : List Node → List Node → Prop)
    (j : Treatment) (n n' : Node) : Prop where
  conveyed : j ≠ .callback → T [n] [n']
  /-- The node leads from a parameter through some steps. -/
  chain : j = .place ∨ j = .arrowBody → ChainPasses T (chainParts plan n) n'
  /-- The node is a callback. -/
  callback : j = .place ∨ j = .callback → ∀ b s parameters body types,
    n'.stripParens = .node (.arrow b) s (parameters :: body :: types) →
    ChainPasses T (callbackParts plan n) body

section Passes

variable {plan : Plan} {T : List Node → List Node → Prop} {j : Treatment}
  {js : List Treatment} {n n' : Node} {k : Kind} {s : Option Span}
  {ns ns' : List Node}

/-- Of nodes that are neither rewritten in their own place nor parts of a
callback only what they are conveyed to matters. -/
theorem Passes.of_conveyed (notPlace : j ≠ .place)
    (notArrowBody : j ≠ .arrowBody) (notCallback : j ≠ .callback)
    (conveyed : T [n] [n']) : Passes plan T j n n' where
  conveyed _ := conveyed
  chain same := absurd same (not_or.2 ⟨notPlace, notArrowBody⟩)
  callback same := absurd same (not_or.2 ⟨notPlace, notCallback⟩)

/-- Of the callback of a call only what it leads through matters. -/
theorem Passes.of_callback
    (callback : ∀ b s parameters body types, n'.stripParens =
      .node (.arrow b) s (parameters :: body :: types) →
      ChainPasses T (callbackParts plan n) body) :
    Passes plan T .callback n n' where
  conveyed other := absurd rfl other
  chain same := by rcases same with same | same <;> cases same
  callback _ := callback

/-- Several nodes that are not the callback of a call are conveyed. -/
theorem Conveyance.all (closed : Conveyance plan T)
    (h : Each (Passes plan T) js ns ns')
    (noCallback : ∀ j ∈ js, j ≠ .callback) : T ns ns' := by
  induction h with
  | nil => exact closed.nil
  | cons head tail ih =>
    obtain ⟨notHere, notBehind⟩ := List.forall_mem_cons.1 noCallback
    exact closed.append (head.conveyed notHere) (ih notBehind)

/-- No child is treated as a callback. -/
theorem notCallback_of_treatments : ∀ j ∈ treatments k ns, j ≠ .callback := by
  rintro j hj rfl
  obtain ⟨i, treated⟩ := List.mem_iff_getElem?.1 hj
  cases treated_of_treatments treated with
  | body body _ => cases body

theorem notCallback_of_place :
    ∀ j ∈ ns.map fun _ => Treatment.place, j ≠ .callback := by
  intro j hj
  obtain ⟨_, -, rfl⟩ := List.mem_map.1 hj
  simp

theorem spine_of_unwrap {policy : ChainPolicy} {name : String}
    {steps : List Step} (h : Spine policy name (unwrap n) steps) :
    Spine policy name n steps := by
  unfold unwrap at h
  split at h
  · exact .paren none h
  · exact h

theorem chainParts_call {callee arguments : Node} {rest : List Node}
    (unplanned : isPlanned plan callee = false) :
    chainParts plan (.node .call s (callee :: arguments :: rest)) =
      chainParts plan callee ++ arguments :: rest := by
  obtain ⟨k, l, items⟩ := arguments
  conv_lhs => unfold chainParts
  rw [unplanned, if_neg Bool.false_ne_true]

theorem callbackParts_arrow {b : Bool} {parameters body : Node}
    {types : List Node} :
    callbackParts plan (.node (.arrow b) s (parameters :: body :: types)) =
      chainParts plan body := by
  conv_lhs => unfold callbackParts

/-- A helper call leads through what its base leads through. -/
theorem parts_of_planned {arguments : Node} {base : Node} {rest : List Node}
    (planned : plannedArguments? plan n = some arguments)
    (given : arguments.children = base :: rest) :
    chainParts plan n = chainParts plan base ∧ callbackParts plan n =
      callbackParts plan base := by
  obtain ⟨s, callee, types, rfl, isPlanned⟩ := planned_cases planned
  obtain ⟨k, l, items⟩ := arguments
  obtain rfl : items = base :: rest := given
  constructor
  · conv_lhs => unfold chainParts
    rw [if_pos isPlanned]
  · conv_lhs => unfold callbackParts
    rw [if_pos isPlanned]

/-- The expression of a chain stands in parentheses. -/
theorem kind_expression (c : AccessChain) (t : String) :
    (c.expression t).kind = .paren := by
  unfold AccessChain.expression
  split <;> rfl

/-- A body that gets a declaration of temporaries in front leads through nothing
then. -/
theorem spine_of_arrowBody {policy : ChainPolicy} {name : String}
    {names : List String} {steps : List Step}
    (h : Spine policy name (arrowBody names n) steps) :
    Spine policy name n steps := by
  unfold arrowBody at h
  split at h
  · cases h
  · split at h
    · unfold unwrapConditional at h
      split at h
      · cases h
      · exact h
    · cases h

variable (closed : Conveyance plan T)

include closed

/-- A node that is no call to rewrite leads through what its children lead
through. -/
theorem chain_node (removals : List (Option Span))
    (unplanned : plannedArguments? plan (.node k s ns) = none)
    (pass : Each (Passes plan T) (treatments k ns) ns ns') :
    ChainPasses T (chainParts plan (.node k s ns))
      (.node k s (finish removals k ns')) := by
  intro policy name steps spine
  generalize whole : Node.node k s (finish removals k ns') = n' at spine
  cases spine with
  | leaf =>
    cases whole
    have none : chainParts plan (.node (.ident name) s ns) = [] := by
      unfold chainParts
      rfl
    rw [none]
    exact ⟨iff_of_true rfl rfl, closed.nil⟩
  | @paren s' inner steps rest =>
    simp only [Node.node.injEq] at whole
    obtain ⟨rfl, rfl, items⟩ := whole
    have placed : List.Forall₂ (Passes plan T .place) ns ns' := pass.placed
    replace items : ns'.modify 0 unwrap = [inner] := items
    cases placed with
    | nil => cases items
    | cons head tail =>
      cases tail with
      | cons => cases items
      | nil =>
        cases items
        rw [chainParts]
        exact head.chain (.inl rfl) policy name steps (spine_of_unwrap rest)
  | @member s' object property steps clean rest =>
    simp only [Node.node.injEq] at whole
    obtain ⟨rfl, rfl, items⟩ := whole
    have placed : List.Forall₂ (Passes plan T .place) ns ns' := pass.placed
    replace items : ns' = [object, property] := items
    subst items
    cases placed with | cons first others => ?_
    cases others with | cons second others => ?_
    cases others
    rw [chainParts]
    refine ⟨iff_of_false (by simp) (by simp), ?_⟩
    rw [pieces_append]
    exact closed.append (first.chain (.inl rfl) policy name _ rest).2
      (second.conveyed (by simp))
  | @call s' l callee types arguments steps permissive ordinary clean rest =>
    simp only [Node.node.injEq] at whole
    obtain ⟨rfl, rfl, items⟩ := whole
    have placed : List.Forall₂ (Passes plan T .place) ns ns' := pass.placed
    replace items : ns'.modify 1 (mapItems unwrapItem) =
      [callee, .node .list l arguments, types] := items
    have three : ns'.length = 3 :=
      (List.length_modify ..).symm.trans (congrArg List.length items)
    obtain ⟨callee', list', types', rfl⟩ := List.length_eq_three.1 three
    simp only [List.modify_succ_cons, List.modify_zero_cons, List.cons.injEq,
      and_true] at items
    obtain ⟨rfl, list, rfl⟩ := items
    cases placed with | cons first others => ?_
    cases others with | cons second others => ?_
    cases others with | cons third others => ?_
    cases others
    rename_i callee₀ list₀ types₀
    have ordinary : isPlanned plan callee₀ = false := by
      simpa [plannedArguments?] using unplanned
    rw [chainParts_call ordinary]
    refine ⟨iff_of_false (by simp) (by simp), ?_⟩
    have given : T [list₀] [.node .list l arguments] :=
      list ▸ closed.items (second.conveyed (by simp))
    have last : pieces [.call arguments types'] = arguments ++ [types'] :=
      List.append_nil _
    rw [pieces_append, last]
    exact closed.append (first.chain (.inl rfl) policy name _ rest).2
      (closed.append (closed.list given) (third.conveyed (by simp)))

omit closed in
/-- A node that is no call to rewrite is a callback as its children are. -/
theorem callback_node (removals : List (Option Span))
    (pass : Each (Passes plan T) (treatments k ns) ns ns') {b : Bool}
    {s' : Option Span} {parameters body : Node} {types : List Node}
    (isArrow : (Node.node k s (finish removals k ns')).stripParens =
      .node (.arrow b) s' (parameters :: body :: types)) :
    ChainPasses T (callbackParts plan (.node k s ns)) body := by
  unfold Node.stripParens at isArrow
  split at isArrow
  · rename_i inner whole
    simp only [Node.node.injEq] at whole
    obtain ⟨rfl, -, items⟩ := whole
    have placed : List.Forall₂ (Passes plan T .place) ns ns' := pass.placed
    replace items : ns'.modify 0 unwrap = [inner] := items
    cases placed with
    | nil => cases items
    | cons head tail =>
      cases tail with
      | cons => cases items
      | nil =>
        cases items
        rw [stripParens_unwrap] at isArrow
        rw [callbackParts]
        exact head.callback (.inl rfl) _ _ _ _ _ isArrow
  · simp only [Node.node.injEq] at isArrow
    obtain ⟨rfl, -, items⟩ := isArrow
    replace items : ns' = parameters :: body :: types := items
    subst items
    rcases ns with _ | ⟨parameters₀, _ | ⟨body₀, types₀⟩⟩
    · cases pass
    · cases pass with | cons first others => cases others
    · have treated : Each (Passes plan T)
          (.place :: .arrowBody :: types₀.map fun _ => .keep)
          (parameters₀ :: body₀ :: types₀) (parameters :: body :: types) := pass
      cases treated with | cons first others => ?_
      cases others with | cons second others => ?_
      rw [callbackParts_arrow]
      exact second.chain (.inr rfl)

omit closed

/-- The callback of a call leads through what its body leads through. -/
theorem Passes.arrow {b : Bool} {parameters body body' : Node}
    {types : List Node} (inner : Passes plan T .place body body') :
    Passes plan T .callback (.node (.arrow b) s (parameters :: body :: types))
      (.node (.arrow b) s (parameters :: body' :: types)) := by
  refine .of_callback fun b' s' parameters' inside types' isArrow => ?_
  rw [Node.stripParens] at isArrow
  · cases isArrow
    rw [callbackParts_arrow]
    exact inner.chain (.inl rfl)
  · simp

/-- A callback in parentheses is one, and one behind dots is none. -/
theorem Passes.inside (wraps : k = .paren ∨ k = .spread)
    (inner : Passes plan T .callback n n') :
    Passes plan T .callback (.node k s [n]) (.node k s [n']) := by
  refine .of_callback fun b' s' parameters' inside types' isArrow => ?_
  rcases wraps with rfl | rfl
  · rw [Node.stripParens] at isArrow
    rw [callbackParts]
    exact inner.callback (.inr rfl) _ _ _ _ _ isArrow
  · rw [Node.stripParens] at isArrow
    · cases isArrow
    · simp

/-- What is rewritten in its own place may be the callback of a call. -/
theorem Passes.asCallback (inner : Passes plan T .place n n') :
    Passes plan T .callback n n' :=
  .of_callback (inner.callback (.inl rfl))

include closed

/-- The parts of a helper call are conveyed to the pieces of its chain, and
there are steps just if there are parts besides the base. -/
theorem parts_of_call {given given' : List Node} {policy : ChainPolicy}
    {span : Option Span} {c : AccessChain}
    (pass : Each (Passes plan T) (argumentTreatments given) given given')
    (taken : decompose policy span (given'.map unwrapItem) = .ok c) :
    ∃ base callback base', given = [base, callback] ∧
      c.base = unwrap base' ∧ Passes plan T .place base base' ∧
      (callbackParts plan callback = [] ↔ c.steps = []) ∧
      T (base :: callbackParts plan callback) (c.base :: pieces c.steps) := by
  obtain ⟨call, helper, walked, same, -⟩ := decompose_ok taken
  generalize items : given'.map unwrapItem = arguments at helper
  cases helper with
  | @intro base callback body name b o s l i ascription rest notSpread
      callbackNotSpread isArrow _ =>
    obtain ⟨base', callback', rfl⟩ : ∃ x y, given' = [x, y] := by
      rcases given' with _ | ⟨x, _ | ⟨y, _ | ⟨more, rest⟩⟩⟩
      case cons.cons.nil => exact ⟨x, y, rfl⟩
      all_goals cases items
    cases items
    obtain ⟨base₀, callback₀, rfl⟩ : ∃ x y, given = [x, y] := by
      rcases given with _ | ⟨x, _ | ⟨y, _ | ⟨more, rest⟩⟩⟩
      case cons.cons.nil => exact ⟨x, y, rfl⟩
      · cases pass
      · cases pass with | cons first others => cases others
      · cases pass with | cons first others => cases others
          with | cons second others => cases others
    have treated : Each (Passes plan T) [.place, .callback] [base₀, callback₀]
        [base', callback'] := pass
    cases treated with | cons first others => ?_
    have second := others.single
    have bare : unwrapItem base' = unwrap base' := by
      unfold unwrapItem at notSpread ⊢
      split
      · simp [argument] at notSpread
      · rfl
    rw [stripParens_unwrapItem callbackNotSpread] at isArrow
    obtain ⟨empty, conveyed⟩ :=
      second.callback (.inr rfl) _ _ _ _ _ isArrow _ _ _ walked
    refine ⟨base₀, callback₀, base', rfl, same.trans bare, first, empty, ?_⟩
    have inBase : T [base₀] [c.base] :=
      same ▸ closed.item (first.conveyed (by simp))
    exact closed.append inBase conveyed

/-- **Helper calls pass**: their base, and what the callback leads through. -/
theorem passes_call {arguments : Node} {arguments' : List Node}
    {policy : ChainPolicy} {c : AccessChain} (t : String)
    (planned : plannedArguments? plan n = some arguments)
    (pass : Each (Passes plan T)
      (argumentTreatments arguments.children) arguments.children arguments')
    (taken : decompose policy n.span (arguments'.map unwrapItem) = .ok c) :
    Passes plan T .place n (c.expression t) := by
  obtain ⟨base, callback, base', given, isBase, first, empty, conveyed⟩ :=
    parts_of_call closed pass taken
  obtain ⟨chains, callbacks⟩ := parts_of_planned planned given
  have span : c.span = n.span := by
    obtain ⟨_, _, _, _, span⟩ := decompose_ok taken
    exact span
  -- Without steps the expression is the base in parentheses; with steps it is a
  -- conditional.
  have shape : (c.steps = [] ∧ c.expression t = parenthesized (unwrap base')) ∨
      ∃ s ns, c.expression t = parenthesized (.node .cond s ns) := by
    unfold AccessChain.expression
    split
    · rename_i none
      have grouped := flatMap_steps_levels c.steps
      rw [none] at grouped
      exact .inl ⟨grouped.symm, by rw [isBase]⟩
    · exact .inr ⟨_, _, rfl⟩
  refine ⟨fun _ => closed.call t planned given span empty conveyed, fun _ => ?_,
    fun _ b s parameters body types isArrow => ?_⟩
  · rw [chains]
    intro policy name steps spine
    rcases shape with ⟨-, same⟩ | ⟨s, ns, same⟩
    · rw [same] at spine
      cases spine with
      | paren _ rest =>
        exact first.chain (.inl rfl) policy name steps (spine_of_unwrap rest)
    · rw [same] at spine
      cases spine with
      | paren _ rest => cases rest
  · rw [callbacks]
    rcases shape with ⟨-, same⟩ | ⟨_, _, same⟩
    · rw [same, parenthesized, made, Node.stripParens, stripParens_unwrap]
        at isArrow
      exact first.callback (.inl rfl) _ _ _ _ _ isArrow
    · rw [same, parenthesized, made, Node.stripParens, Node.stripParens]
        at isArrow
      · cases isArrow
      · simp

end Passes

end NullGuard.Transform
