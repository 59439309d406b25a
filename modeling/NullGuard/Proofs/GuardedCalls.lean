import NullGuard.Proofs.PlannedCalls
import NullGuard.Proofs.Subtrees

/-!
# What becomes of a node where calls are guarded

A call that needs a temporary becomes a conditional in parentheses, and all
other nodes keep their kinds. So where every call that was rewritten needed one,
what a node has become tells what it was (`rewrites_kind`): a bare identifier in
the result was this identifier in the program (`bare_of_rewrites`). A call
without steps is the exception, as it becomes its base, which can be a name.

There is no such call where no callback of a planned call gives just its
parameter back (`rewrites_guarded`). The calls inside of a callback are
rewritten first; as they are guarded, none of them has become the parameter.
-/

namespace NullGuard.Transform

open NullGuard.Text (Span)
open NullGuard.Tree NullGuard.Chain NullGuard.Scope

/-- Every call that was rewritten needed a temporary. -/
def AllGuarded (a : List RewrittenCall) : Prop :=
  ∀ c ∈ a, c.temporary.isSome = true

section Rewrites

variable {setting : Setting} {js : List Treatment} {n n' : Node} {k : Kind}
  {s : Option Span} {ns ns' : List Node} {h : List String}
  {a : List RewrittenCall}

theorem AllGuarded.of_append {b : List RewrittenCall}
    (all : AllGuarded (a ++ b)) :
    AllGuarded a ∧ AllGuarded b :=
  ⟨fun c hc => all c (List.mem_append_left _ hc),
    fun c hc => all c (List.mem_append_right _ hc)⟩

/-- The expression of a chain with steps is a conditional in parentheses. -/
theorem expression_of_needsTemporary {c : AccessChain} (t : String)
    (needed : c.needsTemporary = true) :
    ∃ s ns, c.expression t = parenthesized (.node .cond s ns) := by
  unfold AccessChain.expression
  split
  · rename_i none
    have grouped := flatMap_steps_levels c.steps
    rw [none] at grouped
    rw [AccessChain.needsTemporary, ← grouped] at needed
    cases needed
  · exact ⟨_, _, rfl⟩

/-- **What becomes of one node in its place**: it is put together from what
became of its children, or it was a call and is a conditional in parentheses. -/
theorem rewrites_single (rewritten : Rewrites setting [.place] [n] [n'] h a)
    (inner : isProgram n.kind = false) (guarded : AllGuarded a) :
    (plannedArguments? setting.plan n = none ∧
      ∃ ns' h', n' = .node n.kind n.span (finish setting.removals n.kind ns') ∧
      Rewrites setting (treatments n.kind n.children) n.children ns' h' a) ∨
      n.kind = .call ∧
      ∃ s ns, n' = parenthesized (.node .cond s ns) := by
  generalize places : [Treatment.place] = js, whole : [n] = ns,
    result : [n'] = ns' at rewritten
  induction rewritten with
  | cons head tail ih _ =>
    cases places
    cases whole
    obtain ⟨rfl, rfl, rfl⟩ := rewrites_nil tail
    cases result
    rw [List.append_nil] at guarded ⊢
    exact ih guarded rfl rfl rfl
  | node notProgram unplanned children =>
    cases whole
    cases result
    exact .inl ⟨unplanned, _, _, rfl, children⟩
  | program =>
    cases whole
    cases inner
  | base => cases guarded _ (List.mem_append_right _ List.mem_cons_self)
  | @guarded n₀ arguments arguments' chain t h a planned children
      taken needed =>
    cases whole
    cases result
    exact .inr ⟨kind_of_planned planned, expression_of_needsTemporary t needed⟩
  | nil => cases places
  | _ => cases places

/-- Each node is rewritten by itself. -/
theorem rewrites_get (rewritten : Rewrites setting js ns ns' h a) {i : Nat}
    (there : ns'[i]? = some n') :
    ∃ j n g b, js[i]? = some j ∧ ns[i]? = some n ∧
      Rewrites setting [j] [n] [n'] g b ∧ b ⊆ a := by
  induction ns' generalizing js ns h a i with
  | nil => cases there
  | cons m' ms' ih =>
    obtain ⟨j, js', n, ms, g, b, g', b', rfl, rfl, head, tail, -, rfl⟩ :=
      rewrites_cons rewritten
    cases i with
    | zero =>
      cases there
      exact ⟨j, n, g, b, rfl, rfl, head, List.subset_append_left _ _⟩
    | succ i =>
      obtain ⟨j', n', g'', b'', treated, child, alone, sub⟩ := ih tail there
      exact ⟨j', n', g'', b'', treated, child, alone,
        fun c hc => List.mem_append_right _ (sub hc)⟩

/-- Each node becomes one node. -/
theorem rewrites_paired (rewritten : Rewrites setting js ns ns' h a) :
    List.Forall₂ (fun _ _ => True) ns ns' := by
  induction ns' generalizing js ns h a with
  | nil =>
    cases rewritten
    exact .nil
  | cons m' ms' ih =>
    obtain ⟨_, _, _, _, _, _, _, _, -, rfl, -, tail, -, -⟩ :=
      rewrites_cons rewritten
    exact .cons trivial (ih tail)

/-- A child of a node whose children are all rewritten in their places. -/
theorem rewrites_placed
    (rewritten : Rewrites setting (ns.map fun _ => .place) ns ns' h a)
    (guarded : AllGuarded a) {i : Nat} (there : ns'[i]? = some n') :
    ∃ n g b, ns[i]? = some n ∧ Rewrites setting [.place] [n] [n'] g b ∧
      AllGuarded b := by
  obtain ⟨j, n, g, b, treated, child, alone, sub⟩ :=
    rewrites_get rewritten there
  cases eq_of_map treated
  exact ⟨n, g, b, child, alone, fun c hc => guarded c (sub hc)⟩

/-- What is not in parentheses has the kind and span that it had. -/
theorem rewrites_kind (rewritten : Rewrites setting [.place] [n] [n'] h a)
    (inner : isProgram n.kind = false) (guarded : AllGuarded a)
    (notParen : n'.kind ≠ .paren) :
    n.kind = n'.kind ∧ n.span = n'.span ∧
      ∃ ns' h', n'.children = finish setting.removals n.kind ns' ∧
      Rewrites setting (treatments n.kind n.children) n.children ns' h' a := by
  rcases rewrites_single rewritten inner guarded
    with ⟨-, ns', h', rfl, children⟩ | ⟨-, s, ns, rfl⟩
  · exact ⟨rfl, rfl, ns', h', rfl, children⟩
  · exact absurd rfl notParen

theorem bareIdentifier?_paren (s : Option Span) (n : Node) :
    bareIdentifier? (.node .paren s [n]) = bareIdentifier? n := by
  rw [bareIdentifier?, bareIdentifier?, Node.stripParens]

/-- What is not in parentheses is itself without them. -/
theorem stripParens_of_kind (notParen : k ≠ .paren) :
    (Node.node k s ns).stripParens = .node k s ns := by
  unfold Node.stripParens
  split
  · rename_i isParen
    cases isParen
    exact absurd rfl notParen
  · rfl

theorem bareIdentifier?_of_kind (notParen : k ≠ .paren) {x : Node}
    (isBare : bareIdentifier? (.node k s ns) = some x) :
    (∃ y, k = .ident y) ∧ x = .node k s ns := by
  rw [bareIdentifier?, stripParens_of_kind notParen] at isBare
  split at isBare
  · rename_i y isName
    exact ⟨⟨y, isName⟩, (Option.some.inj isBare).symm⟩
  · cases isBare

/-- **Without parentheses** a node becomes what it becomes in them, unless that
is a conditional. -/
theorem stripped_of_rewrites
    (rewritten : Rewrites setting [.place] [n] [n'] h a)
    (isRegular : regular n = true) (inner : isProgram n.kind = false)
    (guarded : AllGuarded a) (notParen : n'.stripParens.kind ≠ .paren)
    (notCond : n'.stripParens.kind ≠ .cond) :
    ∃ g b, Rewrites setting [.place] [n.stripParens] [n'.stripParens] g b ∧
      AllGuarded b ∧ isProgram n.stripParens.kind = false := by
  induction n using Node.induct generalizing n' h a with
  | step k s ns ih =>
    rcases rewrites_single rewritten inner guarded
      with ⟨-, ns', h', rfl, children⟩ | ⟨-, s, ns, rfl⟩
    · by_cases isParen : k = .paren
      · subst isParen
        have placed : List.Forall₂ (fun _ _ => True) ns ns' :=
          rewrites_paired children
        rcases ns' with _ | ⟨m', _ | ⟨more, rest⟩⟩
        · exact absurd rfl notParen
        · cases placed with | @cons m _ ms _ _ tail => ?_
          cases tail
          obtain ⟨m₀, g, b, first, alone, guarded'⟩ :=
            rewrites_placed (i := 0) children guarded rfl
          cases first
          obtain ⟨-, below, outer⟩ := regular_node.1 isRegular
          have same : (Node.node .paren s
              (finish setting.removals .paren [m'])).stripParens =
              m'.stripParens := by
            rw [← stripParens_unwrap m']
            exact Node.stripParens.eq_1 s (unwrap m')
          have same' : (Node.node .paren s [m]).stripParens = m.stripParens :=
            Node.stripParens.eq_1 s m
          simp only [Node.kind_node, Node.span_node] at notParen notCond ⊢
          rw [same] at notParen notCond ⊢
          rw [same']
          exact ih m List.mem_cons_self alone (below m List.mem_cons_self)
            (outer m List.mem_cons_self) guarded' notParen notCond
        · exact absurd rfl notParen
      · have same : (Node.node k s ns).stripParens = .node k s ns :=
          stripParens_of_kind isParen
        have same' :
            (Node.node k s (finish setting.removals k ns')).stripParens =
              .node k s (finish setting.removals k ns') :=
          stripParens_of_kind isParen
        simp only [Node.kind_node, Node.span_node] at rewritten ⊢
        rw [same, same']
        exact ⟨h, a, rewritten, guarded, inner⟩
    · exact absurd rfl notCond

/-- An expression that is a bare identifier now was that identifier. -/
theorem bare_of_rewrites (rewritten : Rewrites setting [.place] [n] [n'] h a)
    (isRegular : regular n = true) (inner : isProgram n.kind = false)
    (guarded : AllGuarded a) {x' : Node}
    (isBare : bareIdentifier? n' = some x') :
    ∃ x, bareIdentifier? n = some x ∧ x.kind = x'.kind ∧ x.span = x'.span := by
  unfold bareIdentifier? at isBare
  split at isBare
  · rename_i y isName
    cases isBare
    obtain ⟨g, b, alone, guarded', inner'⟩ := stripped_of_rewrites rewritten
      isRegular inner guarded (by rw [isName]; simp) (by rw [isName]; simp)
    obtain ⟨kind, span, -⟩ :=
      rewrites_kind alone inner' guarded' (by rw [isName]; simp)
    refine ⟨_, ?_, kind, span⟩
    rw [bareIdentifier?, kind, isName]
  · cases isBare

/-- **Only a bare identifier becomes one**, in its place. -/
theorem each_bare (rewritten : Rewrites setting js ns ns' h a)
    (fit : AllFit js ns) (guarded : AllGuarded a) :
    Each (fun j n n' => j = .place → bareIdentifier? n = none →
      bareIdentifier? n' = none) js ns ns' := by
  have single {j : Treatment} {n n' : Node} {g : List String}
      {b : List RewrittenCall} (alone : Rewrites setting [j] [n] [n'] g b)
      (fit : Fit j n) (guarded : AllGuarded b) (place : j = .place)
      (notBare : bareIdentifier? n = none) : bareIdentifier? n' = none := by
    subst place
    refine Option.eq_none_iff_forall_ne_some.2 fun x' isBare => ?_
    obtain ⟨x, isBare', -⟩ :=
      bare_of_rewrites alone fit.regular fit.inner guarded isBare
    cases notBare.symm.trans isBare'
  induction ns' generalizing js ns h a with
  | nil =>
    cases rewritten
    exact .nil
  | cons n' ns' ih =>
    obtain ⟨j, js, n, ns, g, b, g', b', rfl, rfl, head, tail, -, rfl⟩ :=
      rewrites_cons rewritten
    obtain ⟨first, others⟩ := guarded.of_append
    exact .cons (single head fit.head first) (ih tail fit.tail others)

/-- An arrow function with a body was one. -/
theorem arrow_of_rewrites {b : Bool} {parameters' body' : Node}
    {types' : List Node} (rewritten : Rewrites setting [.place] [n]
      [.node (.arrow b) s (parameters' :: body' :: types')] h a)
    (inner : isProgram n.kind = false) (guarded : AllGuarded a) :
    ∃ parameters body types,
      n = .node (.arrow b) s (parameters :: body :: types) := by
  obtain ⟨kind, span, ns', h', parts, children⟩ :=
    rewrites_kind rewritten inner guarded (by simp)
  obtain ⟨k, t, ns⟩ := n
  rw [Node.kind_node, Node.kind_node] at kind
  rw [Node.span_node, Node.span_node] at span
  subst kind span
  replace parts : parameters' :: body' :: types' = ns' := parts
  subst parts
  have placed : List.Forall₂ (fun _ _ => True) ns
      (parameters' :: body' :: types') := rewrites_paired children
  cases placed with | cons _ rest => ?_
  cases rest with | cons _ _ => ?_
  exact ⟨_, _, _, rfl⟩

/-- **A callback that is an arrow function was one**, and its body became the
body that it has. -/
theorem callback_of_rewrites
    (rewritten : Rewrites setting [.callback] [n] [n'] h a)
    (isRegular : regular n = true) (inner : isProgram n.kind = false)
    (guarded : AllGuarded a) {b : Bool} {parameters' body' : Node}
    {types' : List Node} (toArrow : n'.stripParens =
      .node (.arrow b) s (parameters' :: body' :: types')) :
    ∃ parameters body types g c, n.stripParens =
      .node (.arrow b) s (parameters :: body :: types) ∧
      Rewrites setting [.place] [body] [body'] g c ∧ AllGuarded c := by
  generalize places : [Treatment.callback] = js, whole : [n] = ns,
    result : [n'] = ns' at rewritten
  induction rewritten generalizing n n' with
  | cons head tail ih _ =>
    cases places
    cases whole
    obtain ⟨rfl, rfl, rfl⟩ := rewrites_nil tail
    cases result
    rw [List.append_nil] at guarded
    exact ih isRegular inner guarded toArrow rfl rfl rfl
  | callbackArrow inPlace =>
    cases whole
    cases result
    rw [stripParens_of_kind Kind.noConfusion] at toArrow
    cases toArrow
    exact ⟨_, _, _, _, _, stripParens_of_kind Kind.noConfusion, inPlace,
      guarded⟩
  | @callbackInside k s m m' g c wraps arrow inside ih =>
    cases whole
    cases result
    obtain ⟨-, below, outer⟩ := regular_node.1 isRegular
    rcases wraps with rfl | rfl
    · rw [Node.stripParens] at toArrow ⊢
      exact ih (below m List.mem_cons_self) (outer m List.mem_cons_self)
        guarded toArrow rfl rfl rfl
    · rw [stripParens_of_kind Kind.noConfusion] at toArrow
      cases toArrow
  | noCallback notArrow notInside inPlace _ =>
    cases whole
    cases result
    obtain ⟨g, c, alone, guarded', inner'⟩ := stripped_of_rewrites inPlace
      isRegular inner guarded (by rw [toArrow]; simp) (by rw [toArrow]; simp)
    rw [toArrow] at alone
    obtain ⟨parameters, body, types, whole⟩ :=
      arrow_of_rewrites alone inner' guarded'
    unfold Node.stripParens at whole
    split at whole
    · rename_i t m _
      have inside : isArrow m = true := by
        unfold isArrow
        rw [whole]
        rfl
      cases inside.symm.trans (notInside .paren t m rfl (.inl rfl))
    · exact absurd whole (notArrow _ _ _ _ _)
  | nil => cases places
  | _ => cases places

/-- The body of a walk without steps is a bare identifier. -/
theorem bare_of_spine {policy : ChainPolicy} {name : String} {body : Node}
    {steps : List Step} (h : Spine policy name body steps)
    (none : steps = []) : ∃ x, bareIdentifier? body = some x := by
  induction h with
  | leaf s ns => exact ⟨_, rfl⟩
  | paren s rest ih =>
    rw [bareIdentifier?_paren]
    exact ih none
  | member | call => cases List.append_eq_nil_iff.1 none |>.2

end Rewrites

/-- Whether the callback of a call, if the call is planned, does more than to
give its parameter back: its body is no bare identifier. -/
def leads (plan : Plan) (n : Node) : Bool :=
  match (plannedArguments? plan n).map fun arguments =>
    (child arguments.children 1).stripParens with
  | some (.node (.arrow _) _ (_ :: body :: _)) => (bareIdentifier? body).isNone
  | _ => true

/-- What is known of the nodes inside of a program whose callbacks all do
more. -/
structure Led (plan : Plan) (n : Node) : Prop where
  leads : leads plan n = true
  regular : regular n = true

section Leads

variable {setting : Setting} {js : List Treatment} {n arguments : Node}
  {ns ns' given : List Node} {h : List String} {a : List RewrittenCall}

/-- The second of the arguments of a call is treated as a callback. -/
theorem second_argument {j : Treatment} {callback : Node}
    (treated : (argumentTreatments ns)[1]? = some j)
    (there : ns[1]? = some callback) :
    j = .callback ∧ child ns 1 = callback := by
  rw [child, List.getD_eq_getElem?_getD, there]
  rcases ns with _ | ⟨x, _ | ⟨y, rest⟩⟩
  · cases there
  · cases there
  · exact ⟨(Option.some.inj treated).symm, rfl⟩

/-- A planned call whose callback leads through a step needs a temporary. -/
theorem needsTemporary_of_leads {chain : AccessChain}
    (planned : plannedArguments? setting.plan n = some arguments)
    (led : Led setting.plan n)
    (children : Rewrites setting (argumentTreatments arguments.children)
      arguments.children given h a)
    (taken : decompose setting.options.policy n.span
      (given.map unwrapItem) = .ok chain) (guarded : AllGuarded a) :
    chain.needsTemporary = true := by
  obtain ⟨call, helper, walked, -⟩ := decompose_ok taken
  generalize items : given.map unwrapItem = result at helper
  cases helper with
  | @intro base callback body' name b o s l i ascription rest notSpread
      callbackNotSpread isArrow _ =>
    obtain ⟨first, others, rfl, -, behind⟩ := List.map_eq_cons_iff.1 items
    obtain ⟨second, more, rfl, rfl, none⟩ := List.map_eq_cons_iff.1 behind
    cases List.map_eq_nil_iff.1 none
    rw [stripParens_unwrapItem callbackNotSpread] at isArrow
    obtain ⟨j, callback, g, c, treated, there, alone, sub⟩ :=
      rewrites_get (i := 1) children rfl
    obtain ⟨rfl, rfl⟩ := second_argument treated there
    obtain ⟨isRegular, inner⟩ := regular_plannedArguments planned led.regular _
      (List.mem_of_getElem? there)
    obtain ⟨parameters, body, types, g', c', whole, inPlace, guarded'⟩ :=
      callback_of_rewrites alone isRegular inner
        (fun r hr => guarded r (sub hr)) isArrow
    obtain ⟨regular', inner'⟩ : regular body = true ∧
        isProgram body.kind = false := by
      have arrow := (Occurs.stripParens _).regular isRegular
      rw [whole] at arrow
      obtain ⟨-, below, outer⟩ := regular_node.1 arrow
      have mem : body ∈ parameters :: body :: types :=
        List.mem_cons_of_mem _ List.mem_cons_self
      exact ⟨below body mem, outer body mem⟩
    -- Without steps the new body is the parameter, and so was the old one.
    by_contra none
    rw [AccessChain.needsTemporary, Bool.not_eq_true, Bool.not_eq_false',
      List.isEmpty_iff] at none
    obtain ⟨x', isBare⟩ := bare_of_spine walked none
    obtain ⟨x, wasBare, -⟩ :=
      bare_of_rewrites inPlace regular' inner' guarded' isBare
    have leads := led.leads
    simp only [Transform.leads, planned, Option.map_some, whole, wasBare]
      at leads
    cases leads

/-- The arguments of a call are led as the call is. -/
theorem Led.call {plan : Plan}
    (planned : plannedArguments? plan n = some arguments)
    (led : Everywhere (Led plan) [n]) :
    Led plan n ∧ Everywhere (Led plan) arguments.children := by
  have occurs := occurs_of_planned planned
  obtain ⟨k, s, ns⟩ := n
  obtain ⟨k', s', ms⟩ := arguments
  obtain ⟨here, below⟩ := everywhere_node.1 led
  exact ⟨here, (everywhere_node.1 (below.of_occurs occurs .here)).2⟩

/-- **Every call needs a temporary** where all callbacks lead through a step. -/
theorem rewrites_guarded (rewritten : Rewrites setting js ns ns' h a)
    (led : Everywhere (Led setting.plan) ns) : AllGuarded a := by
  induction rewritten with
  | nil | keep => exact nofun
  | cons head tail ih ih' =>
    obtain ⟨first, others⟩ := everywhere_cons.1 led
    exact List.forall_mem_append.2 ⟨ih first, ih' others⟩
  | node _ _ _ ih | program _ _ ih | items _ ih | block _ _ ih | function _ ih
      | callbackInside _ _ _ ih =>
    exact ih (everywhere_node.1 led).2
  | noBlock _ _ ih | noCallback _ _ _ ih | arrowBody _ _ ih => exact ih led
  | base planned children taken bare ih =>
    obtain ⟨here, inside⟩ := Led.call planned led
    cases bare.symm.trans
      (needsTemporary_of_leads planned here children taken (ih inside))
  | guarded planned children taken needed ih =>
    exact List.forall_mem_append.2 ⟨ih (Led.call planned led).2,
      List.forall_mem_singleton.2 rfl⟩
  | callbackArrow _ ih =>
    obtain ⟨-, others⟩ := everywhere_cons.1 (everywhere_node.1 led).2
    exact ih (everywhere_cons.1 others).1

end Leads

end NullGuard.Transform
