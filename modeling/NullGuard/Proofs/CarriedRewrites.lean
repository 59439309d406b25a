import NullGuard.Proofs.CarriedNodes
import NullGuard.Proofs.GuardedCalls
import NullGuard.Proofs.Homes

/-!
# A rewrite carries over what a program says about names

What is rewritten is carried over, however it is treated (`rewrites_carry`). The
induction follows the rewrite. A node that keeps its kind is carried over with
its children (`faithful_node`), and a helper call by way of its arguments
(`faithful_call`): its callee is not left, since a rewritten call drops it. A
body that gets temporaries gets declarations of new names (`carries_declareIn`).
-/

namespace NullGuard.Transform

open NullGuard.Text (Span)
open NullGuard.Tree NullGuard.Chain NullGuard.Scope

section Carry

variable {e : Edit} {setting : Setting} {m : String} {c : Context} {k : Kind}
  {s : Option Span} {n n' : Node} {ns ns' ms : List Node} {j : Treatment}
  {js : List Treatment} {h g names : List String} {a : List RewrittenCall}

/-- Rewritten nodes have no identifiers of their own. -/
theorem within_of_rewrites (rewritten : Rewrites setting js ns ns' h a) :
    Within ns ns' := by
  intro s given there
  have bound := rewrites_spans rewritten given
  exact times_pos.1 (Nat.lt_of_lt_of_le (times_pos.2 there)
    (Nat.le_trans (Nat.le_add_right _ _) bound))

/-- What several nodes become has no identifiers of its own, node by node. -/
theorem each_within (rewritten : Rewrites setting js ns ns' h a) :
    Each (fun _ n n' => Within [n] [n']) js ns ns' := by
  have whole := within_of_rewrites rewritten
  induction rewritten with
  | nil => exact .nil
  | cons head tail _ ih =>
    exact .cons (within_of_rewrites head) (ih (within_of_rewrites tail))
  | _ => exact .cons whole .nil

/-- What is left where nodes were tidied up was left before. -/
theorem Left.of_times (h : Left e ns ns')
    (fewer : ∀ s, s ≠ none → times s ns' ≤ times s ms)
    (scene : Scene e setting m ns) : Left e ns ms :=
  h.mono (fun s there given => times_pos.1
    (Nat.lt_of_lt_of_le (times_pos.2 there) (fewer s given))) scene

/-- **The callee of a rewritten call is not left.** -/
theorem callee_not_left (scene : Scene e setting m ns) (left : Left e ns ns')
    (rewritten : Rewrites setting js ns ns' h a) :
    ∀ r ∈ a, ¬ e.isLeft r.callee := by
  intro r hr isLeft
  have before := (rewrites_targets rewritten r hr).2
  have given : r.callee ≠ none := fun none => scene.given (none ▸ before)
  have after := times_pos.2 (left r.callee before isLeft)
  have counted : 0 < (a.map RewrittenCall.callee).count r.callee :=
    List.count_pos_iff.2 (List.mem_map_of_mem hr)
  have once : times r.callee ns ≤ 1 :=
    List.nodup_iff_count_le_one.1 scene.distinct _
  have bound := rewrites_spans rewritten given
  omega

/-- All that is known of several nodes and what becomes of them. -/
theorem moved_of_carried (rewritten : Rewrites setting js ns ns' h a)
    (fit : AllFit js ns) (plain : AllPlain js ns)
    (firm : e.keepsWrites → AllGuarded a)
    (carried : Each (Carried e m) js ns ns') :
    Each (Moved e m) js ns ns' := by
  have kept := rewrites_kept rewritten fit
  have stays := rewrites_plain rewritten fit plain
  have within := each_within rewritten
  have bare : Each (fun j n n' => j = .place → e.keepsWrites →
      bareIdentifier? n = none → bareIdentifier? n' = none) js ns ns' := by
    by_cases keeps : e.keepsWrites
    · exact (each_bare rewritten fit (firm keeps)).imp
        fun _ _ _ bare place _ => bare place
    · exact within.imp fun _ _ _ _ _ keeps' => absurd keeps' keeps
  clear rewritten fit plain firm
  induction carried with
  | nil => exact .nil
  | cons head tail ih =>
    cases kept with
    | cons firstKept kept =>
      cases stays with
      | cons firstStays stays =>
        cases within with
        | cons firstWithin within =>
          cases bare with
          | cons firstBare bare =>
            exact .cons ⟨head, firstKept, firstStays, firstWithin, firstBare⟩
              (ih kept stays within bare)

/-- Declarations of new names add nothing to what is carried over. -/
theorem carries_varStatement (new : ∀ x ∈ names, e.isNew x) :
    Carries e [] (said m c (varStatement names)) := by
  rw [said_varStatement]
  refine carries_new (fun r d hd => ?_) (fun i hi => ?_) ?_
  · rw [reachingAll_variables] at hd
    split at hd
    · obtain ⟨x, hx, rfl⟩ := List.mem_map.1 hd
      exact new x hx
    · cases hd
  · have nothing : contentsAll
        (names.map fun x => .declaration x none .var) = [] := by
      clear new hi
      induction names with
      | nil => rfl
      | cons x names ih => exact ih
    rw [nothing] at hi
    cases hi
  · clear new
    induction names with
    | nil => rfl
    | cons x names ih => exact ih

/-- **Statements are carried over to statements with new declarations.** -/
theorem carries_declareIn (new : ∀ x ∈ names, e.isNew x) :
    Carries e (saidAmong m c ns) (saidAmong m c (declareIn names ns)) := by
  rcases declareIn_eq names ns with ⟨same, -⟩ | ⟨front, back, same, rfl⟩
  · rw [same]
    exact .refl _
  · rw [same, ← List.singleton_append (l := back), saidAmong_append,
      saidAmong_append, saidAmong_append]
    have composed := composed_carries e
    have statement : Carries e [] (saidAmong m c [varStatement names]) := by
      rw [saidAmong, List.flatMap_singleton]
      exact carries_varStatement new
    exact composed.append (.refl _) (composed.append statement (.refl _))

/-- A block is carried over to one with the same statements, some of them
dropped, and new declarations. -/
theorem faithful_block
    (moved : Each (Moved e m) (ns.map fun _ => .place) ns ns')
    (new : ∀ x ∈ names, e.isNew x) (scene : Scene e setting m ns)
    (left : Left e ns (ns'.filter (staysIn setting.removals))) :
    Faithful e m (.node .block s ns) (.node .block s
      (declareIn names (ns'.filter (staysIn setting.removals)))) := by
  have items (c : Context) (hc : Inside c) :=
    (carries_items moved scene left hc).trans (carries_declareIn new)
  refine ⟨⟨fun c hc => ?_, fun c hc => ?_, Kind.noConfusion⟩,
    by rintro (same | same) <;> cases same⟩
  · have told (ms : List Node) : said m c (.node .block s ms) =
        [.scope .block (saidAmong m c.inScope ms)] := by
      rw [said_node]
      exact congrArg (fun os => [Outline.scope .block os]) (outlines_toParts ..)
    rw [told, told]
    exact (composed_carries e).scope _ (items _ (passing_inside.inScope hc))
  · rw [bodyOutline_block, bodyOutline_block]
    exact items c hc

/-- The body of an arrow function is carried over to one with new
declarations. -/
theorem carries_arrowBody (plain : isPlain n = true)
    (new : ∀ x ∈ names, e.isNew x) :
    Carries e (bodyOutline (toPart m n) c)
      (bodyOutline (toPart m (arrowBody names n)) c) := by
  unfold arrowBody
  split
  · rw [bodyOutline_block, bodyOutline_block]
    exact carries_declareIn new
  · rename_i noBlock
    have notBlock : n.kind ≠ .block := by
      obtain ⟨k, s, ns⟩ := n
      rintro rfl
      exact noBlock s ns rfl
    split
    · rw [(tidies_unwrapConditional n plain).body]
      exact .refl _
    · have value : said m c (made .returnStmt [unwrap n]) = said m c n := by
        rw [← (tidies_unwrap n plain).said m c]
        exact List.append_nil _
      have told : saidAmong m c [varStatement names, made .returnStmt
          [unwrap n]] = said m c (varStatement names) ++ said m c n := by
        rw [saidAmong, List.flatMap_cons, List.flatMap_singleton, value]
      rw [bodyOutline_of_other notBlock, made, bodyOutline_block, told]
      exact (composed_carries e).append (carries_varStatement new) (.refl _)

/-- The parameter of the callback of a planned call is the one it had. -/
theorem parameter_of_callback {arguments : Node} {arguments' : List Node}
    {policy : ChainPolicy} {span : Option Span} {chain : AccessChain}
    (planned : plannedArguments? setting.plan n = some arguments)
    (parameters : Each (SameParameters setting.plan)
      (argumentTreatments arguments.children) arguments.children arguments')
    (taken : decompose policy span (arguments'.map unwrapItem) = .ok chain) :
    ∀ callback, (arguments'.map unwrapItem)[1]? = some callback → ∀ p ∈
      parametersOf callback, p.span ∈ callbackParameters setting.plan n := by
  intro callback there p hp
  obtain ⟨second, there', b, s, l, name, o, i, ascription, body, rest,
      isArrow⟩ := isCallback_of_decompose taken
  obtain rfl : unwrapItem second = callback := by
    rw [List.getElem?_map, there'] at there
    exact Option.some.inj there
  have given : parametersOf second =
      [.node (.bindingIdent name o) i ascription] := by
    rw [parametersOf, isArrow]
    rfl
  have whole : parametersOf (unwrapItem second) = parametersOf second := by
    unfold unwrapItem
    split
    · cases isArrow
    · exact parametersOf_unwrap second
  rw [whole] at hp
  rcases parameters.child 1 with ⟨-, missing⟩ | ⟨j, treated, -, same⟩
  · rw [Scope.child, List.getD_eq_getElem?_getD, there'] at missing
    have none : second = .none := missing
    rw [none] at isArrow
    cases isArrow
  · have callback : child arguments' 1 = second := by
      rw [Scope.child, List.getD_eq_getElem?_getD, there']
      rfl
    rw [callback] at same
    have place := treatment_of_argument treated
    have isName : identifier? p.kind ≠ none := by
      rw [given] at hp
      rw [List.mem_singleton.1 hp]
      exact Option.some_ne_none _
    obtain ⟨arrow, isCallback, q, hq, sameSpan⟩ := same place p hp isName
    rw [callbackParameters, planned, ← sameSpan]
    simp only [Option.map_some, isCallback]
    exact List.mem_map_of_mem
      (List.mem_flatMap.2 ⟨arrow, List.mem_singleton_self _, hq⟩)

/-- **A helper call is carried over to the expression that it becomes.** -/
theorem faithful_call {arguments : Node} {arguments' : List Node}
    {chain : AccessChain} {t : String}
    (planned : plannedArguments? setting.plan n = some arguments)
    (plain : isPlain n = true) (shaped : wellShaped n = true)
    (moved : Each (Moved e m)
      (argumentTreatments arguments.children) arguments.children arguments')
    (parameters : Each (SameParameters setting.plan)
      (argumentTreatments arguments.children) arguments.children arguments')
    (taken : decompose setting.options.policy n.span
      (arguments'.map unwrapItem) = .ok chain) (scene : Scene e setting m [n])
    (notLeft : ¬ e.isLeft (calleeSpan n))
    (new : chain.needsTemporary = true → e.isNew t) :
    Faithful e m n (chain.expression t) := by
  have gone : ∀ callback, (arguments'.map unwrapItem)[1]? = some callback →
      ∀ p ∈ parametersOf callback, e.isGone p.span := by
    refine fun callback there p hp => scene.parameters n ?_ _
      (parameter_of_callback planned parameters taken callback there p hp)
    rw [subnodesAmong, subnodesAmong, List.append_nil]
    exact mem_subnodes.2 .here
  obtain ⟨s, callee, rest, rfl, isPlanned⟩ := planned_cases planned
  obtain ⟨l, items, rfl⟩ := sequence_of_shaped shaped
  obtain ⟨here, -⟩ := isPlain_node.1 plain
  rw [plainAt, Bool.and_eq_true, Bool.and_eq_true] at here
  obtain ⟨sorts, missing⟩ := Bool.and_eq_true_iff.1 here.1.1
  have expressions : ∀ n ∈ items, isExpression n.kind = true := by
    have operands := (Bool.and_eq_true_iff.1 sorts).1
    exact List.all_eq_true.1 (List.all_eq_true.1 operands _
      (List.mem_cons_of_mem _ List.mem_cons_self))
  have noBody : ∀ j ∈ argumentTreatments items, j ≠ .arrowBody :=
    noArrowBody_arguments
  have plain' : List.Forall₂ PlainFor items arguments' :=
    plainFor_of_each (moved.imp fun _ _ _ h => h.plain) noBody
  have below' := plain_of_each (moved.imp fun _ _ _ h => h.plain)
  have tidied := tidied_map tidies_unwrapItem below'
  have regular' : AllRegular (arguments'.map unwrapItem) := by
    refine (Trims.map trimming_unwrapItem _).regular fun n hn => ?_
    obtain ⟨q, -, kept⟩ := exists_of_forall₂
      (moved.forall₂ fun _ _ _ _ h => And.intro h.kept.regular h.kept.inner) hn
    exact kept
  have expressions' : ∀ n ∈ arguments'.map unwrapItem,
      isExpression n.kind = true := by
    intro n hn
    obtain ⟨q, hq, rfl⟩ := List.mem_map.1 hn
    obtain ⟨p, hp, plainFor⟩ := exists_of_forall₂ plain' hq
    exact (tidies_unwrapItem q plainFor.plain).kind.expression
      (plainFor.kind.expression (expressions p hp))
  have operands' : ∀ n ∈ arguments'.map unwrapItem, InnerOperand n := by
    intro n hn
    obtain ⟨q, hq, rfl⟩ := List.mem_map.1 hn
    exact ⟨(tidies_unwrapItem q (below' q hq)).plain, isOperand_of_isExpression
      (expressions' _ hn), (regular' _ hn).1, (regular' _ hn).2⟩
  have notBlock : (chain.expression t).kind ≠ .block := by
    unfold AccessChain.expression
    split <;> exact Kind.noConfusion
  refine faithful_of_said Kind.noConfusion notBlock Kind.noConfusion
    ⟨Kind.noConfusion, Kind.noConfusion⟩ fun c hc => ?_
  have composed := composed_carries e
  have call := (synonymous_call (m := m) (c := c) plain).carries (e := e)
  have types : saidAmong m c rest = [] := saidAmong_missing missing
  have split : saidAmong m c (callee :: .node .list l items :: rest) =
      said m c callee ++ saidAmong m c items := by
    rw [saidAmong, List.flatMap_cons, List.flatMap_cons, said_sequence]
    exact congrArg _ ((congrArg _ types).trans (List.append_nil _))
  rw [split] at call
  -- The callee goes away.
  have dropped : Carries e (said m c callee) [] := by
    unfold Transform.isPlanned at isPlanned
    split at isPlanned
    case h_2 => cases isPlanned
    rename_i x sp ns stripped
    rw [calleeSpan, stripped] at notLeft
    rw [← said_stripParens, stripped]
    have told : said m c (.node (.ident x) sp ns) = [.reference x sp .read] :=
      rfl
    rw [told]
    refine carries_nothing (fun r d hd => by cases hd) fun frames u hu => ?_
    rw [List.mem_singleton.1 hu]
    exact notLeft
  have inPlace := related_among composed
    ((inPlace_tidied moved noBody tidied).imp fun _ _ h => h.pair) c hc
  exact call.trans (composed.append dropped
    (inPlace.trans
      (carries_call taken operands' expressions' hc gone new)))

/-- The arguments of a planned call stand in it, as far as an edit is
concerned. -/
theorem Scene.arguments {plan : Plan} {arguments : Node}
    (planned : plannedArguments? plan n = some arguments)
    (scene : Scene e setting m [n]) :
    Scene e setting m arguments.children := by
  have inside := occurs_of_planned planned
  obtain ⟨k, s, ns⟩ := n
  obtain ⟨k', s', ms⟩ := arguments
  exact (scene.children.of_mem inside).children

/-- What is left of the arguments of a rewritten call is left of the call. -/
theorem left_arguments {arguments : Node} {arguments' : List Node}
    {policy : ChainPolicy} {span : Option Span} {chain : AccessChain}
    {t : String} (planned : plannedArguments? setting.plan n = some arguments)
    (taken : decompose policy span (arguments'.map unwrapItem) = .ok chain)
    (scene : Scene e setting m [n]) (left : Left e [n] [chain.expression t]) :
    Left e arguments.children arguments' := by
  intro s there isLeft
  have given : s ≠ none :=
    fun none => (scene.arguments planned).given (none ▸ there)
  have inside := (callee_of_planned planned).2 s
  have before := times_pos.2 there
  have after := times_pos.2 (left s (times_pos.1 (by omega)) isLeft)
  have moves := Nat.le_trans (times_expression given t) (Nat.le_trans
    (times_decompose taken) (Trims.map trimming_unwrapItem arguments').times_le)
  exact times_pos.1 (Nat.lt_of_lt_of_le after moves)

/-- A node whose children are rewritten is carried over if they are. -/
theorem carried_node (children : Rewrites setting (treatments k ns) ns ns' h a)
    (isRegular : regular (.node k s ns) = true)
    (plain : isPlain (.node k s ns) = true)
    (scene : Scene e setting m [.node k s ns])
    (left : Left e ns (finish setting.removals k ns'))
    (firm : e.keepsWrites → AllGuarded a)
    (parts : Left e ns ns' → Each (Carried e m) (treatments k ns) ns ns') :
    Carried e m j (.node k s ns)
      (.node k s (finish setting.removals k ns')) := by
  have fits := fit_treatments isRegular
  have plains := plain_treatments plain
  have before := left.of_times
    (fun s _ => (trims_finish setting.removals k ns').times_le) scene.children
  have stays : StaysPlain .place (.node k s ns)
      (.node k s (finish setting.removals k ns')) :=
    stays_node plain (rewrites_kept children fits)
      (rewrites_plain children fits plains)
  exact (faithful_node isRegular plain (moved_of_carried children fits plains
    firm (parts before)) stays.plain scene left).carried

/-- A planned call is carried over if its arguments are. -/
theorem carried_call {arguments : Node} {arguments' : List Node}
    {chain : AccessChain} {t : String} {r : RewrittenCall}
    (planned : plannedArguments? setting.plan n = some arguments)
    (children : Rewrites setting
      (argumentTreatments arguments.children) arguments.children arguments' h a)
    (taken : decompose setting.options.policy n.span
      (arguments'.map unwrapItem) = .ok chain)
    (whole : Rewrites setting [.place] [n] [chain.expression t] g (a ++ [r]))
    (same : r.callee = calleeSpan n) (isRegular : regular n = true)
    (plain : isPlain n = true) (shaped : AllShaped [n])
    (scene : Scene e setting m [n]) (left : Left e [n] [chain.expression t])
    (new : chain.needsTemporary = true → e.isNew t)
    (firm : e.keepsWrites → AllGuarded a)
    (parts : AllShaped arguments.children →
      Left e arguments.children arguments' → Each (Carried e m)
      (argumentTreatments arguments.children) arguments.children arguments') :
    Carried e m .place n (chain.expression t) := by
  have fits := fit_arguments (regular_plannedArguments planned isRegular)
  have plains :
      AllPlain (argumentTreatments arguments.children) arguments.children :=
    .plain (plain_plannedArguments planned plain) noArrowBody_arguments
  have inside : AllShaped arguments.children :=
    fun c hc => shaped.under (occurs_of_planned planned) hc
  have carried := parts inside (left_arguments planned taken scene left)
  have notLeft := callee_not_left scene left whole r
    (List.mem_append_right _ (List.mem_singleton_self r))
  rw [same] at notLeft
  exact (faithful_call planned plain shaped.self
    (moved_of_carried children fits plains firm carried)
    (rewrites_parameters children fits inside) taken scene notLeft new).carried

/-- A sequence is carried over with its items. -/
theorem faithful_items
    (items : ∀ c, Inside c → Carries e (saidAmong m c ns) (saidAmong m c ns')) :
    Faithful e m (.node .list s ns) (.node .list s ns') where
  said c hc := by
    rw [said_sequence, said_sequence]
    exact items c hc
  body c hc := by
    rw [bodyOutline_of_other Kind.noConfusion,
      bodyOutline_of_other Kind.noConfusion, said_sequence, said_sequence]
    exact items c hc
  among _ := items
  own isOwn := by rcases isOwn with same | same <;> cases same

/-- Parentheses and a spread are carried over with what is in them. -/
theorem faithful_wrapped (wraps : k = .paren ∨ k = .spread)
    (inner : Faithful e m n n') :
    Faithful e m (.node k s [n]) (.node k s [n']) := by
  have told (n : Node) (c : Context) :
      said m c (.node k s [n]) = said m c n := by
    rcases wraps with rfl | rfl <;> exact List.append_nil _
  refine faithful_of_said ?_ ?_ ?_ ?_ fun c hc => ?_
  case refine_5 =>
    rw [told, told]
    exact inner.said c hc
  all_goals rcases wraps with rfl | rfl <;> simp

/-- What is left of an arrow function whose body changes is left of the body
where it is. -/
theorem Left.arrowBody {b : Bool} {parameters body body' : Node}
    {types : List Node}
    (left : Left e [.node (.arrow b) s (parameters :: body :: types)]
      [.node (.arrow b) s (parameters :: body' :: types)])
    (scene : Scene e setting m
      [.node (.arrow b) s (parameters :: body :: types)])
    (within : Within [body] [body']) : Left e [body] [body'] := by
  have children : Left e ([parameters] ++ ([body] ++ types))
      ([parameters] ++ ([body'] ++ types)) := left.children scene
  have behind : Left e ([body] ++ types) ([body'] ++ types) := by
    refine (children.split scene.children (fun _ _ => id)
      fun s given there => ?_).2
    rw [spansAmong_append, List.mem_append] at there ⊢
    exact there.imp_left (within s given)
  exact (behind.split scene.children.tail within fun _ _ => id).1

/-- **What is rewritten is carried over**, however it is treated. -/
theorem rewrites_carry (rewritten : Rewrites setting js ns ns' h a)
    (fit : AllFit js ns) (plain : AllPlain js ns) (shaped : AllShaped ns)
    (scene : Scene e setting m ns) (left : Left e ns ns')
    (new : ∀ t ∈ temporaries a, e.isNew t)
    (firm : e.keepsWrites → AllGuarded a) :
    Each (Carried e m) js ns ns' := by
  induction rewritten with
  | nil => exact .nil
  | @cons j js n n' ns ns' h g a b head tail ih ih' =>
    rw [← List.singleton_append, ← List.singleton_append (l := ns')] at left
    obtain ⟨here, others⟩ :=
      left.split scene (within_of_rewrites head) (within_of_rewrites tail)
    rw [temporaries_append] at new
    obtain ⟨newHere, newThere⟩ := List.forall_mem_append.1 new
    exact .cons (ih (.single fit.head)
      (.one plain.head) shaped.head scene.head here newHere
      fun keeps => (firm keeps).of_append.1).single
      (ih' fit.tail plain.tail shaped.tail scene.tail others newThere
        fun keeps => (firm keeps).of_append.2)
  | keep n => exact .cons (Faithful.refl n).carried .nil
  | @node k s ns ns' h a notProgram unplanned children ih =>
    exact .cons (carried_node children fit.head.regular plain.head.plain scene
      (left.children scene) firm fun before =>
      ih (fit_treatments fit.head.regular) (plain_treatments plain.head.plain)
        shaped.children scene.children before new firm) .nil
  | program children all ih => cases fit.head.inner
  | @items k s ns ns' h a children ih =>
    have list : k = .list := eq_of_beq (fit.head.items rfl)
    subst list
    obtain ⟨-, below, outer⟩ := regular_node.1 fit.head.regular
    have fits := fit_place fun n hn => ⟨below n hn, outer n hn⟩
    have plains : AllPlain (ns.map fun _ => .place) ns :=
      .plain (isPlain_node.1 plain.head.plain).2 noArrowBody_place
    have kept := left.children scene
    have parts := ih fits plains shaped.children scene.children (kept.of_times
      (fun s _ => (Trims.filter (staysIn setting.removals) ns').times_le)
      scene.children) new firm
    exact .cons (faithful_items fun c hc =>
      carries_items (moved_of_carried children fits plains firm parts)
        scene.children kept hc).carried .nil
  | @block s ns ns' names h a children all ih =>
    obtain ⟨-, below, outer⟩ := regular_node.1 fit.head.regular
    have fits := fit_place fun n hn => ⟨below n hn, outer n hn⟩
    have plains : AllPlain (ns.map fun _ => .place) ns :=
      .plain (isPlain_node.1 plain.head.plain).2 noArrowBody_place
    have kept : Left e ns (ns'.filter (staysIn setting.removals)) :=
      (left.children scene).of_times
        (fun s given => Nat.le_of_eq (times_declareIn given _ _)) scene.children
    have parts := ih fits plains shaped.children scene.children (kept.of_times
      (fun s _ => (Trims.filter (staysIn setting.removals) ns').times_le)
      scene.children) new firm
    have newNames : ∀ x ∈ names, e.isNew x :=
      fun x hx => new x ((rewrites_sublist children).subset (all.subset hx))
    exact .cons (faithful_block
      (moved_of_carried children fits plains firm parts) newNames
      scene.children kept).carried .nil
  | noBlock notBlock inPlace ih =>
    have carried := (ih (.single
      (fit_plain fit.head.regular fit.head.inner (by decide) (by decide)))
      (.single plain.head.plain (by decide)) shaped scene left new firm).single
    exact .cons (carried.faithful (by decide)).carried .nil
  | @function k s ns ns' h a parts ih =>
    have fits := fit.head.function rfl
    cases k with
    | function b g =>
      have children :
          Rewrites setting (treatments (.function b g) ns) ns ns' h a := parts
      exact .cons (carried_node children fit.head.regular plain.head.plain scene
        (left.children scene) firm fun before =>
        ih (fit_treatments fit.head.regular) (plain_treatments plain.head.plain)
          shaped.children scene.children before new firm) .nil
    | _ => cases fits
  | @arrowBody n n' names h a inPlace all ih =>
    have fits := AllFit.single (fit_plain
      (j := .place) fit.head.regular fit.head.inner (by decide) (by decide))
    have plains := AllPlain.single (j := .place) plain.head.plain (by decide)
    have carried := (ih fits plains shaped scene (left.of_times
      (fun s given => times_arrowBody given names n') scene) new firm).single
    have stays := (rewrites_plain inPlace fits plains).single
    have newNames : ∀ x ∈ names, e.isNew x :=
      fun x hx => new x ((rewrites_sublist inPlace).subset (all.subset hx))
    exact .cons ⟨fun other => absurd rfl other, fun c hc =>
      (carried.body c hc).trans (carries_arrowBody stays.plain newNames)⟩ .nil
  | @base n arguments arguments' chain h a planned children taken bare ih =>
    rw [temporaries_append] at new
    exact .cons (carried_call planned children taken
      (.base planned children taken bare) rfl fit.head.regular
      plain.head.plain shaped scene left
      (fun needed => by cases bare.symm.trans needed)
      (fun keeps => (firm keeps).of_append.1) fun inside before =>
      ih (fit_arguments (regular_plannedArguments planned fit.head.regular))
      (.plain (plain_plannedArguments planned plain.head.plain)
      noArrowBody_arguments) inside (scene.arguments planned) before
      (List.forall_mem_append.1 new).1
      fun keeps => (firm keeps).of_append.1) .nil
  | @guarded n arguments arguments' chain t h a planned children taken
      needed ih =>
    rw [temporaries_append] at new
    exact .cons (carried_call planned children taken
      (.guarded planned children taken needed) rfl fit.head.regular
      plain.head.plain shaped scene left
      (fun _ => (List.forall_mem_append.1 new).2 t List.mem_cons_self)
      (fun keeps => (firm keeps).of_append.1) fun inside before =>
      ih (fit_arguments (regular_plannedArguments planned fit.head.regular))
      (.plain (plain_plannedArguments planned plain.head.plain)
      noArrowBody_arguments) inside (scene.arguments planned) before
      (List.forall_mem_append.1 new).1
      fun keeps => (firm keeps).of_append.1) .nil
  | @callbackArrow b s parameters body body' types h a inner ih =>
    obtain ⟨-, below, outer⟩ := regular_node.1 fit.head.regular
    have second : body ∈ parameters :: body :: types :=
      List.mem_cons_of_mem _ List.mem_cons_self
    have here := left.arrowBody scene (within_of_rewrites inner)
    have carried := (ih (.single
      (fit_plain (below _ second) (outer _ second) (by decide) (by decide)))
      (.single ((isPlain_node.1 plain.head.plain).2 _ second) (by decide))
      shaped.children.tail.head scene.children.tail.head here new firm).single
    have whole : Faithful e m (.node (.arrow b) s (parameters :: body :: types))
        (.node (.arrow b) s (parameters :: body' :: types)) :=
      faithful_arrow (fun _ _ => .refl _) carried.body
    exact .cons whole.carried .nil
  | @callbackInside k s n n' h a wraps arrow inner ih =>
    obtain ⟨-, below, outer⟩ := regular_node.1 fit.head.regular
    have carried := (ih (.single (fit_plain (below _ List.mem_cons_self)
      (outer _ List.mem_cons_self) (by decide) (by decide))) (.single
      ((isPlain_node.1 plain.head.plain).2 _ List.mem_cons_self) (by decide))
      shaped.children scene.children (left.children scene) new firm).single
    exact .cons
      (faithful_wrapped wraps (carried.faithful (by decide))).carried .nil
  | noCallback notArrow notInside inPlace ih =>
    have carried := (ih (.single
      (fit_plain fit.head.regular fit.head.inner (by decide) (by decide)))
      (.single plain.head.plain (by decide)) shaped scene left new firm).single
    exact .cons (carried.faithful (by decide)).carried .nil

end Carry

end NullGuard.Transform
