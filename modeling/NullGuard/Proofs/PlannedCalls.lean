import NullGuard.Proofs.FastPath
import NullGuard.Proofs.References

/-!
# Every planned call is rewritten

The plan takes the calls of a helper from the analysis, and the rewrite finds
them on its own way through the tree. The two ways agree: `rewrites_reach` says
that everything that the analysis records as called and that is to be rewritten
was rewritten, wherever it stands. The other direction is counting: the callee
of a rewritten call was to be rewritten (`rewrites_targets`), and no span is
copied (`rewrites_spans`).

`planned_calls_rewritten` puts this together. The calls and the other uses of
each helper are the references to it, none of them an assignment; as many calls
are rewritten as are planned; no identifier of a planned call is left, and no
reference to a helper whose declaration goes away.
-/

namespace NullGuard.Transform

open NullGuard.Text (Span)
open NullGuard.Tree NullGuard.Chain NullGuard.Scope

/-- Whether a call has a sequence of arguments, and the `this` of a setter is a
name or missing. -/
def wellShaped : Node → Bool
  | .node .call _ (_ :: .node .list _ _ :: _) => true
  | .node .call _ _ => false
  | .node .setterProp _ (_ :: .node (.bindingIdent _ _) _ _ :: _) => true
  | .node .setterProp _ (_ :: .node .absent _ [] :: _) => true
  | .node .setterProp _ _ => false
  | _ => true

/-- What is true of every program that was read from a text: its nodes have the
parts they must have, and its identifiers have spans of their own. -/
structure WellRead (n : Node) : Prop where
  isProgram : Scope.isProgram n.kind = true
  regular : regular n = true
  shaped : ∀ m ∈ subnodes n, wellShaped m = true
  given : none ∉ spans n
  distinct : (spans n).Nodup

/-- Whatever an outline records as called is among some spans, if it is to be
rewritten. -/
def CallsAmong (plan : Plan) (D : List (Option Span)) (os : List Outline) :
    Prop :=
  ∀ frames, ∀ u ∈ resolvedAll frames os, u.kind = .callee →
    plan.isTarget u.span = true → u.span ∈ D

theorem stable_callsAmong (plan : Plan) (D : List (Option Span)) :
    Stable (fun _ => True) (CallsAmong plan D) where
  usual _ _ := trivial
  nil := nofun
  append h h' frames u hu := by
    rw [resolvedAll_append] at hu
    exact (List.mem_append.1 hu).elim (h frames u) (h' frames u)
  scope k h frames u hu := by
    rw [resolvedAll, resolvedAll, List.append_nil] at hu
    exact h _ u hu
  declaration _ _ _ _ := nofun
  use x s k other frames u hu isCallee := by
    cases List.mem_singleton.1 hu
    exact absurd isCallee other

/-- Whatever a node says is called is among some spans, also where the node is
looked into from outside. -/
structure Reached (m : String) (plan : Plan) (D : List (Option Span))
    (n : Node) : Prop where
  said : ∀ c, CallsAmong plan D (said m c n)
  inside : isOpen n.kind = true → ∀ n' ∈ n.children,
    ∀ c, CallsAmong plan D (Scope.said m c n')

section Reached

variable {m : String} {plan : Plan} {D : List (Option Span)} {k : Kind}
  {s : Option Span} {ns : List Node}

theorem reached_none : Reached m plan D .none :=
  ⟨fun _ => nofun, nofun⟩

theorem reached_bindingIdent (x : String) (o : Bool) (s : Option Span)
    (ns : List Node) :
    Reached m plan D (.node (.bindingIdent x o) s ns) := by
  refine ⟨fun c => ?_, fun isOpen => by cases isOpen⟩
  rw [said_node]
  simp only [outlineOf]
  split
  · exact (stable_callsAmong plan D).declaration _ _ trivial
  · exact (stable_callsAmong plan D).use _ _ (by decide)
  · exact (stable_callsAmong plan D).nil

/-- The children of a node that the analysis looks at. -/
def looked (k : Kind) (ns : List Node) : List Node :=
  match k with
  | .function _ _ => ns.take 3
  | .arrow _ => ns.take 2
  | .getterProp => ns.set 1 .none
  | _ => ns

theorem child_take {i j : Nat} (bound : i < j) (ns : List Node) :
    child (ns.take j) i = child ns i := by
  rw [child, child, List.getD_eq_getElem?_getD, List.getD_eq_getElem?_getD,
    List.getElem?_take_of_lt bound]

theorem child_set {i j : Nat} (other : i ≠ j) (n : Node) (ns : List Node) :
    child (ns.set i n) j = child ns j := by
  rw [child, child, List.getD_eq_getElem?_getD, List.getD_eq_getElem?_getD,
    List.getElem?_set_ne other]

/-- The types of a function and of a getter say nothing. -/
theorem said_looked (m : String) (c : Context) (k : Kind) (s : Option Span)
    (ns : List Node) :
    said m c (.node k s (looked k ns)) = said m c (.node k s ns) := by
  rw [said_node, said_node]
  cases k
  case function =>
    simp only [outlineOf, part_toParts, looked]
    rw [child_take (by omega), child_take (by omega), child_take (by omega)]
  case arrow =>
    simp only [outlineOf, part_toParts, looked]
    rw [child_take (by omega), child_take (by omega)]
  case getterProp =>
    simp only [outlineOf, part_toParts, looked]
    rw [child_set (by omega), child_set (by omega)]
  all_goals rfl

/-- A child that is looked at has its place, or it is the `this` of a setter. -/
theorem mem_looked {n : Node} (hn : n ∈ looked k ns) :
    n = .none ∨ ∃ i, ns[i]? = some n ∧
      (isAside k i = false ∨ k = .setterProp ∧ i = 1) := by
  have plain (hn : n ∈ ns) (none : ∀ i, isAside k i = false ∨
      k = .setterProp ∧ i = 1) : n = .none ∨ ∃ i, ns[i]? = some n ∧
      (isAside k i = false ∨ k = .setterProp ∧ i = 1) := by
    obtain ⟨i, there⟩ := List.mem_iff_getElem?.1 hn
    exact .inr ⟨i, there, none i⟩
  have front {j : Nat} (hn : n ∈ ns.take j)
      (none : ∀ i < j, isAside k i = false) : n = .none ∨ ∃ i, ns[i]? = some n ∧
      (isAside k i = false ∨ k = .setterProp ∧ i = 1) := by
    obtain ⟨i, there⟩ := List.mem_iff_getElem?.1 hn
    rw [List.getElem?_take] at there
    split at there
    · exact .inr ⟨i, there, .inl (none i ‹_›)⟩
    · cases there
  cases k
  case function => exact front hn fun i bound => by simpa [isAside] using bound
  case arrow => exact front hn fun i bound => by simpa [isAside] using bound
  case getterProp =>
    obtain ⟨i, there⟩ := List.mem_iff_getElem?.1 hn
    rw [looked, List.getElem?_set] at there
    split at there
    · split at there
      · cases there
        exact .inl rfl
      · cases there
    · rename_i first
      exact .inr ⟨i, there, .inl (by simpa [isAside] using Ne.symm first)⟩
  case setterProp =>
    refine plain hn fun i => ?_
    by_cases first : i = 1
    · exact .inr ⟨rfl, first⟩
    · exact .inl (by simpa [isAside] using first)
  all_goals exact plain hn fun i => .inl rfl

/-- The `this` of a setter is no call. -/
theorem reached_this {n : Node}
    (shaped : wellShaped (.node .setterProp s ns) = true)
    (there : ns[1]? = some n) : Reached m plan D n := by
  rcases ns with _ | ⟨key, _ | ⟨this, rest⟩⟩
  · cases there
  · cases there
  · cases there
    unfold wellShaped at shaped
    split at shaped
    · rename_i same
      cases same
    · cases shaped
    · rename_i same
      cases same
      exact reached_bindingIdent ..
    · rename_i same
      cases same
      exact ⟨fun _ => nofun, nofun⟩
    · cases shaped
    · rename_i other
      exact (other _ _ rfl).elim

/-- **A node is reached if its children are**, and what it calls itself. -/
theorem reached_node (isRegular : regularParts k ns = true)
    (shaped : wellShaped (.node k s ns) = true)
    (children : ∀ i n, ns[i]? = some n → isAside k i = false →
      Reached m plan D n)
    (called : k = .call → ∀ x, bareIdentifier? (child ns 0) = some x →
      plan.isTarget x.span = true → x.span ∈ D) :
    Reached m plan D (.node k s ns) := by
  have each n (hn : n ∈ looked k ns) : Reached m plan D n := by
    rcases mem_looked hn with rfl | ⟨i, there, notAside | ⟨rfl, rfl⟩⟩
    · exact reached_none
    · exact children i n there notAside
    · exact reached_this shaped there
  refine ⟨fun c => ?_, fun isOpen n hn c => ?_⟩
  · rw [← said_looked]
    have stable := stable_callsAmong plan D
    refine said_stable stable ⟨?_, fun n hn c _ => (each n hn).said c,
      fun n hn isOpen n' hn' c _ => (each n hn).inside isOpen n' hn' c,
      ?_, fun _ _ => stable.named trivial _, fun _ _ _ _ _ _ _ => nofun,
      fun _ _ _ _ _ => nofun, fun _ _ _ => nofun,
      fun _ _ _ _ _ _ _ _ _ => nofun⟩ c (allowing_all c)
    · cases k
      case function =>
        rw [regularParts, looked, List.take_take]
        exact isRegular
      case arrow =>
        rw [regularParts, looked, List.take_take]
        exact isRegular
      all_goals exact isRegular
    · rintro rfl x isBare frames u hu - isTarget
      unfold refer at hu
      split at hu
      · cases List.mem_singleton.1 hu
        exact called rfl x isBare isTarget
      · cases hu
  · obtain ⟨i, there⟩ := List.mem_iff_getElem?.1 hn
    refine (children i n there ?_).said c
    cases k <;> first | rfl | cases isOpen

end Reached

/-- A callback that a call can be taken apart with: it declares one name and
nothing else. -/
def IsCallback (n : Node) : Prop :=
  ∃ b s l name o i ascription body rest, n.stripParens = .node (.arrow b) s
    (.node .list l [.node (.bindingIdent name o) i ascription] :: body :: rest)

theorem stripParens_unwrap (n : Node) :
    (unwrap n).stripParens = n.stripParens := by
  unfold unwrap
  split
  · rw [Node.stripParens]
  · rfl

/-- An argument without the parentheses made for it is the same expression,
unless it is spread. -/
theorem stripParens_unwrapItem {n : Node}
    (notSpread : argument (unwrapItem n) = (unwrapItem n, false)) :
    (unwrapItem n).stripParens = n.stripParens := by
  unfold unwrapItem at notSpread ⊢
  split
  · simp [argument] at notSpread
  · exact stripParens_unwrap n

/-- The second argument of a call that can be taken apart is such a callback. -/
theorem isCallback_of_decompose {policy : ChainPolicy} {span : Option Span}
    {arguments : List Node} {c : AccessChain}
    (h : decompose policy span (arguments.map unwrapItem) = .ok c) :
    ∃ n, arguments[1]? = some n ∧ IsCallback n := by
  obtain ⟨call, helper, -⟩ := decompose_ok h
  generalize given : arguments.map unwrapItem = items at helper
  cases helper with
  | @intro base callback body name b o s l i ascription rest _ notSpread
      isArrow _ =>
    rcases arguments with _ | ⟨first, _ | ⟨second, _ | ⟨more, others⟩⟩⟩
    case cons.cons.nil =>
      refine ⟨second, rfl, b, s, l, name, o, i, ascription, body, rest, ?_⟩
      obtain rfl : unwrapItem second = callback := by
        cases given
        rfl
      rw [← isArrow, stripParens_unwrapItem notSpread]
    all_goals cases given

section Reach

variable {setting : Setting} {m : String} {js : List Treatment}
  {ns ns' : List Node} {h : List String} {a : List RewrittenCall}
  {D : List (Option Span)}

/-- Of several nodes those are reached that are rewritten, in whatever way. -/
def AllReached (m : String) (plan : Plan) (D : List (Option Span))
    (js : List Treatment) (ns ns' : List Node) : Prop :=
  ∀ (i : Nat) (j : Treatment) (n : Node), js[i]? = some j → ns[i]? = some n →
    j ≠ .keep → (j = .callback → ∃ n', ns'[i]? = some n' ∧ IsCallback n') →
    Reached m plan D n

/-- Several nodes all of whose nodes are well shaped. -/
def AllShaped (ns : List Node) : Prop :=
  ∀ n ∈ ns, ∀ m ∈ subnodes n, wellShaped m = true

theorem AllShaped.self {n : Node} (h : AllShaped [n]) : wellShaped n = true :=
  h n List.mem_cons_self n (mem_subnodes.2 .here)

theorem AllShaped.children {k : Kind} {s : Option Span}
    (h : AllShaped [.node k s ns]) : AllShaped ns :=
  fun _ hn m hm => h _ List.mem_cons_self m
    (mem_subnodes.2 (.inside hn (mem_subnodes.1 hm)))

theorem AllShaped.under {n c g : Node} (h : AllShaped [n]) (hc : c ∈ n.children)
    (hg : g ∈ c.children) :
    ∀ m ∈ subnodes g, wellShaped m = true := by
  obtain ⟨k, s, ns⟩ := n
  obtain ⟨k', s', ns'⟩ := c
  have one : AllShaped [.node k' s' ns'] :=
    List.forall_mem_singleton.2 (h.children _ hc)
  exact one.children g hg

theorem AllShaped.head {n : Node} (h : AllShaped (n :: ns)) : AllShaped [n] :=
  List.forall_mem_singleton.2 (h n List.mem_cons_self)

theorem AllShaped.tail {n : Node} (h : AllShaped (n :: ns)) : AllShaped ns :=
  fun m hm => h m (List.mem_cons_of_mem _ hm)

theorem AllReached.single {plan : Plan} {j : Treatment} {n n' : Node}
    (h : j ≠ .keep → (j = .callback → IsCallback n') → Reached m plan D n) :
    AllReached m plan D [j] [n] [n'] := by
  intro i j' c treated there notKeep callback
  rcases i with _ | i
  · cases treated
    cases there
    refine h notKeep fun same => ?_
    obtain ⟨_, here, isCallback⟩ := callback same
    cases here
    exact isCallback
  · cases treated

theorem AllReached.one {plan : Plan} {j : Treatment} {n n' : Node}
    (h : AllReached m plan D [j] [n] [n']) (notKeep : j ≠ .keep)
    (callback : j = .callback → IsCallback n') : Reached m plan D n :=
  h 0 j n rfl rfl notKeep fun same => ⟨n', rfl, callback same⟩

theorem length_treatments (k : Kind) (ns : List Node) :
    (treatments k ns).length = ns.length := by
  unfold treatments
  split
  case h_2 =>
    unfold functionTreatments
    split <;> simp
  all_goals simp

/-- A child that is not aside is rewritten. -/
theorem treatment_of_child {k : Kind} {i : Nat} {n : Node}
    (there : ns[i]? = some n) (notAside : isAside k i = false) :
    ∃ j, (treatments k ns)[i]? = some j ∧ j ≠ .keep ∧ j ≠ .callback := by
  have bound := (List.getElem?_eq_some_iff.1 there).1
  rw [← length_treatments k] at bound
  obtain ⟨j, treated⟩ : ∃ j, (treatments k ns)[i]? = some j :=
    ⟨_, List.getElem?_eq_getElem bound⟩
  refine ⟨j, treated, ?_⟩
  cases treated_of_treatments treated with
  | keep aside => cases notAside.symm.trans aside
  | place | function | items => exact ⟨nofun, nofun⟩
  | body isBody here =>
    constructor <;> (intro same; rw [same] at isBody; cases isBody)

/-- The children of a node are reached where they are rewritten by their
places. -/
theorem AllReached.children {plan : Plan} {k : Kind}
    (h : AllReached m plan D (treatments k ns) ns ns') :
    ∀ i n, ns[i]? = some n → isAside k i = false → Reached m plan D n := by
  intro i n there notAside
  obtain ⟨j, treated, notKeep, notCallback⟩ := treatment_of_child there notAside
  exact h i j n treated there notKeep fun same => absurd same notCallback

theorem AllReached.placed {plan : Plan}
    (h : AllReached m plan D (ns.map fun _ => .place) ns ns') {n : Node}
    (hn : n ∈ ns) : Reached m plan D n := by
  obtain ⟨i, there⟩ := List.mem_iff_getElem?.1 hn
  exact h i .place n (by rw [List.getElem?_map, there]; rfl) there nofun nofun

/-- Only the second argument of a call is a callback. -/
theorem eq_one_of_callback {i : Nat}
    (treated : (argumentTreatments ns)[i]? = some .callback) : i = 1 := by
  unfold argumentTreatments at treated
  split at treated
  · rcases i with _ | _ | i
    · cases treated
    · rfl
    · cases eq_of_map treated
  · cases eq_of_map treated

/-- A call of a bare identifier that is to be rewritten is planned. -/
theorem isPlanned_of_bare {plan : Plan} {n x : Node}
    (isBare : bareIdentifier? n = some x)
    (isTarget : plan.isTarget x.span = true) : isPlanned plan n = true := by
  unfold bareIdentifier? at isBare
  split at isBare
  · rename_i y isIdent
    cases isBare
    cases stripped : n.stripParens with
    | node k s ns =>
      rw [stripped] at isIdent isTarget
      cases isIdent
      rw [isPlanned, stripped]
      exact isTarget
  · cases isBare

/-- The arguments of a well shaped call are a sequence. -/
theorem sequence_of_shaped {s : Option Span} {callee arguments : Node}
    {rest : List Node}
    (shaped : wellShaped (.node .call s (callee :: arguments :: rest)) = true) :
    ∃ l items, arguments = .node .list l items := by
  obtain ⟨k, l, items⟩ := arguments
  cases k <;> first | exact ⟨l, items, rfl⟩ | cases shaped

/-- The arguments of a planned call are a sequence. -/
theorem list_of_planned {plan : Plan} {n arguments : Node}
    (planned : plannedArguments? plan n = some arguments)
    (shaped : wellShaped n = true) :
    ∃ l items, arguments = .node .list l items := by
  obtain ⟨s, callee, rest, rfl, -⟩ := planned_cases planned
  exact sequence_of_shaped shaped

/-- A helper call that is rewritten is reached: what it calls is noted, and so
is everything in its arguments. -/
theorem reached_call {n arguments : Node} {arguments' : List Node}
    {chain : AccessChain}
    (planned : plannedArguments? setting.plan n = some arguments)
    (shaped : wellShaped n = true) (noted : calleeSpan n ∈ D)
    (children : AllReached m setting.plan D
      (argumentTreatments arguments.children) arguments.children arguments')
    (taken : decompose setting.options.policy n.span
      (arguments'.map unwrapItem) = .ok chain) :
    Reached m setting.plan D n := by
  obtain ⟨s, callee, rest, rfl, isTarget⟩ := planned_cases planned
  unfold isPlanned at isTarget
  split at isTarget
  case h_2 => cases isTarget
  rename_i x t ms stripped
  obtain ⟨l, items, rfl⟩ := sequence_of_shaped shaped
  have stable := stable_callsAmong setting.plan D
  have isBare : bareIdentifier? callee = some (.node (.ident x) t ms) := by
    unfold bareIdentifier?
    rw [stripped]
    rfl
  have each n (hn : n ∈ items) : Reached m setting.plan D n := by
    obtain ⟨i, there⟩ := List.mem_iff_getElem?.1 hn
    obtain ⟨j, treated⟩ : ∃ j, (argumentTreatments items)[i]? = some j := by
      have bound := (List.getElem?_eq_some_iff.1 there).1
      refine ⟨_, List.getElem?_eq_getElem ?_⟩
      unfold argumentTreatments
      split <;> simpa using bound
    have notKeep : j ≠ .keep := by
      rcases treatment_of_argument treated with rfl | rfl <;> nofun
    refine children i j n treated there notKeep fun same => ?_
    obtain ⟨callback, second, isCallback⟩ := isCallback_of_decompose taken
    subst same
    rw [eq_one_of_callback treated]
    exact ⟨callback, second, isCallback⟩
  have list (c : Context) :
      CallsAmong setting.plan D (said m c (.node .list l items)) := by
    have children (i : Nat) (n : Node) (there : items[i]? = some n)
        (_ : isAside .list i = false) : Reached m setting.plan D n :=
      each n (List.mem_of_getElem? there)
    exact (reached_node rfl rfl children nofun).said c
  refine ⟨fun c => ?_, nofun⟩
  rw [said_node]
  simp only [outlineOf, part_toParts, node_toPart, outline_toPart, child,
    List.getD_cons_zero, List.getD_cons_succ, isBare]
  refine stable.append ?_ (list c)
  intro frames u hu _ _
  cases List.mem_singleton.1 hu
  rw [calleeSpan, stripped] at noted
  exact noted

/-- **A rewrite reaches everything that is to be rewritten**: what the analysis
records as called in the nodes that are rewritten is a callee of a rewritten
call, if it is to be rewritten at all. -/
theorem rewrites_reach (rewritten : Rewrites setting js ns ns' h a)
    (fit : AllFit js ns) (shaped : AllShaped ns)
    (noted : ∀ r ∈ a, r.callee ∈ D) :
    AllReached m setting.plan D js ns ns' := by
  induction rewritten with
  | nil => intro i j n treated; cases treated
  | @cons j js n n' ns ns' h g a b head tail ih ih' =>
    intro i j' c treated there notKeep callback
    cases i with
    | zero =>
      cases treated
      cases there
      refine (ih (.single fit.head) shaped.head fun r hr =>
        noted r (List.mem_append_left _ hr)).one notKeep ?_
      intro same
      obtain ⟨_, here, isCallback⟩ := callback same
      cases here
      exact isCallback
    | succ i =>
      exact ih' fit.tail shaped.tail (fun r hr => noted r
        (List.mem_append_right _ hr)) i j' c treated there notKeep callback
  | keep n => exact .single fun notKeep => absurd rfl notKeep
  | @node k s ns ns' h a notProgram unplanned children ih =>
    have reached := ih (fit_treatments fit.head.regular) shaped.children noted
    refine .single fun _ _ => reached_node
      (regular_node.1 fit.head.regular).1 shaped.self reached.children ?_
    rintro rfl x isBare isTarget
    have wellShaped := shaped.self
    rcases ns with _ | ⟨callee, _ | ⟨arguments, rest⟩⟩
    · cases isBare
    · cases wellShaped
    · have planned : isPlanned setting.plan callee = true :=
        isPlanned_of_bare isBare isTarget
      rw [plannedArguments?, planned] at unplanned
      cases unplanned
  | program children all ih => cases fit.head.inner
  | @items k s ns ns' h a children ih =>
    obtain ⟨parts, below, outer⟩ := regular_node.1 fit.head.regular
    have reached :=
      ih (fit_place fun n hn => ⟨below n hn, outer n hn⟩) shaped.children noted
    have list : k = .list := eq_of_beq (fit.head.items rfl)
    subst list
    exact .single fun _ _ => reached_node parts shaped.self (fun i n there _ =>
      reached.placed (List.mem_of_getElem? there)) fun isCall => by
      cases isCall
  | @block s ns ns' names h a children all ih =>
    obtain ⟨parts, below, outer⟩ := regular_node.1 fit.head.regular
    have reached :=
      ih (fit_place fun n hn => ⟨below n hn, outer n hn⟩) shaped.children noted
    exact .single fun _ _ => reached_node parts shaped.self (fun i n there _ =>
      reached.placed (List.mem_of_getElem? there)) fun isCall => by
      cases isCall
  | noBlock notBlock inPlace ih =>
    have plain := AllFit.single (fit_plain fit.head.regular fit.head.inner
      (j := .place) (by decide) (by decide))
    exact .single fun _ _ => (ih plain shaped noted).one (by decide)
      (fun same => by cases same)
  | @function k s ns ns' h a parts ih =>
    have fits := fit.head.function rfl
    cases k with
    | function b g =>
      have reached :
          AllReached m setting.plan D (treatments (.function b g) ns) ns ns' :=
        ih (fit_treatments fit.head.regular) shaped.children noted
      exact .single fun _ _ => reached_node (regular_node.1 fit.head.regular).1
        shaped.self reached.children fun isCall => by
        cases isCall
    | _ => cases fits
  | arrowBody inPlace all ih =>
    have plain := AllFit.single (fit_plain fit.head.regular fit.head.inner
      (j := .place) (by decide) (by decide))
    exact .single fun _ _ => (ih plain shaped noted).one (by decide)
      (fun same => by cases same)
  | @base n arguments arguments' chain h a planned children taken bare ih =>
    have inside : AllShaped arguments.children :=
      fun c hc => shaped.under (occurs_of_planned planned) hc
    have reached :=
      ih (fit_arguments (regular_plannedArguments planned fit.head.regular))
      inside fun r hr => noted r (List.mem_append_left _ hr)
    exact .single fun _ _ => reached_call planned shaped.self
      (noted _ (List.mem_append_right _ List.mem_cons_self)) reached taken
  | @guarded n arguments arguments' chain t h a planned children taken
      needed ih =>
    have inside : AllShaped arguments.children :=
      fun c hc => shaped.under (occurs_of_planned planned) hc
    have reached :=
      ih (fit_arguments (regular_plannedArguments planned fit.head.regular))
      inside fun r hr => noted r (List.mem_append_left _ hr)
    exact .single fun _ _ => reached_call planned shaped.self
      (noted _ (List.mem_append_right _ List.mem_cons_self)) reached taken
  | @callbackArrow b s parameters body body' types h a inner ih =>
    obtain ⟨parts, below, outer⟩ := regular_node.1 fit.head.regular
    have second : body ∈ parameters :: body :: types :=
      List.mem_cons_of_mem _ List.mem_cons_self
    have plain := AllFit.single (fit_plain (below _ second) (outer _ second)
      (j := .place) (by decide) (by decide))
    have inBody := (ih plain shaped.children.tail.head noted).one (by decide)
      (fun same => by cases same)
    refine .single fun _ callback => reached_node parts shaped.self
      (fun i n there notAside => ?_) fun isCall => by
      cases isCall
    rcases i with _ | _ | i
    · cases there
      obtain ⟨_, _, l, name, o, i, ascription, _, _, isArrow⟩ := callback rfl
      cases isArrow
      refine reached_node rfl rfl (fun i n there _ => ?_) fun isCall => by
        cases isCall
      obtain rfl := List.mem_singleton.1 (List.mem_of_getElem? there)
      exact reached_bindingIdent ..
    · cases there
      exact inBody
    · simp [isAside] at notAside
  | @callbackInside k s n n' h a wraps arrow inner ih =>
    obtain ⟨parts, below, outer⟩ := regular_node.1 fit.head.regular
    have plain := AllFit.single (fit_plain (below _ List.mem_cons_self)
      (outer _ List.mem_cons_self) (j := .callback) (by decide) (by decide))
    have reached := ih plain shaped.children noted
    refine .single fun _ callback => ?_
    have inside : IsCallback n' := by
      have given := callback rfl
      rcases wraps with rfl | rfl
      · unfold IsCallback at given ⊢
        rwa [Node.stripParens] at given
      · obtain ⟨_, _, _, _, _, _, _, _, _, isArrow⟩ := given
        cases isArrow
    have own : isOpen k = false := by rcases wraps with rfl | rfl <;> rfl
    refine reached_node parts shaped.self (fun i c there _ => ?_)
      fun isCall => ?_
    · obtain rfl := List.mem_singleton.1 (List.mem_of_getElem? there)
      exact reached.one (by decide) fun _ => inside
    · rcases wraps with rfl | rfl <;> cases isCall
  | noCallback notArrow notInside inPlace ih =>
    have plain := AllFit.single (fit_plain fit.head.regular fit.head.inner
      (j := .place) (by decide) (by decide))
    exact .single fun _ _ => (ih plain shaped noted).one (by decide)
      (fun same => by cases same)

end Reach

section Planned

variable {t : Table}

/-- What a plan says about a helper: its calls are the places where it is
called, its other uses are all other references to it, and nothing is assigned
to it. -/
structure Attributed (t : Table) (d : HelperDeclaration) (h : HelperPlan) :
    Prop where
  origin : h.origin = d.origin
  calls : h.calls = ((t.referencesTo d.binding).filter fun r => r.kind ==
    .callee).map Reference.span
  retained : h.retained = ((t.referencesTo d.binding).filter fun r => r.kind !=
    .callee).map Reference.span
  noWrite : ∀ r ∈ t.referencesTo d.binding, r.kind ≠ .write

theorem earliest?_eq_none {l : List (Option Span)} (none : earliest? l = none) :
    l = [] := by
  cases l with
  | nil => rfl
  | cons s rest =>
    unfold earliest? at none
    split at none
    · split at none <;> cases none
    · cases none

theorem attributed_of_planHelper {d : HelperDeclaration} {h : HelperPlan}
    (planned : planHelper t d = .ok h) : Attributed t d h := by
  unfold planHelper at planned
  dsimp only at planned
  split at planned
  · cases planned
  · split at planned
    · cases planned
    · rename_i none
      have unwritten := earliest?_eq_none none
      cases planned
      refine ⟨rfl, rfl, rfl, fun r hr written => ?_⟩
      have among : r.span ∈ ((t.referencesTo d.binding).filter fun r =>
          r.kind == .write).map Reference.span :=
        List.mem_map_of_mem (List.mem_filter.2 ⟨hr, by rw [written]; rfl⟩)
      rw [unwritten] at among
      cases among

/-- A helper of a plan has one declaration, where the plan says that it has. -/
theorem declared_of_planHelper {d : HelperDeclaration} {h : HelperPlan}
    (planned : planHelper t d = .ok h) :
    (t.bindings.getD d.binding default).redeclarations = [] ∧ h.declaredAt =
      (t.bindings.getD d.binding default).span ∧ h.origin = d.origin := by
  unfold planHelper at planned
  dsimp only at planned
  split at planned
  · cases planned
  · rename_i once
    split at planned
    · cases planned
    · cases planned
      exact ⟨once, rfl, rfl⟩

/-- A plan has a plan for every helper, in order. -/
theorem planned_each {plan : Plan} (planned : Transform.plan t = .ok plan) :
    List.Forall₂ (fun d h => planHelper t d = .ok h) t.helpers
      plan.helpers := by
  have each {ds : List HelperDeclaration} {hs : List HelperPlan}
      (planned : ds.mapM (planHelper t) = .ok hs) :
      List.Forall₂ (fun d h => planHelper t d = .ok h) ds hs := by
    induction ds generalizing hs with
    | nil =>
      cases planned
      exact .nil
    | cons d ds ih =>
      rw [List.mapM_cons] at planned
      obtain ⟨h, first, planned⟩ := bind_ok planned
      obtain ⟨hs', rest, planned⟩ := bind_ok planned
      cases planned
      exact .cons first (ih rest)
  obtain ⟨hs, all, planned⟩ := bind_ok planned
  cases planned
  exact each all

/-- A plan says this about every helper. -/
theorem attributed_of_plan {plan : Plan}
    (planned : Transform.plan t = .ok plan) :
    List.Forall₂ (Attributed t) t.helpers plan.helpers :=
  (planned_each planned).imp fun _ _ => attributed_of_planHelper

/-- Whether a reference calls a helper. -/
def callsHelper (t : Table) (r : Reference) : Bool :=
  r.kind == .callee && t.helpers.any fun d => t.resolve r.scope r.name ==
    some d.binding

/-- No element is left twice where the duplicates are erased. -/
theorem nodup_eraseDups {α : Type} [BEq α] [LawfulBEq α] (l : List α) :
    l.eraseDups.Nodup := by
  match l with
  | [] => exact List.nodup_nil
  | a :: l =>
    rw [List.eraseDups_cons, List.nodup_cons, List.mem_eraseDups,
      List.mem_filter]
    exact ⟨fun ⟨_, other⟩ => by simp at other, nodup_eraseDups _⟩
termination_by l.length
decreasing_by exact Nat.lt_succ_of_le (List.length_filter_le _ _)

theorem mem_targets {plan : Plan} {s : Option Span} :
    s ∈ plan.targets ↔ plan.isTarget s = true := by
  simp [Plan.targets, Plan.isTarget]

/-- What is to be rewritten is what calls a helper. -/
theorem isTarget_iff {plan : Plan}
    (attributed : List.Forall₂ (Attributed t) t.helpers plan.helpers)
    {s : Option Span} :
    plan.isTarget s = true ↔ ∃ r ∈ t.references, callsHelper t r = true ∧
      r.span = s := by
  have calls {d : HelperDeclaration} {h : HelperPlan} (one : Attributed t d h) :
      s ∈ h.calls ↔ ∃ r ∈ t.references, r.kind = .callee ∧
      t.resolve r.scope r.name = some d.binding ∧ r.span = s := by
    simp only [one.calls, Table.referencesTo, List.mem_map,
      List.mem_filter, beq_iff_eq]
    tauto
  have each {ds : List HelperDeclaration} {hs : List HelperPlan}
      (all : List.Forall₂ (Attributed t) ds hs) : (∃ h ∈ hs, s ∈ h.calls) ↔
      ∃ d ∈ ds, ∃ r ∈ t.references, r.kind = .callee ∧
      t.resolve r.scope r.name = some d.binding ∧ r.span = s := by
    induction all with
    | nil => exact iff_of_false nofun nofun
    | cons one rest ih =>
      rw [List.exists_mem_cons_iff, List.exists_mem_cons_iff, calls one, ih]
  simp only [Plan.isTarget, List.any_eq_true, List.contains_iff_mem,
    each attributed, callsHelper, Bool.and_eq_true, beq_iff_eq]
  constructor
  · rintro ⟨d, hd, r, hr, isCallee, means, here⟩
    exact ⟨r, hr, ⟨isCallee, d, hd, means⟩, here⟩
  · rintro ⟨r, hr, ⟨isCallee, d, hd, means⟩, here⟩
    exact ⟨d, hd, r, hr, isCallee, means, here⟩

end Planned

section Performed

variable {options : Options} {text : String} {tree : Node}
  {comments : CommentMap} {transformed : Transformed}

/-- What the plan of a transformation promises and its result keeps. -/
structure PlanKept (t : Table) (plan : Plan) (transformed : Transformed) :
    Prop where
  attributed : List.Forall₂ (Attributed t) t.helpers plan.helpers
  /-- Each use of a helper is listed once. -/
  once : ∀ h ∈ plan.helpers, (h.calls ++ h.retained).Nodup
  calls : plan.targets.length = (t.references.filter (callsHelper t)).length
  counted : transformed.report.callsRewritten = plan.targets.length
  gone : ∀ s ∈ plan.targets, s ∉ spans transformed.tree
  /-- No use of a helper is left whose declaration goes away. -/
  unused : ∀ h ∈ plan.helpers, h.isRemovable = true →
    ∀ s ∈ h.calls ++ h.retained, s ∉ spans transformed.tree

/-- Both lists of a helper together are the references to it. -/
theorem Attributed.perm {t : Table} {d : HelperDeclaration} {h : HelperPlan}
    (attributed : Attributed t d h) :
    (h.calls ++ h.retained).Perm
      ((t.referencesTo d.binding).map Reference.span) := by
  rw [attributed.calls, attributed.retained, ← List.map_append]
  refine List.Perm.map _ ?_
  exact List.filter_append_perm (fun r : Reference => r.kind == .callee)
    (t.referencesTo d.binding)

/-- **A rewrite of a program rewrites what was to be rewritten**: the callees of
its calls are the targets of the plan, and none of them is left. -/
theorem targets_rewritten (wellRead : WellRead tree)
    (p : Performed options tree comments transformed)
    (attributed : List.Forall₂
      (Attributed p.analysis.table) p.analysis.table.helpers p.plan.helpers)
    {h : List String} {a : List RewrittenCall}
    (rewritten : Rewrites p.setting [.place] [tree] [transformed.tree] h a) :
    (a.map RewrittenCall.callee).Perm p.plan.targets ∧ ∀ s ∈ p.plan.targets,
      s ∉ spans transformed.tree := by
  have targets := rewrites_targets rewritten
  have given {s : Option Span} (hs : s ∈ spans tree) : s ≠ none :=
    fun same => wellRead.given (same ▸ hs)
  have bound {s : Option Span} (hs : s ∈ spans tree) : times s
      [transformed.tree] + (a.map RewrittenCall.callee).count s ≤ 1 := by
    refine Nat.le_trans (rewrites_spans rewritten (given hs)) ?_
    rw [times, spansAmong_single]
    exact List.nodup_iff_count_le_one.1 wellRead.distinct s
  have inTree {s : Option Span} (hs : s ∈ a.map RewrittenCall.callee) :
      s ∈ spans tree := by
    obtain ⟨r, hr, rfl⟩ := List.mem_map.1 hs
    exact spansAmong_single tree ▸ (targets r hr).2
  have once : (a.map RewrittenCall.callee).Nodup := by
    refine List.nodup_iff_count_le_one.2 fun s => ?_
    by_cases hs : s ∈ a.map RewrittenCall.callee
    · have := bound (inTree hs)
      omega
    · rw [List.count_eq_zero_of_not_mem hs]
      exact Nat.zero_le _
  have reached : ∀ s ∈ p.plan.targets, s ∈ a.map RewrittenCall.callee := by
    intro s hs
    obtain ⟨b, i, sp, ns, ns', names, h', rfl, -, -, children, -⟩ :=
      rewrites_program wellRead.isProgram rewritten
    obtain ⟨parts, below, outer⟩ := regular_node.1 wellRead.regular
    have shaped : AllShaped ns :=
      AllShaped.children (List.forall_mem_singleton.2 wellRead.shaped)
    have all := rewrites_reach (m := options.importName)
      (D := a.map RewrittenCall.callee) children (fit_place fun n hn =>
      ⟨below n hn, outer n hn⟩) shaped fun r hr => List.mem_map_of_mem hr
    have whole : Reached options.importName p.plan (a.map RewrittenCall.callee)
        (.node (.program b i) sp ns) :=
      reached_node parts rfl (fun i n there _ => all.placed
        (List.mem_of_getElem? there)) fun isCall => by
        cases isCall
    obtain ⟨r, hr, calls, rfl⟩ := (isTarget_iff attributed).1 (mem_targets.1 hs)
    have among : p.analysis.table.resolution r ∈ resolvedAll [reachingAll .root
        (outline options.importName (.node (.program b i) sp ns))]
        (outline options.importName (.node (.program b i) sp ns)) := by
      rw [← Table.resolve_ofOutline, ← p.table_eq]
      exact List.mem_map_of_mem hr
    rw [callsHelper, Bool.and_eq_true, beq_iff_eq] at calls
    exact whole.said {} _ _ among calls.1 (mem_targets.1 hs)
  refine ⟨(List.perm_ext_iff_of_nodup once (nodup_eraseDups _)).2 fun s =>
    ⟨fun hs => ?_, reached s⟩, ?_⟩
  · obtain ⟨r, hr, rfl⟩ := List.mem_map.1 hs
    exact mem_targets.2 (targets r hr).1
  · intro s hs left
    have rewritten := List.count_pos_iff.2 (reached s hs)
    have still : 0 < times s [transformed.tree] := by
      rw [times_pos, spansAmong_single]
      exact left
    have := bound (inTree (reached s hs))
    omega

/-- Where no span is referred to twice, every use of a helper is listed once,
and there are as many calls to rewrite as references that call a helper. -/
theorem listed_once {t : Table} {plan : Plan}
    (attributed : List.Forall₂ (Attributed t) t.helpers plan.helpers)
    (distinct : (t.references.map Reference.span).Nodup) :
    (∀ h ∈ plan.helpers, (h.calls ++ h.retained).Nodup) ∧
      plan.targets.length = (t.references.filter (callsHelper t)).length := by
  constructor
  · intro h hh
    obtain ⟨d, -, one⟩ := exists_of_forall₂ attributed hh
    exact one.perm.nodup_iff.2 (distinct.sublist (List.filter_sublist.map _))
  · have once := distinct.sublist
      ((List.filter_sublist (p := callsHelper t)).map Reference.span)
    have perm : plan.targets.Perm
        ((t.references.filter (callsHelper t)).map Reference.span) := by
      refine (List.perm_ext_iff_of_nodup (nodup_eraseDups _) once).2 fun s => ?_
      refine (mem_targets.trans (isTarget_iff attributed)).trans ?_
      simp only [List.mem_map, List.mem_filter, and_assoc]
    rw [perm.length_eq, List.length_map]

/-- **Every planned call is rewritten, and nothing refers to a removed
helper.** A program on which the transformation succeeds has a plan, and the
result keeps what the plan promises: the calls and the other uses of each helper
are all references to it, each listed once and none of them an assignment; as
many calls are rewritten as references call a helper; no identifier of a planned
call is left, and no reference to a helper whose declaration goes away.

A text that is skipped keeps that too if its strings spell the helper's module
out. Behind `'\x69dx'` a helper is called that a skipped program goes on
calling. -/
theorem planned_calls_rewritten (wellRead : WellRead tree)
    (spelled : mayReferenceHelper text options = false →
      SpelledOut options.importName text tree)
    (h : transformProgram options text tree comments = .ok transformed) :
    ∃ analysis plan, analyze options.importName tree = .ok analysis ∧
      Transform.plan analysis.table = .ok plan ∧
      PlanKept analysis.table plan transformed := by
  -- A plan without helpers is kept by whatever rewrites nothing.
  have unplanned {analysis : Analysis} {t : Transformed}
      (analyzed : analyze options.importName tree = .ok analysis)
      (planned : Transform.plan analysis.table = .ok ⟨[]⟩)
      (idle : t.report.callsRewritten = 0) :
      PlanKept analysis.table ⟨[]⟩ t := by
    have attributed := attributed_of_plan planned
    have distinct :=
      references_nodup (m := options.importName) wellRead.distinct
    rw [← table_of_analyze analyzed] at distinct
    obtain ⟨once, calls⟩ := listed_once attributed distinct
    exact ⟨attributed, once, calls, idle, nofun, nofun⟩
  rcases transformProgram_ok h with
    ⟨skipped, rfl⟩ | ⟨analysis, analyzed, planned, rfl⟩ | ⟨⟨p⟩⟩
  · obtain ⟨analysis, analyzed, planned, -⟩ := planned_of_unremarked
      (unremarked_of_skipped wellRead.regular (spelled skipped) skipped)
    exact ⟨analysis, ⟨[]⟩, analyzed, planned, unplanned analyzed planned rfl⟩
  · exact ⟨analysis, ⟨[]⟩, analyzed, planned, unplanned analyzed planned rfl⟩
  · obtain ⟨h, a, rewritten, adv, -⟩ := p.rewrites
    have attributed := attributed_of_plan p.planned
    have distinct :=
      references_nodup (m := options.importName) wellRead.distinct
    rw [← p.table_eq] at distinct
    obtain ⟨once, calls⟩ := listed_once attributed distinct
    obtain ⟨perm, gone⟩ := targets_rewritten wellRead p attributed rewritten
    refine ⟨p.analysis, p.plan, p.analyzed, p.planned,
      attributed, once, calls, ?_, gone, ?_⟩
    · have counted : p.progress.calls = a.length :=
        adv.calls.trans (Nat.zero_add _)
      rw [p.report, ← perm.length_eq, List.length_map]
      exact counted
    · intro h hh isRemovable s hs
      simp only [HelperPlan.isRemovable, Bool.and_eq_true, List.isEmpty_iff]
        at isRemovable
      rw [isRemovable.2, List.append_nil] at hs
      refine gone s (mem_targets.2 ?_)
      exact List.any_eq_true.2 ⟨h, hh, List.contains_iff_mem.2 hs⟩

end Performed

theorem wellRead_importedCall : WellRead importedCall :=
  ⟨rfl, by decide +kernel, by decide +kernel, by decide +kernel,
    by decide +kernel⟩

/-- The call of an imported helper is rewritten, and the helper is not referred
to any more. A text without the helper's name is skipped, and has no plan to
keep. -/
theorem planned_calls_rewritten_importedCall :
    (∃ analysis plan transformed, transformProgram
      {} importedCallText importedCall {} = .ok transformed ∧
      analyze "idx" importedCall = .ok analysis ∧ Transform.plan
        analysis.table = .ok plan ∧ PlanKept analysis.table plan transformed ∧
        plan.targets = [some ⟨23, 26⟩] ∧ transformed.report.removed = ["idx"] ∧
        some ⟨23, 26⟩ ∉ spans transformed.tree) ∧
      ∃ analysis plan, analyze "idx" otherImport = .ok analysis ∧
        Transform.plan analysis.table = .ok plan ∧
        PlanKept analysis.table plan
          ⟨otherImport, {}, { isSkipped := true }⟩ := by
  constructor
  · obtain ⟨transformed, done⟩ : ∃ transformed,
        transformProgram {} importedCallText importedCall {} =
          .ok transformed := ⟨_, rfl⟩
    have looked : mayReferenceHelper importedCallText {} = false →
        SpelledOut "idx" importedCallText importedCall := by
      decide +kernel
    obtain ⟨analysis, plan, analyzed, planned, kept⟩ :=
      planned_calls_rewritten wellRead_importedCall looked done
    refine ⟨analysis, plan, transformed, done, analyzed, planned, kept, ?_⟩
    have known := kept.gone (some ⟨23, 26⟩)
    cases analyzed
    cases planned
    cases done
    exact ⟨by decide +kernel, by decide +kernel, known (by decide +kernel)⟩
  · have wellRead : WellRead otherImport :=
      ⟨rfl, by decide +kernel, by decide +kernel, by decide +kernel,
        by decide +kernel⟩
    have skipped : mayReferenceHelper "import a from 'id';" {} = false := by
      decide +kernel
    have done : transformProgram {} "import a from 'id';" otherImport {} =
        .ok ⟨otherImport, {}, { isSkipped := true }⟩ := by
      rw [transformProgram, skipped]
      rfl
    exact planned_calls_rewritten wellRead (fun _ => by decide +kernel) done

end NullGuard.Transform
