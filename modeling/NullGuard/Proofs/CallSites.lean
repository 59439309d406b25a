import NullGuard.Proofs.PlannedCalls

/-!
# Where planned calls stand

A place in a program is given by the nodes around it, each with the position of
the part that the place is in. Two things about the planned calls of a program
can be read off it without rewriting anything.

* `innermost` is the body that holds what is made at a place: the nearest one
  that the place is inside of. Keys, decorators and parameters are outside of
  the body that they belong to, and the callback of a planned call has no body
  of its own.
* `sites` lists the planned calls of a node in the order in which a rewrite
  replaces them: those in the arguments of a call before the call, and else part
  by part.

The rest of the module connects places with treatments. A node *suits* a
treatment at a place (`Suits`) if the place is one in which a rewrite treats
nodes so, and `suits_children`, `suits_function` and `suits_arguments` say that
parts do if the node around them does.
-/

namespace NullGuard.Transform

open NullGuard.Text (Span)
open NullGuard.Tree NullGuard.Chain NullGuard.Scope

/-- The nodes around a place, from the inside out, each with the position of the
part that the place is in. -/
abbrev Path :=
  List (Node × Nat)

/-- Whether a place is the arguments of a planned call. -/
def isArguments (plan : Plan) : Path → Bool
  | (call, i) :: _ => i == 1 && (plannedArguments? plan call).isSome
  | [] => false

/-- Whether a node is an arrow function itself, without parentheses. -/
def isBareArrow (n : Node) : Bool :=
  match n.kind with
  | .arrow _ => true
  | _ => false

/-- Whether a node only wraps an arrow function. -/
def wrapsArrow : Node → Bool
  | .node .paren _ [inner] | .node .spread _ [inner] => isArrow inner
  | _ => false

/-- Whether a place is the callback of a planned call, in whatever
parentheses. -/
def isCallback (plan : Plan) : Path → Bool
  | (n, i) :: around =>
    (i == 1 && isArguments plan around) ||
      (wrapsArrow n && isCallback plan around)
  | [] => false

/-- Whether the body of a node moves out of it: it is the callback of a planned
call. -/
def movesOut (plan : Plan) (around : Path) (n : Node) : Bool :=
  isBareArrow n && isCallback plan around

/-- A body that holds temporaries: the kind and the span of the node whose body
it is, and the priority of what it holds. -/
structure Body where
  kind : Kind
  span : Option Span
  priority : HoistPriority
deriving DecidableEq, Repr

/-- Whether the part of a node at a position is a body that can hold
something. -/
def isBodyAt (n : Node) (i : Nat) : Bool :=
  isProgram n.kind || bodyIndex n.kind == some i

/-- Whether a node of a kind is a method of a class. -/
def isMethod : Kind → Bool
  | .method _ _ => true
  | _ => false

/-- The priority of what is held by the body of a node: that of an asynchronous
method is an option. -/
def priorityAt (options : Options) (n : Node) : Path → HoistPriority
  | (.node (.method _ _) _ _, 1) :: _ => methodPriority options n
  | _ => defaultPriority

/-- **The innermost body around a place.** Outside of every program there is
none. -/
def innermost (options : Options) (plan : Plan) : Path → Body
  | (n, i) :: around =>
    if isBodyAt n i && !movesOut plan around n
      then ⟨n.kind, n.span, priorityAt options n around⟩
    else innermost options plan around
  | [] => ⟨.absent, none, defaultPriority⟩

/-- A planned call: where its callee stands, and what is around it. -/
structure Site where
  callee : Option Span
  around : Path

/-- What there is in the parts of a node, in the order in which they are looked
at. The decorators of parameters come before the parameters. Types of functions
and the `this` of a setter are not looked at. -/
def inOrder {α : Type} (k : Kind) (parts : List (List α)) : List α :=
  match k, parts with
  | .function _ _, parameters :: decorators :: body :: _ =>
    decorators ++ parameters ++ body
  | .arrow _, parameters :: body :: _ => parameters ++ body
  | .getterProp, [key, _, body] => key ++ body
  | .setterProp, [key, _, parameter, body] => key ++ parameter ++ body
  | _, parts => parts.flatten

mutual

/-- **The planned calls of a node, in the order in which they are replaced**:
those in the arguments of a call before the call. Of the callback of a planned
call only the body is looked at. -/
def sites (plan : Plan) (around : Path) : Node → List Site
  | .node k s ns =>
    let parts := sitesAmong plan (fun i => (.node k s ns, i) :: around) 0 ns
    if (plannedArguments? plan (.node k s ns)).isSome
      then parts.getD 1 [] ++ [⟨calleeSpan (.node k s ns), around⟩]
    else if movesOut plan around (.node k s ns) then parts.getD 1 []
    else inOrder k parts

/-- The planned calls of each of several nodes, the first of which is at a
position. -/
def sitesAmong (plan : Plan) (place : Nat → Path) (i : Nat) :
    List Node → List (List Site)
  | [] => []
  | n :: ns => sites plan (place i) n :: sitesAmong plan place (i + 1) ns

end

/-- Whether a node is a block, or nothing is in it. -/
def isBlockOrEmpty (n : Node) : Bool :=
  n.kind == .block || n.children.isEmpty

/-- Whether a node that has a body has all the parts of a node of its kind. -/
def isComplete : Node → Bool
  | .node (.function _ _) _ (_ :: _ :: body :: _) => isBlockOrEmpty body
  | .node (.function _ _) _ _ => false
  | .node (.arrow _) _ (_ :: _ :: _) => true
  | .node (.arrow _) _ _ => false
  | .node (.constructor _) _ [_, _, body] => isBlockOrEmpty body
  | .node (.constructor _) _ _ => false
  | .node .getterProp _ [_, _, body] => isBlockOrEmpty body
  | .node .getterProp _ _ => false
  | .node .setterProp _ [_, _, _, body] => isBlockOrEmpty body
  | .node .setterProp _ _ => false
  | .node .staticBlock _ [body] => isBlockOrEmpty body
  | .node .staticBlock _ _ => false
  | .node (.method _ _) _ [_, _] => true
  | .node (.method _ _) _ _ => false
  | _ => true

section Places

variable {options : Options} {plan : Plan} {around : Path} {n : Node} {i : Nat}

/-- Inside of a node that holds nothing at a position the innermost body is the
one around the node. -/
theorem innermost_inside (notBody : isBodyAt n i = false) :
    innermost options plan ((n, i) :: around) =
      innermost options plan around := by
  rw [innermost, notBody, Bool.false_and, if_neg Bool.false_ne_true]

/-- The body of the callback of a planned call is no body of its own. -/
theorem innermost_movesOut (moves : movesOut plan around n = true) :
    innermost options plan ((n, i) :: around) =
      innermost options plan around := by
  rw [innermost, moves, Bool.not_true, Bool.and_false,
    if_neg Bool.false_ne_true]

theorem innermost_body (isBody : isBodyAt n i = true)
    (stays : movesOut plan around n = false) :
    innermost options plan ((n, i) :: around) =
      ⟨n.kind, n.span, priorityAt options n around⟩ := by
  rw [innermost, isBody, stays, Bool.not_false, Bool.and_true, if_pos rfl]

theorem isBodyAt_of_kind {k : Kind} {s : Option Span} {ns : List Node}
    (inner : isProgram k = false) (none : bodyIndex k ≠ some i) :
    isBodyAt (.node k s ns) i = false := by
  rw [isBodyAt, Node.kind_node, inner, Bool.false_or, beq_eq_false_iff_ne]
  exact none

/-- The parts of a node that is no planned call are not the arguments of one. -/
theorem not_isArguments (unplanned : plannedArguments? plan n = none) :
    isArguments plan ((n, i) :: around) = false := by
  rw [isArguments, unplanned, Option.isSome_none, Bool.and_false]

/-- Only functions have another priority than the usual one. -/
theorem priorityAt_of_notFunction (notFunction : isFunction n = false) :
    priorityAt options n around = defaultPriority := by
  unfold priorityAt
  split
  · obtain ⟨k, s, ns⟩ := n
    cases k <;> first | rfl | cases notFunction
  · rfl

/-- Only where a method has its function the priority is another than the usual
one. -/
theorem priorityAt_inside {c : Node}
    (elsewhere : isMethod n.kind = false ∨ i ≠ 1) :
    priorityAt options c ((n, i) :: around) = defaultPriority := by
  unfold priorityAt
  split
  · rename_i same
    cases same
    rcases elsewhere with other | other
    · cases other
    · exact absurd rfl other
  · rfl

end Places

/-- A node stands neither for the arguments nor for the callback of a planned
call. -/
structure Usual (plan : Plan) (around : Path) (n : Node) : Prop where
  arguments : isArguments plan around = false
  callback : isCallback plan around = true → isBareArrow n = false ∧
    wrapsArrow n = false

/-- **A node is in a place where a rewrite treats nodes in a way**: where it is
rewritten in place, what is made in it is held by the body `outer`, and a body
holds with a priority. -/
inductive Suits (setting : Setting) (q : HoistPriority) (outer : Body)
    (around : Path) (n : Node) : Treatment → Prop where
  | keep : Suits setting q outer around n .keep
  | place (usual : Usual setting.plan around n)
      (within : n.children = [] ∨
        innermost setting.options setting.plan around = outer)
      (priority : isFunction n = true → priorityAt setting.options n around =
        defaultPriority) :
      Suits setting q outer around n .place
  | callback (notArguments : isArguments setting.plan around = false)
      (isCallback : isCallback setting.plan around = true)
      (within : innermost setting.options setting.plan around = outer)
      (priority : isFunction n = true → priorityAt setting.options n around =
        defaultPriority) :
      Suits setting q outer around n .callback
  | body (usual : Usual setting.plan around n) (block : isBlockOrEmpty n = true)
      (priority : (innermost setting.options setting.plan around).priority =
        q) :
      Suits setting q outer around n .body
  | arrowBody (usual : Usual setting.plan around n)
      (function : isFunction n = true → priorityAt setting.options n around =
        defaultPriority)
      (priority : (innermost setting.options setting.plan around).priority =
        q) :
      Suits setting q outer around n .arrowBody
  | function (usual : Usual setting.plan around n)
      (isFunction : isFunction n = true)
      (within : innermost setting.options setting.plan around = outer)
      (priority : priorityAt setting.options n around = q) :
      Suits setting q outer around n .function
  | items (usual : Usual setting.plan around n) (isList : n.kind = .list)
      (within : innermost setting.options setting.plan around = outer) :
      Suits setting q outer around n .items

/-- Several nodes suit their treatments, each at a place of its own. -/
def AllSuit (setting : Setting) (q : HoistPriority) (outer : Body)
    (place : Nat → Path) (js : List Treatment) (ns : List Node) : Prop :=
  ∀ i j n, js[i]? = some j → ns[i]? = some n →
    Suits setting q outer (place i) n j

section Suits

variable {setting : Setting} {q : HoistPriority} {outer : Body} {around : Path}
  {n c : Node} {i : Nat} {k : Kind} {s : Option Span} {ns : List Node}
  {js : List Treatment} {place : Nat → Path}

theorem AllSuit.head {j : Treatment}
    (h : AllSuit setting q outer place (j :: js) (n :: ns)) :
    Suits setting q outer (place 0) n j :=
  h 0 j n rfl rfl

theorem AllSuit.tail {j : Treatment}
    (h : AllSuit setting q outer place (j :: js) (n :: ns)) :
    AllSuit setting q outer (fun i => place (i + 1)) js ns :=
  fun i => h (i + 1)

theorem AllSuit.single {j : Treatment}
    (h : Suits setting q outer (place 0) n j) :
    AllSuit setting q outer place [j] [n] := by
  intro i j' n' treated there
  cases i with
  | zero =>
    cases treated
    cases there
    exact h
  | succ i => cases treated

/-- The parts of a node that is no call stand neither for arguments nor for a
callback. -/
theorem Usual.inside (usual : Usual setting.plan around n)
    (unplanned : plannedArguments? setting.plan n = none) (i : Nat) :
    isArguments setting.plan ((n, i) :: around) = false ∧
      isCallback setting.plan ((n, i) :: around) = false := by
  refine ⟨not_isArguments unplanned, ?_⟩
  rw [isCallback, usual.arguments, Bool.and_false, Bool.false_or,
    Bool.and_eq_false_imp]
  intro wraps
  cases callback : isCallback setting.plan around with
  | false => rfl
  | true => cases (usual.callback callback).2.symm.trans wraps

theorem Usual.part (usual : Usual setting.plan around n)
    (unplanned : plannedArguments? setting.plan n = none) (i : Nat) (c : Node) :
    Usual setting.plan ((n, i) :: around) c where
  arguments := (usual.inside unplanned i).1
  callback isCallback := by
    cases (usual.inside unplanned i).2.symm.trans isCallback

/-- A usual node keeps its body. -/
theorem Usual.stays (usual : Usual setting.plan around n) :
    movesOut setting.plan around n = false := by
  rw [movesOut, Bool.and_eq_false_imp]
  intro bare
  cases callback : isCallback setting.plan around with
  | false => rfl
  | true => cases (usual.callback callback).1.symm.trans bare

/-- A part of a usual node that is no body and no function of a method. -/
theorem Usual.suits_place (usual : Usual setting.plan around n)
    (unplanned : plannedArguments? setting.plan n = none)
    (within : innermost setting.options setting.plan around = outer)
    (notBody : isBodyAt n i = false)
    (elsewhere : isMethod n.kind = false ∨ i ≠ 1) :
    Suits setting q outer ((n, i) :: around) c .place :=
  .place (usual.part unplanned i c)
    (.inr ((innermost_inside notBody).trans within)) fun _ =>
    priorityAt_inside elsewhere

/-- **What is a body of a node that has all its parts is treated as one.** -/
theorem body_of_complete {j : Treatment}
    (complete : isComplete (.node k s ns) = true) (here : bodyIndex k = some i)
    (treated : (treatments k ns)[i]? = some j) (there : ns[i]? = some c) :
    (j = .arrowBody ∧ isBareArrow (.node k s ns) = true) ∨
      (j = .body ∧ isBlockOrEmpty c = true) := by
  cases k
  case arrow =>
    rcases ns with _ | ⟨parameters, _ | ⟨body, types⟩⟩
    case cons.cons =>
      cases here
      cases treated
      exact .inl ⟨rfl, rfl⟩
    all_goals cases complete
  case function =>
    rcases ns with _ | ⟨parameters, _ | ⟨decorators, _ | ⟨body, types⟩⟩⟩
    case cons.cons.cons =>
      cases here
      cases treated
      cases there
      exact .inr ⟨rfl, complete⟩
    all_goals cases complete
  case constructor | getterProp =>
    rcases ns with _ | ⟨key, _ | ⟨parameters, _ | ⟨body, _ | ⟨more, rest⟩⟩⟩⟩
    case cons.cons.cons.nil =>
      cases here
      cases treated
      cases there
      exact .inr ⟨rfl, complete⟩
    all_goals cases complete
  case setterProp =>
    rcases ns
      with _ | ⟨key, _ | ⟨this, _ | ⟨parameter, _ | ⟨body, _ | ⟨more, rest⟩⟩⟩⟩⟩
    case cons.cons.cons.cons.nil =>
      cases here
      cases treated
      cases there
      exact .inr ⟨rfl, complete⟩
    all_goals cases complete
  case staticBlock =>
    rcases ns with _ | ⟨body, _ | ⟨more, rest⟩⟩
    case cons.nil =>
      cases here
      cases treated
      cases there
      exact .inr ⟨rfl, complete⟩
    all_goals cases complete
  all_goals cases here

/-- A method that has all its parts has a key and a function. -/
theorem parts_of_method {sort : MethodSort} {modifiers : Modifiers}
    (complete : isComplete (.node (.method sort modifiers) s ns) = true) :
    ∃ key function, ns = [key, function] := by
  rcases ns with _ | ⟨key, _ | ⟨function, _ | ⟨more, rest⟩⟩⟩
  case cons.cons.nil => exact ⟨key, function, rfl⟩
  all_goals cases complete

/-- What is rewritten in place is not the function of a method. -/
theorem elsewhere_of_place (complete : isComplete (.node k s ns) = true)
    (treated : (treatments k ns)[i]? = some .place) :
    isMethod k = false ∨ i ≠ 1 := by
  cases k
  case method sort modifiers =>
    refine .inr fun second => ?_
    subst second
    obtain ⟨key, function, rfl⟩ := parts_of_method complete
    cases treated
  all_goals exact .inl rfl

/-- **The parts of a node suit their treatments**, if the node is no function,
no call and no program. -/
theorem suits_children (usual : Usual setting.plan around (.node k s ns))
    (inner : isProgram k = false)
    (notFunction : isFunction (.node k s ns) = false)
    (unplanned : plannedArguments? setting.plan (.node k s ns) = none)
    (complete : isComplete (.node k s ns) = true)
    (isRegular : regular (.node k s ns) = true)
    (within : ns = [] ∨ innermost setting.options setting.plan around = outer) :
    AllSuit setting (innerPriority setting.options k ns) outer
      (fun i => (.node k s ns, i) :: around) (treatments k ns) ns := by
  intro i j c treated there
  obtain ⟨parts, -, -⟩ := regular_node.1 isRegular
  replace within : innermost setting.options setting.plan around = outer :=
    within.resolve_left fun none => by
      rw [none] at there
      cases there
  cases treated_of_treatments treated with
  | keep aside => exact .keep
  | place =>
    refine usual.suits_place unplanned within (isBodyAt_of_kind inner
      fun here => ?_) (elsewhere_of_place complete treated)
    rcases body_of_complete complete here treated there
      with ⟨isArrow, -⟩ | ⟨isBody, -⟩
    · cases isArrow
    · cases isBody
  | body isBody here =>
    have own : innermost setting.options setting.plan ((.node k s ns, i) ::
        around) = ⟨k, s, priorityAt setting.options (.node k s ns) around⟩ :=
      innermost_body
        (by rw [isBodyAt, Node.kind_node, here, beq_self_eq_true, Bool.or_true])
        usual.stays
    have priority : (innermost setting.options setting.plan ((.node k s ns,
        i) :: around)).priority = innerPriority setting.options k ns := by
      rw [own, priorityAt_of_notFunction notFunction]
      cases k <;> first | rfl | cases here
    rcases body_of_complete complete here treated there
      with ⟨rfl, -⟩ | ⟨rfl, block⟩
    · have other : isMethod k = false := by
        cases k <;> first | rfl | cases here
      exact .arrowBody (usual.part unplanned i c)
        (fun _ => priorityAt_inside (.inl other)) priority
    · exact .body (usual.part unplanned i c) block priority
  | function isMethod second =>
    subst isMethod second
    obtain ⟨key, function, rfl⟩ := parts_of_method complete
    cases there
    exact .function (usual.part unplanned 1 c) (all_second.1 parts c rfl)
      ((innermost_inside (by rfl)).trans within) rfl
  | items isCase second =>
    subst isCase second
    exact .items (usual.part unplanned 1 c) (eq_of_beq
      (all_second.1 parts c there)) ((innermost_inside (by rfl)).trans within)

/-- The items of a program suit being rewritten in place, and what is made in
them is held by the program. -/
theorem suits_program {b : Bool} {i : Option String} :
    AllSuit setting q ⟨.program b i, s, defaultPriority⟩ (fun j =>
      [(.node (.program b i) s ns, j)]) (ns.map fun _ => .place) ns := by
  intro j treatment c treated there
  cases eq_of_map treated
  refine .place ⟨not_isArguments rfl, fun isCallback => ?_⟩
    (.inr (innermost_body rfl rfl)) fun _ => priorityAt_inside (.inl rfl)
  rw [Transform.isCallback, isArguments, Bool.and_false] at isCallback
  cases isCallback

/-- Which of the parts of a function has a turn. -/
def turn : Nat → Nat
  | 0 => 1
  | 1 => 0
  | i => i

/-- A function that has all its parts. -/
theorem parts_of_function {b g : Bool}
    (complete : isComplete (.node (.function b g) s ns) = true) :
    ∃ parameters decorators body types, ns = parameters :: decorators ::
      body :: types ∧
      isBlockOrEmpty body = true := by
  rcases ns with _ | ⟨parameters, _ | ⟨decorators, _ | ⟨body, types⟩⟩⟩
  case cons.cons.cons =>
    exact ⟨parameters, decorators, body, types, rfl, complete⟩
  all_goals cases complete

/-- **The parts of a function suit their treatments**, in their turn. -/
theorem suits_function {b g : Bool}
    (usual : Usual setting.plan around (.node (.function b g) s ns))
    (complete : isComplete (.node (.function b g) s ns) = true)
    (within : innermost setting.options setting.plan around = outer)
    (priority : priorityAt setting.options
      (.node (.function b g) s ns) around = q) :
    AllSuit setting q outer (fun i => (.node (.function b g) s ns, turn i) ::
      around) (functionTreatments ns) (inTurn ns) := by
  obtain ⟨parameters, decorators, body, types, rfl, block⟩ :=
    parts_of_function complete
  intro i j c treated there
  rcases i with _ | _ | _ | i
  · cases treated
    exact usual.suits_place (by rfl) within (by rfl) (.inl rfl)
  · cases treated
    exact usual.suits_place (by rfl) within (by rfl) (.inl rfl)
  · cases treated
    cases there
    refine .body (usual.part (by rfl) 2 body) block ?_
    change (innermost setting.options setting.plan
      ((_, 2) :: around)).priority = q
    rwa [innermost_body (by rfl) usual.stays]
  · cases eq_of_map treated
    exact .keep

/-- Of the arguments of a helper call the second one is the callback. -/
theorem position_of_argument {j : Treatment}
    (treated : (argumentTreatments ns)[i]? = some j) :
    (j = .callback ∧ i = 1) ∨ (j = .place ∧ i ≠ 1) := by
  rcases ns with _ | ⟨base, _ | ⟨callback, rest⟩⟩
  · cases treated
  · rcases i with _ | i
    · cases treated
      exact .inr ⟨rfl, by decide⟩
    · cases treated
  · rcases i with _ | _ | i
    · cases treated
      exact .inr ⟨rfl, by decide⟩
    · cases treated
      exact .inl ⟨rfl, rfl⟩
    · exact .inr ⟨eq_of_map treated, by omega⟩

/-- **The arguments of a planned call suit their treatments.** -/
theorem suits_arguments {items : List Node}
    (planned : plannedArguments? setting.plan n = some (.node .list s items))
    (within : innermost setting.options setting.plan around = outer) :
    AllSuit setting q outer (fun i => (.node .list s items, i) :: (n, 1) ::
      around) (argumentTreatments items) items := by
  intro i j c treated there
  have isCall := kind_of_planned planned
  have inside : innermost setting.options setting.plan
      ((.node .list s items, i) :: (n, 1) :: around) = outer := by
    rw [innermost_inside (by rfl), innermost_inside, within]
    rw [isBodyAt, isCall]
    rfl
  have notArguments : isArguments setting.plan ((.node .list s items, i) ::
      (n, 1) :: around) = false := not_isArguments rfl
  have priority : priorityAt setting.options c
      ((.node .list s items, i) :: (n, 1) :: around) = defaultPriority :=
    priorityAt_inside (.inl rfl)
  rcases position_of_argument treated with ⟨rfl, rfl⟩ | ⟨rfl, other⟩
  · refine .callback notArguments ?_ inside fun _ => priority
    rw [isCallback, isArguments, planned]
    rfl
  · refine .place ⟨notArguments, fun callback => ?_⟩ (.inr inside)
      fun _ => priority
    rw [isCallback, beq_false_of_ne other] at callback
    cases callback

/-- The body of a callback is in place where the call is. -/
theorem suits_callbackBody {b : Bool}
    (notArguments : isArguments setting.plan around = false)
    (isCallback : Transform.isCallback setting.plan around = true)
    (within : innermost setting.options setting.plan around = outer) :
    Suits setting q outer ((.node (.arrow b) s ns, i) :: around) c .place := by
  have moves : movesOut setting.plan around (.node (.arrow b) s ns) = true :=
    isCallback
  refine .place ⟨not_isArguments rfl, fun callback => ?_⟩
    (.inr ((innermost_movesOut moves).trans within)) fun _ =>
    priorityAt_inside (.inl rfl)
  rw [Transform.isCallback, notArguments, Bool.and_false] at callback
  cases callback

/-- A callback in parentheses. -/
theorem suits_callbackInside (wraps : k = .paren ∨ k = .spread)
    (arrow : isArrow c = true)
    (isCallback : Transform.isCallback setting.plan around = true)
    (within : innermost setting.options setting.plan around = outer) :
    Suits setting q outer ((.node k s [c], 0) :: around) c .callback := by
  rcases wraps with rfl | rfl
  all_goals
    refine .callback (by rfl) ?_ ((innermost_inside (by rfl)).trans within)
      fun _ => priorityAt_inside (.inl rfl)
    rw [Transform.isCallback, wrapsArrow, arrow, isCallback]
    rfl

/-- What is in the place of a callback and is none is rewritten in place. -/
theorem suits_noCallback
    (notArguments : isArguments setting.plan around = false)
    (within : innermost setting.options setting.plan around = outer)
    (complete : isComplete n = true)
    (priority : isFunction n = true → priorityAt setting.options n around =
      defaultPriority)
    (notArrow : ∀ b s parameters body types, n ≠
      .node (.arrow b) s (parameters :: body :: types))
    (notInside : ∀ k s inner, n = .node k s [inner] → k = .paren ∨
      k = .spread → isArrow inner = false) :
    Suits setting q outer around n .place := by
  refine .place ⟨notArguments, fun _ => ⟨?_, ?_⟩⟩ (.inr within) priority
  · obtain ⟨k, s, ns⟩ := n
    cases k
    case arrow b =>
      rcases ns with _ | ⟨parameters, _ | ⟨body, types⟩⟩
      case cons.cons => exact absurd rfl (notArrow b s parameters body types)
      all_goals cases complete
    all_goals rfl
  · unfold wrapsArrow
    split
    · exact notInside _ _ _ rfl (.inl rfl)
    · exact notInside _ _ _ rfl (.inr rfl)
    · rfl

end Suits

/-- The planned calls of several nodes that are treated in some ways, each at a
place of its own. -/
def sitesOf (plan : Plan) (place : Nat → Path) :
    List Treatment → List Node → List Site
  | j :: js, n :: ns =>
    (if j = .keep then [] else sites plan (place 0) n) ++
      sitesOf plan (fun i => place (i + 1)) js ns
  | _, _ => []

section Sites

variable {plan : Plan} {place : Nat → Path} {around : Path} {k : Kind}
  {s : Option Span} {n : Node} {ns : List Node} {js : List Treatment} {i : Nat}

theorem sitesOf_single {j : Treatment} (looked : j ≠ .keep) :
    sitesOf plan place [j] [n] = sites plan (place 0) n := by
  rw [sitesOf, if_neg looked, sitesOf, List.append_nil]
  nofun

theorem sitesOf_keep (ns : List Node) :
    sitesOf plan place (ns.map fun _ => .keep) ns = [] := by
  induction ns generalizing place with
  | nil => rfl
  | cons n ns ih => rw [List.map_cons, sitesOf, if_pos rfl, List.nil_append, ih]

/-- Where all parts are looked at, their calls come one after the other. -/
theorem flatten_sitesAmong (looked : ∀ j ∈ js, j ≠ .keep)
    (same : js.length = ns.length) :
    (sitesAmong plan place i ns).flatten =
      sitesOf plan (fun j => place (i + j)) js ns := by
  induction ns generalizing i js with
  | nil =>
    cases List.length_eq_zero_iff.1 same
    rfl
  | cons n ns ih =>
    cases js with
    | nil => cases same
    | cons j js =>
      obtain ⟨first, others⟩ := List.forall_mem_cons.1 looked
      have next : (fun j => place (i + 1 + j)) = fun j => place (i + (j + 1)) :=
        by
        funext j
        rw [Nat.add_right_comm, Nat.add_assoc]
      rw [sitesAmong, List.flatten_cons, sitesOf, if_neg first,
        ih others (Nat.succ.inj same), next]
      rfl

theorem sites_unplanned
    (unplanned : plannedArguments? plan (.node k s ns) = none)
    (stays : movesOut plan around (.node k s ns) = false) :
    sites plan around (.node k s ns) = inOrder k
      (sitesAmong plan (fun i => (.node k s ns, i) :: around) 0 ns) := by
  rw [sites, unplanned, stays]
  rfl

/-- Types and the `this` of a setter are not looked at; all else is. -/
theorem looked_of_treatments (elsewhere : ∀ i, isAside k i = false) :
    ∀ j ∈ treatments k ns, j ≠ .keep := by
  intro j hj
  obtain ⟨i, treated⟩ := List.mem_iff_getElem?.1 hj
  rintro rfl
  cases treated_of_treatments treated with
  | keep aside => cases (elsewhere i).symm.trans aside
  | body isBody => cases isBody

/-- **The calls of a node are those of its parts, as these are treated.** -/
theorem sites_node (unplanned : plannedArguments? plan (.node k s ns) = none)
    (stays : movesOut plan around (.node k s ns) = false)
    (notFunction : isFunction (.node k s ns) = false)
    (complete : isComplete (.node k s ns) = true) :
    sites plan around (.node k s ns) = sitesOf plan
      (fun i => (.node k s ns, i) :: around) (treatments k ns) ns := by
  rw [sites_unplanned unplanned stays]
  have all (elsewhere : ∀ i, isAside k i = false) (flat :
      inOrder k (sitesAmong plan (fun i => (.node k s ns, i) :: around) 0 ns) =
      (sitesAmong plan (fun i => (.node k s ns, i) :: around) 0 ns).flatten) :
      inOrder k (sitesAmong plan (fun i => (.node k s ns, i) :: around) 0 ns) =
      sitesOf plan (fun i => (.node k s ns, i) :: around)
      (treatments k ns) ns := by
    rw [flat, flatten_sitesAmong (looked_of_treatments elsewhere)
      (length_treatments k ns)]
    simp only [Nat.zero_add]
  cases k
  case function => cases notFunction
  case arrow b =>
    rcases ns with _ | ⟨parameters, _ | ⟨body, types⟩⟩
    case cons.cons =>
      change _ ++ _ = _ ++ (_ ++ sitesOf _ _ (types.map fun _ => .keep) types)
      rw [sitesOf_keep, List.append_nil]
      rfl
    all_goals cases complete
  case getterProp =>
    rcases ns with _ | ⟨key, _ | ⟨type, _ | ⟨body, _ | ⟨more, rest⟩⟩⟩⟩
    case cons.cons.cons.nil =>
      change _ ++ _ = _ ++ ([] ++ (_ ++ []))
      rw [List.nil_append, List.append_nil]
      rfl
    all_goals cases complete
  case setterProp =>
    rcases ns
      with _ | ⟨key, _ | ⟨this, _ | ⟨parameter, _ | ⟨body, _ | ⟨more, rest⟩⟩⟩⟩⟩
    case cons.cons.cons.cons.nil =>
      change _ ++ _ ++ _ = _ ++ ([] ++ (_ ++ (_ ++ [])))
      rw [List.nil_append, List.append_nil, List.append_assoc]
      rfl
    all_goals cases complete
  all_goals exact all (fun _ => rfl) rfl

/-- The calls of a function are those of its parts, in their turn. -/
theorem sites_function {b g : Bool}
    (complete : isComplete (.node (.function b g) s ns) = true) :
    sites plan around (.node (.function b g) s ns) =
      sitesOf plan (fun i => (.node (.function b g) s ns, turn i) :: around)
      (functionTreatments ns) (inTurn ns) := by
  obtain ⟨parameters, decorators, body, types, rfl, -⟩ :=
    parts_of_function complete
  rw [sites_unplanned (by rfl) (by rfl)]
  change _ ++ _ ++ _ = _ ++
    (_ ++ (_ ++ sitesOf _ _ (types.map fun _ => .keep) types))
  rw [sitesOf_keep, List.append_nil, List.append_assoc]
  rfl

/-- The calls in the arguments of a planned call come before the call. -/
theorem sites_call {l : Option Span} {items : List Node}
    (planned : plannedArguments? plan n = some (.node .list l items)) :
    sites plan around n =
      sitesOf plan (fun i => (.node .list l items, i) :: (n, 1) :: around)
      (argumentTreatments items) items ++ [⟨calleeSpan n, around⟩] := by
  obtain ⟨k, s, ns⟩ := n
  have second :
      (sitesAmong plan (fun i => (Node.node k s ns, i) :: around) 0 ns).getD 1
      [] = sites plan ((.node k s ns, 1) :: around) (.node .list l items) := by
    obtain ⟨t, callee, rest, same, -⟩ := planned_cases planned
    cases same
    rfl
  have looked : ∀ j ∈ argumentTreatments items, j ≠ .keep := by
    intro j hj
    obtain ⟨i, treated⟩ := List.mem_iff_getElem?.1 hj
    rcases position_of_argument treated with ⟨rfl, -⟩ | ⟨rfl, -⟩ <;> nofun
  have length : (argumentTreatments items).length = items.length := by
    unfold argumentTreatments
    split <;> simp
  rw [sites, planned, Option.isSome_some, if_pos rfl, second,
    sites_unplanned (by rfl) (by rfl)]
  refine congrArg (· ++ _) ?_
  rw [show ∀ parts : List (List Site), inOrder .list parts = parts.flatten
    from fun _ => rfl, flatten_sitesAmong looked length]
  simp only [Nat.zero_add]

/-- Of a callback only the body is looked at. -/
theorem sites_callback {b : Bool} {parameters body : Node} {types : List Node}
    (isCallback : isCallback plan around = true) :
    sites plan around (.node (.arrow b) s (parameters :: body :: types)) =
      sites plan ((.node (.arrow b) s (parameters :: body :: types), 1) ::
      around) body := by
  have moves : movesOut plan around
      (.node (.arrow b) s (parameters :: body :: types)) = true := isCallback
  rw [sites, moves]
  rfl

/-- Of parentheses only what is in them is looked at. -/
theorem sites_wrapped (wraps : k = .paren ∨ k = .spread) :
    sites plan around (.node k s [n]) =
      sites plan ((.node k s [n], 0) :: around) n := by
  rcases wraps with rfl | rfl
  all_goals
    rw [sites_unplanned (by rfl) (by rfl)]
    exact List.append_nil _

end Sites

end NullGuard.Transform
