import NullGuard.Chain.Guard
import NullGuard.Proofs.Decomposition

/-!
# Which calls are taken apart, and what is wrong with the others

A call is taken apart if its arguments are a base and a callback with one named
parameter, and the body of the callback is an accessor of that parameter: the
parameter itself, or parentheses, a property access or a call around an
accessor. `HelperArguments` and `Spine` say so without any order. This module
adds the order.

* The nodes that the walk through a body meets are its `spineNodes`, from the
  outside in. Each of them is right or has one fault of its own (`nodeFault`),
  and the fault of the body is the first of these (`spine_error_iff`).
* `ArgumentFault` lists what can be wrong with the arguments, each fault with
  what has to be right before it is looked for. `checkArguments_error_iff` says
  that the check finds exactly these.
* A program that moves the parts of a call walks its body twice: it counts the
  steps as the body stands (`countSteps`), and then takes the body to pieces
  without looking again whether they fit (`takeSteps`). `dismantle` is this,
  with no result where the second walk meets something that the first one should
  have refused. That never happens: `dismantle_eq` says that it gives what
  `decompose` gives.

`decompose_accepts_accessors` puts this together.
-/

namespace NullGuard.Chain

open NullGuard.Text (Span)
open NullGuard.Tree
open NullGuard.Transform (Rejection ChainPolicy)

/-- The nodes that lead from a body to its leaf, from the outside in. -/
def spineNodes : Node → List Node
  | .node .member s [object, property] =>
    .node .member s [object, property] :: spineNodes object
  | .node .call s [callee, .node .list l arguments, typeArguments] =>
    .node .call s [callee, .node .list l arguments, typeArguments] ::
      spineNodes callee
  | .node .paren s [inner] => .node .paren s [inner] :: spineNodes inner
  | n => [n]

/-- Where a property uses the value of a name: nowhere but in a key in
brackets. -/
def keyUses (name : String) : Node → List (Option Span)
  | .node .computed _ [key] => uses name key
  | _ => []

/-- What is wrong with one node on the way to the parameter, whatever stands
inside of it. -/
def nodeFault (policy : ChainPolicy) (parameter : String) :
    Node → Option Rejection
  | .node .member _ [_, property] =>
    (keyUses parameter property).head?.map (.shape .parameterEscapes)
  | .node .call s [callee, .node .list _ arguments, _] =>
    if policy = .strict || isSpecialCallee callee
      then some (.shape (bodyFault policy) s)
    else (usesAmong parameter arguments).head?.map (.shape .parameterEscapes)
  | .node .paren _ [_] => none
  | .node (.ident n) s _ =>
    if n = parameter then none else some (.shape .parameterMismatch s)
  | n => some (.shape (bodyFault policy) n.span)

/-- The number of steps of a body, from the outside in, on top of those that
were counted before. Each node is checked when the walk comes to it. -/
def countSteps (policy : ChainPolicy) (parameter : String) (count : Nat) :
    Node → Except Rejection Nat
  | .node .member _ [object, property] => do
    refuse (keyUses parameter property)
    countSteps policy parameter (count + 1) object
  | .node .call s [callee, .node .list _ arguments, _] => do
    if policy = .strict || isSpecialCallee callee then
      .error (.shape (bodyFault policy) s)
    else
      refuse (usesAmong parameter arguments)
      countSteps policy parameter (count + 1) callee
  | .node .paren _ [inner] => countSteps policy parameter count inner
  | .node (.ident n) s _ =>
    if n = parameter then .ok count else .error (.shape .parameterMismatch s)
  | n => .error (.shape (bodyFault policy) n.span)

/-- The steps of a body in front of those that were taken before. Nothing is
checked: the walk ends at the first node that is no step. -/
def takeSteps (taken : List Step) : Node → List Step
  | .node .member _ [object, property] =>
    takeSteps (.member property :: taken) object
  | .node .call _ [callee, .node .list _ arguments, typeArguments] =>
    if isSpecialCallee callee then taken
      else takeSteps (.call arguments typeArguments :: taken) callee
  | .node .paren _ [inner] => takeSteps taken inner
  | _ => taken

/-- The base and the steps of arguments that nothing is checked of, or nothing
where they are not what is expected: two of them, the second one a function with
an arrow and an expression behind it. -/
def takeParts : List Node → Option (Node × List Step)
  | [base, callback] =>
    match (argument callback).1.stripParens with
    | .node (.arrow _) _ (_ :: body :: _) =>
      if body.kind = .block then none
        else some ((argument base).1, takeSteps [] body)
    | _ => none
  | _ => none

/-- A call taken apart in two walks, or nothing if arguments that passed the
check are not what the second walk expects. -/
def dismantle (policy : ChainPolicy) (span : Option Span)
    (arguments : List Node) :
    Except Rejection (Option AccessChain) := do
  let call ← checkArguments span arguments
  let _ ← countSteps policy call.parameter 0 call.body
  return (takeParts arguments).map fun (base, steps) => ⟨base, steps, span⟩

/-- The step that a node on the way to the parameter is, if it is one. -/
def nodeStep : Node → Option Step
  | .node .member _ [_, property] => some (.member property)
  | .node .call _ [_, .node .list _ arguments, typeArguments] =>
    some (.call arguments typeArguments)
  | _ => none

/-- The property accesses and calls on the way to the parameter, from the inside
out. -/
def spineSteps (body : Node) : List Step :=
  ((spineNodes body).filterMap nodeStep).reverse

/-- A step applied to a value. -/
def Step.apply (object : Node) : Step → Node
  | member property => made .member [object, property]
  | call arguments typeArguments =>
    made .call [object, .ofList arguments, typeArguments]

/-- A body without the parentheses on the way to its leaf, where only the parts
of steps keep their places. -/
def bareBody : Node → Node
  | .node .member _ [object, property] =>
    made .member [bareBody object, property]
  | .node .call _ [callee, .node .list _ arguments, typeArguments] =>
    made .call [bareBody callee, .ofList arguments, typeArguments]
  | .node .paren _ [inner] => bareBody inner
  | .node (.ident n) _ _ => made (.ident n) []
  | n => n

section Walks

variable {policy : ChainPolicy} {parameter : String} {body : Node}
  {steps : List Step}

/-- Failing with a fault is having it. -/
theorem same_error_iff {α : Type} {fault e : Rejection} :
    (Except.error fault : Except Rejection α) = .error e ↔
      some fault = some e := by
  rw [Except.error.injEq, Option.some.injEq]

/-- One more step behind those that a walk finds. -/
theorem snoc_error_iff {rest : Except Rejection (List Step)} {step : Step}
    {e : Rejection} :
    (do return (← rest) ++ [step]) = .error e ↔ rest = .error e := by
  cases rest with
  | error e' => exact Iff.rfl
  | ok steps => exact iff_of_false nofun nofun

/-- A property is refused for its key. -/
theorem spine_member (s : Option Span) (object property : Node) :
    spine policy parameter (.node .member s [object, property]) = do
      refuse (keyUses parameter property)
      return (← spine policy parameter object) ++ [.member property] := by
  unfold keyUses
  split
  case h_1 => rw [spine]
  case h_2 notComputed =>
    rw [spine]
    · rfl
    · assumption

/-- The count of the steps that a walk finds, where one more is behind them. -/
theorem map_snoc (rest : Except Rejection (List Step)) (step : Step)
    (count : Nat) :
    (do return (← rest) ++ [step] : Except Rejection (List Step)).map
      (count + ·.length) = rest.map (count + 1 + ·.length) := by
  cases rest with
  | error e => rfl
  | ok steps =>
    refine congrArg Except.ok ?_
    simp only [List.length_append, List.length_singleton]
    omega

/-- The walk that counts goes where the one that collects goes. -/
theorem countSteps_eq (count : Nat) :
    countSteps policy parameter count body =
      (spine policy parameter body).map (count + ·.length) := by
  fun_induction countSteps policy parameter count body with
  | case1 count s object property ih =>
    rw [spine_member]
    cases refuse (keyUses parameter property) with
    | error e => rfl
    | ok u => exact ih.trans (map_snoc _ _ _).symm
  | case2 count s callee l arguments typeArguments banned =>
    rw [spine, if_pos banned]
    rfl
  | case3 count s callee l arguments typeArguments allowed ih =>
    rw [spine, if_neg allowed]
    cases refuse (usesAmong parameter arguments) with
    | error e => rfl
    | ok u => exact ih.trans (map_snoc _ _ _).symm
  | case4 count s inner ih => rw [ih, spine]
  | case5 count s ns =>
    rw [spine, if_pos rfl]
    rfl
  | case6 count n s ns other =>
    rw [spine, if_neg other]
    rfl
  | case7 count n notMember notCall notParen notIdent =>
    rw [spine]
    · rfl
    all_goals assumption

/-- The walk that takes does what the one that checks says. -/
theorem Spine.takeSteps_eq (walked : Spine policy parameter body steps)
    (taken : List Step) :
    takeSteps taken body = steps ++ taken := by
  induction walked generalizing taken with
  | leaf s ns => rfl
  | paren s rest ih => rw [takeSteps, ih]
  | member s clean rest ih =>
    rw [takeSteps, ih, List.append_assoc, List.singleton_append]
  | call s l permissive ordinary clean rest ih =>
    rw [takeSteps, ordinary, if_neg Bool.false_ne_true, ih, List.append_assoc,
      List.singleton_append]

/-- The steps are the property accesses and the calls on the way. -/
theorem Spine.eq_spineSteps (walked : Spine policy parameter body steps) :
    steps = spineSteps body := by
  induction walked with
  | leaf s ns => rfl
  | paren s rest ih => exact ih
  | member s clean rest ih | call s l permissive ordinary clean rest ih =>
    rw [ih]
    exact List.reverse_cons.symm

/-- The steps lead from the parameter to the body. -/
theorem Spine.foldl_apply (walked : Spine policy parameter body steps) :
    steps.foldl Step.apply (made (.ident parameter) []) = bareBody body := by
  induction walked with
  | leaf s ns => rfl
  | paren s rest ih => rw [ih, bareBody]
  | member s clean rest ih | call s l permissive ordinary clean rest ih =>
    rw [List.foldl_append, ih, bareBody]
    rfl

/-- **The fault of a body is the one of the outermost node that has one.** -/
theorem spine_error_iff {e : Rejection} :
    spine policy parameter body = .error e ↔
      (spineNodes body).findSome? (nodeFault policy parameter) = some e := by
  fun_induction countSteps policy parameter 0 body with
  | case1 count s object property ih =>
    rw [spine_member, spineNodes, List.findSome?_cons, nodeFault]
    cases keyUses parameter property with
    | nil => exact snoc_error_iff.trans ih
    | cons place places => exact same_error_iff
  | case2 count s callee l arguments typeArguments banned =>
    rw [spine, if_pos banned, spineNodes, List.findSome?_cons, nodeFault,
      if_pos banned]
    exact same_error_iff
  | case3 count s callee l arguments typeArguments allowed ih =>
    rw [spine, if_neg allowed, spineNodes, List.findSome?_cons, nodeFault,
      if_neg allowed]
    cases usesAmong parameter arguments with
    | nil => exact snoc_error_iff.trans ih
    | cons place places => exact same_error_iff
  | case4 count s inner ih =>
    rw [spine, ih, spineNodes, List.findSome?_cons, nodeFault]
  | case5 count s ns =>
    simp [spine, spineNodes, nodeFault]
  | case6 count n s ns other =>
    simp [spine, spineNodes, nodeFault, other]
  | case7 count n notMember notCall notParen notIdent =>
    have alone : spineNodes n = [n] := by
      rw [spineNodes] <;> assumption
    rw [spine, alone, List.findSome?_cons, nodeFault]
    · exact same_error_iff
    all_goals assumption

end Walks

/-- A function with an arrow, with a body. -/
def IsArrow (n : Node) : Prop :=
  ∃ isAsync s l parameters body rest, n =
    .node (.arrow isAsync) s (.node .list l parameters :: body :: rest)

/-- What can be wrong with the arguments of a call. A fault is looked for only
where those before it are not found. -/
inductive ArgumentFault (span : Option Span) :
    List Node → Rejection → Prop where
  /-- There are not two arguments. -/
  | count {arguments : List Node} (other : arguments.length ≠ 2) :
      ArgumentFault span arguments (.arity span)
  /-- The base is spread. -/
  | spread {base callback : Node} (isSpread : (argument base).2 = true) :
    ArgumentFault span [base, callback] (.arity span)
  /-- The callback is spread, or no function with an arrow. -/
  | notArrow {base callback : Node} (given : (argument base).2 = false)
      (other : (argument callback).2 = true ∨
        ¬ IsArrow (argument callback).1.stripParens) : 
    ArgumentFault span [base, callback]
      (.shape .notArrow (argument callback).1.span)
  /-- The callback has statements for a body. -/
  | blockBody {base callback body : Node} {isAsync : Bool} {s l : Option Span}
      {parameters rest : List Node} (given : (argument base).2 = false)
      (callbackGiven : (argument callback).2 = false)
      (isArrow : callback.stripParens =
        .node (.arrow isAsync) s (.node .list l parameters :: body :: rest))
      (isBlock : body.kind = .block) :
      ArgumentFault span [base, callback] (.shape .blockBody body.span)
  /-- The callback has not one parameter. -/
  | parameterCount {base callback body : Node} {isAsync : Bool}
      {s l : Option Span} {parameters rest : List Node}
      (given : (argument base).2 = false)
      (callbackGiven : (argument callback).2 = false)
      (isArrow : callback.stripParens =
        .node (.arrow isAsync) s (.node .list l parameters :: body :: rest))
      (notBlock : body.kind ≠ .block) (other : parameters.length ≠ 1) : 
    ArgumentFault span [base, callback] (.shape .parameterCount s)
  /-- The parameter of the callback is not a name. -/
  | parameterNotName {base callback body parameter : Node} {isAsync : Bool}
      {s l : Option Span} {rest : List Node} (given : (argument base).2 = false)
      (callbackGiven : (argument callback).2 = false)
      (isArrow : callback.stripParens =
        .node (.arrow isAsync) s (.node .list l [parameter] :: body :: rest))
      (notBlock : body.kind ≠ .block)
      (notName : ∀ name isOptional s ns, parameter ≠
        .node (.bindingIdent name isOptional) s ns) : 
    ArgumentFault span [base, callback]
      (.shape .parameterNotName parameter.span)

section Arguments

variable {span : Option Span} {arguments : List Node} {call : HelperCall}
  {e : Rejection}

/-- An argument that is not spread is given as it stands. -/
theorem argument_of_not_spread {n : Node} (given : (argument n).2 = false) :
    argument n = (n, false) := by
  cases same : argument n with
  | mk m isSpread =>
    rw [same] at given
    cases given
    rw [argument_eq_self same]

/-- A fault of the arguments is found. -/
theorem ArgumentFault.error (fault : ArgumentFault span arguments e) :
    checkArguments span arguments = .error e := by
  cases fault with
  | count other =>
    match arguments, other with
    | [], _ | [_], _ | _ :: _ :: _ :: _, _ => rfl
  | @spread base callback isSpread =>
    cases given : argument base with
    | mk b isSpread' =>
      rw [given] at isSpread
      cases isSpread
      simp only [checkArguments, given]
  | @notArrow base callback given other =>
    simp only [checkArguments, argument_of_not_spread given]
    split
    case h_1 a s l parameters body rest isArrow =>
      rw [if_pos (other.resolve_right fun none =>
        none ⟨a, s, l, parameters, body, rest, isArrow⟩)]
    case h_2 => rfl
  | blockBody given callbackGiven isArrow isBlock =>
    simp only [checkArguments, argument_of_not_spread given,
      argument_of_not_spread callbackGiven, isArrow, if_pos isBlock,
      Bool.false_eq_true, if_false]
  | @parameterCount base callback body a s l parameters rest given callbackGiven
      isArrow notBlock other =>
    simp only [checkArguments, argument_of_not_spread given,
      argument_of_not_spread callbackGiven, isArrow, if_neg notBlock,
      Bool.false_eq_true, if_false]
    split
    case h_1 | h_2 => exact (other rfl).elim
    case h_3 => rfl
  | parameterNotName given callbackGiven isArrow notBlock notName =>
    simp only [checkArguments, argument_of_not_spread given,
      argument_of_not_spread callbackGiven, isArrow, if_neg notBlock,
      Bool.false_eq_true, if_false]

/-- Arguments in which a fault is found have it. -/
theorem ArgumentFault.of_error (h : checkArguments span arguments = .error e) :
    ArgumentFault span arguments e := by
  unfold checkArguments at h
  split at h
  case h_2 notTwo =>
    cases h
    refine .count fun two => ?_
    match arguments, two with
    | [first, second], _ => exact notTwo first second rfl
  rename_i first second
  split at h
  case h_2 notGiven =>
    cases h
    refine .spread ?_
    rw [← Bool.not_eq_false]
    exact fun given => notGiven _ (argument_of_not_spread given)
  rename_i base given
  have given : (argument first).2 = false := by rw [given]
  dsimp only at h
  split at h
  case h_2 other =>
    cases h
    exact .notArrow given (.inr fun ⟨a, s, l, parameters, body, rest,
      isArrow⟩ => other _ _ _ _ _ _ isArrow)
  rename_i isAsync s l parameters body rest isArrow
  split at h
  case isTrue isSpread =>
    cases h
    exact .notArrow given (.inl isSpread)
  rename_i callbackGiven
  rw [Bool.not_eq_true] at callbackGiven
  rw [argument_of_not_spread callbackGiven] at isArrow
  split at h
  case isTrue isBlock =>
    cases h
    exact .blockBody given callbackGiven isArrow isBlock
  rename_i notBlock
  split at h
  case h_1 => cases h
  case h_2 notName =>
    cases h
    exact .parameterNotName given callbackGiven isArrow notBlock notName
  case h_3 notName notOne =>
    cases h
    refine .parameterCount given callbackGiven isArrow notBlock fun one => ?_
    obtain ⟨parameter, rfl⟩ := List.length_eq_one_iff.1 one
    exact notOne _ rfl

/-- **The check finds exactly the first fault of the arguments.** -/
theorem checkArguments_error_iff :
    checkArguments span arguments = .error e ↔ ArgumentFault span arguments e :=
  ⟨.of_error, ArgumentFault.error⟩

end Arguments

section Calls

variable {policy : ChainPolicy} {span : Option Span} {arguments : List Node}

/-- The fault of a call is the first one of its arguments, or else the one of
the body of its callback. -/
theorem decompose_error_iff {e : Rejection} :
    decompose policy span arguments = .error e ↔
      ArgumentFault span arguments e ∨ ∃ call, HelperArguments arguments call ∧
      (spineNodes call.body).findSome? (nodeFault policy call.parameter) =
        some e := by
  have helper (call : HelperCall) : HelperArguments arguments call ↔
      checkArguments span arguments = .ok call :=
    checkArguments_ok_iff.symm
  simp only [← checkArguments_error_iff, helper, ← spine_error_iff]
  cases checked : checkArguments span arguments with
  | error fault =>
    simp only [decompose, checked, bind, Except.bind, Except.error.injEq,
      reduceCtorEq, false_and, exists_false, or_false]
  | ok call =>
    cases walked : spine policy call.parameter call.body with
    | error fault =>
      simp only [decompose, checked, walked, bind, Except.bind,
        Except.error.injEq, Except.ok.injEq, reduceCtorEq, false_or,
        exists_eq_left']
    | ok steps =>
      simp only [decompose, checked, walked, bind, Except.bind, pure,
        Except.pure, Except.ok.injEq, reduceCtorEq, false_or, exists_eq_left']

/-- What the second walk expects, the first one has seen. -/
theorem HelperArguments.takeParts_eq {call : HelperCall}
    (helper : HelperArguments arguments call) :
    takeParts arguments = some (call.base, takeSteps [] call.body) := by
  cases helper with
  | intro notSpread callbackNotSpread isArrow notBlock =>
    simp only [takeParts, notSpread, callbackNotSpread, isArrow,
      if_neg notBlock]

/-- **The two walks agree.** -/
theorem dismantle_eq :
    dismantle policy span arguments =
      (decompose policy span arguments).map some := by
  rw [dismantle, decompose]
  cases checked : checkArguments span arguments with
  | error fault => rfl
  | ok call =>
    simp only [bind, Except.bind, countSteps_eq]
    cases walked : spine policy call.parameter call.body with
    | error fault => rfl
    | ok steps =>
      have walked : Spine policy call.parameter call.body steps := .of_ok walked
      simp only [Except.map, (checkArguments_ok checked).takeParts_eq,
        walked.takeSteps_eq, List.append_nil, Option.map_some]
      rfl

/-- **A call is taken apart just if its callback leads from its parameter
through an accessor**, and otherwise the first fault is found. For any policy
and any call:

* the call is taken apart just if it has two arguments, neither of them spread,
  the second one a function with an arrow, an expression and one name for a
  parameter, and the expression is an accessor of this name that the policy
  allows;
* its steps are then the property accesses and the calls on the way to the
  parameter, from the inside out, as many as were counted before anything was
  taken; applied to the parameter, they give the body without the parentheses on
  the way;
* otherwise the error is the first fault of the arguments, or, if they have
  none, the one of the outermost node on the way that has a fault;
* and taking the parts without looking at them again always finds what it
  expects, and gives just this. -/
theorem decompose_accepts_accessors (policy : ChainPolicy) (span : Option Span)
    (arguments : List Node) :
    (∀ c, decompose policy span arguments = .ok c ↔
      ∃ call, HelperArguments arguments call ∧
      Spine policy call.parameter call.body c.steps ∧ c.base = call.base ∧
        c.span = span) ∧
      (∀ call, HelperArguments arguments call → ∀ steps, Spine policy
        call.parameter call.body steps → steps = spineSteps call.body ∧
        countSteps policy call.parameter 0 call.body = .ok steps.length ∧
        steps.foldl Step.apply (made (.ident call.parameter) []) =
          bareBody call.body) ∧
      (∀ e, decompose policy span arguments = .error e ↔ ArgumentFault span
        arguments e ∨ ∃ call, HelperArguments arguments call ∧
        (spineNodes call.body).findSome? (nodeFault policy call.parameter) =
          some e) ∧
      dismantle policy span arguments =
        (decompose policy span arguments).map some := by
  refine ⟨fun c => decompose_ok_iff,
    fun call _ steps walked => ⟨walked.eq_spineSteps, ?_, walked.foldl_apply⟩,
    fun e => decompose_error_iff, dismantle_eq⟩
  rw [countSteps_eq, walked.ok, Except.map, Nat.zero_add]

end Calls

/-- `(_.b).c` -/
def nestedAccess : Node :=
  made .member [made .paren [made .member
    [made (.ident "_") [], made (.propName "b") []]], made (.propName "c") []]

/-- `a, _ => (_.b).c` -/
def nestedAccessArguments : List Node :=
  [made (.ident "a") [], made (.arrow false) [.ofList
    [made (.bindingIdent "_" false) [.none]], nestedAccess, .none, .none]]

/-- The parentheses in the body of a callback are gone once its two steps are
applied again. -/
theorem decompose_accepts_accessors_nested :
    ∃ call steps, HelperArguments nestedAccessArguments call ∧
      Spine .strict call.parameter call.body steps ∧ countSteps .strict
      call.parameter 0 call.body = .ok steps.length ∧ steps.length = 2 ∧
      steps.foldl Step.apply (made (.ident call.parameter) []) = made .member
        [made .member [made (.ident "_") [], made (.propName "b") []],
        made (.propName "c") []] := by
  have helper : HelperArguments nestedAccessArguments
      ⟨made (.ident "a") [], "_", nestedAccess⟩ :=
    .intro rfl rfl rfl (by decide)
  obtain ⟨steps, walked⟩ : ∃ steps, Spine .strict "_" nestedAccess steps :=
    ⟨_, .of_ok rfl⟩
  obtain ⟨same, count, rebuilt⟩ := (decompose_accepts_accessors .strict none
    nestedAccessArguments).2.1 _ helper _ walked
  exact ⟨_, steps, helper, walked, count, by rw [same]; rfl, rebuilt⟩

end NullGuard.Chain
