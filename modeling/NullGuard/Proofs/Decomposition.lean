import NullGuard.Chain.Decompose

/-!
# What taking a call apart finds

`decompose` goes through a call in a fixed order and stops at the first thing
that is wrong. Here is what a call looks like where nothing is.

* `Spine` says which bodies a chain can be read off, and which chain that is:
  the parameter itself, and property accesses and calls around something of that
  kind, through any parentheses. It says nothing about order, and `spine_ok_iff`
  shows that the walk accepts exactly these bodies.
* `HelperArguments` says what the arguments of a call have to be, and
  `checkArguments_ok_iff` that this is what is checked.
* `decompose_ok_iff` puts the two together.
-/

namespace NullGuard.Chain

open NullGuard.Text (Span)
open NullGuard.Tree
open NullGuard.Transform (Rejection ChainPolicy)

/-- A body that leads from a parameter through some steps. -/
inductive Spine (policy : ChainPolicy) (parameter : String) :
    Node → List Step → Prop where
  /-- The parameter, where the walk ends. -/
  | leaf (s : Option Span) (ns : List Node) :
      Spine policy parameter (.node (.ident parameter) s ns) []
  | paren (s : Option Span) {inner : Node} {steps : List Step}
      (rest : Spine policy parameter inner steps) :
      Spine policy parameter (.node .paren s [inner]) steps
  /-- A property access; the parameter is not used in the key. -/
  | member (s : Option Span) {object property : Node} {steps : List Step}
      (clean : ∀ span key, property = .node .computed span [key] →
        uses parameter key = []) (rest : Spine policy parameter object steps) :
      Spine policy parameter (.node .member s [object, property])
        (steps ++ [.member property])
  /-- A call; the parameter is not used in the arguments. -/
  | call (s l : Option Span) {callee typeArguments : Node}
      {arguments : List Node} {steps : List Step}
      (permissive : policy = .permissive)
      (ordinary : isSpecialCallee callee = false)
      (clean : usesAmong parameter arguments = [])
      (rest : Spine policy parameter callee steps) :
      Spine policy parameter (.node .call s [callee, .node .list l arguments,
        typeArguments]) (steps ++ [.call arguments typeArguments])

/-- Nothing is refused where a name is not used. -/
theorem refuse_ok_iff {spans : List (Option Span)} {u : Unit} :
    refuse spans = .ok u ↔ spans = [] := by
  cases spans with
  | nil => exact iff_of_true rfl rfl
  | cons s spans => exact iff_of_false nofun nofun

/-- A step of the walk in front of another one succeeds if both do. -/
theorem bind_ok {ε α β : Type} {first : Except ε α} {next : α → Except ε β}
    {b : β} (h : first >>= next = .ok b) :
    ∃ a, first = .ok a ∧ next a = .ok b := by
  cases first with
  | error e => cases h
  | ok a => exact ⟨a, rfl, h⟩

/-- The policy allows calls and the callee is an expression, unless the walk
stops there. -/
theorem call_allowed {policy : ChainPolicy} {callee : Node}
    (h : ¬ (decide (policy = .strict) || isSpecialCallee callee) = true) :
    policy = .permissive ∧ isSpecialCallee callee = false := by
  cases policy with
  | strict => exact absurd rfl h
  | permissive => exact ⟨rfl, by simpa using h⟩

/-- The walk only accepts bodies that a chain can be read off. -/
theorem Spine.of_ok {policy : ChainPolicy} {parameter : String} {body : Node}
    {steps : List Step} (h : spine policy parameter body = .ok steps) :
    Spine policy parameter body steps := by
  fun_induction spine policy parameter body generalizing steps with
  | case1 s object span key _ =>
    rename_i ih
    obtain ⟨_, unused, h⟩ := bind_ok h
    obtain ⟨front, walked, h⟩ := bind_ok h
    cases h
    refine .member s (fun span' key' same => ?_) (ih walked)
    cases same
    exact refuse_ok_iff.1 unused
  | case2 s object property _ notComputed =>
    rename_i ih
    obtain ⟨front, walked, h⟩ := bind_ok h
    cases h
    exact .member s (fun span key same => (notComputed span key same).elim)
      (ih walked)
  | case3 => cases h
  | case4 s callee l arguments typeArguments allowed ih =>
    obtain ⟨_, unused, h⟩ := bind_ok h
    obtain ⟨front, walked, h⟩ := bind_ok h
    cases h
    obtain ⟨permissive, ordinary⟩ := call_allowed allowed
    exact .call s l permissive ordinary (refuse_ok_iff.1 unused) (ih walked)
  | case5 s inner ih => exact .paren s (ih h)
  | case6 s ns =>
    cases h
    exact .leaf s ns
  | case7 => cases h
  | case8 => cases h

/-- The walk accepts every body that a chain can be read off. -/
theorem Spine.ok {policy : ChainPolicy} {parameter : String} {body : Node}
    {steps : List Step} (h : Spine policy parameter body steps) :
    spine policy parameter body = .ok steps := by
  induction h with
  | leaf s ns => rw [spine, if_pos rfl]
  | paren s rest ih => rw [spine, ih]
  | @member s object property steps clean rest ih =>
    unfold spine
    rw [ih]
    split
    · rename_i span key
      rw [clean span key rfl]
      rfl
    · rfl
  | call s l permissive ordinary clean rest ih =>
    rw [spine, ih, clean, ordinary, permissive]
    rfl

/-- **The walk accepts exactly the bodies that a chain can be read off**, and
reads off that chain. -/
theorem spine_ok_iff {policy : ChainPolicy} {parameter : String} {body : Node}
    {steps : List Step} :
    spine policy parameter body = .ok steps ↔
      Spine policy parameter body steps :=
  ⟨.of_ok, Spine.ok⟩

/-- The arguments of a call that has a base, and a callback with a parameter and
a body. -/
inductive HelperArguments : List Node → HelperCall → Prop where
  | intro {base callback body : Node} {name : String}
      {isAsync isOptional : Bool} {s l i : Option Span}
      {ascription rest : List Node} (notSpread : argument base = (base, false))
      (callbackNotSpread : argument callback = (callback, false))
      (isArrow : callback.stripParens = .node (.arrow isAsync) s (.node .list l
        [.node (.bindingIdent name isOptional) i ascription] :: body :: rest))
      (notBlock : body.kind ≠ .block) :
      HelperArguments [base, callback] ⟨base, name, body⟩

/-- An argument that is not spread is its own expression. -/
theorem argument_eq_self {n m : Node} (h : argument n = (m, false)) :
    m = n := by
  unfold argument at h
  split at h
  · cases h
  · exact (Prod.mk.inj h).1.symm

/-- Arguments that pass the check are what a call of the helper must have. -/
theorem checkArguments_ok {span : Option Span} {arguments : List Node}
    {call : HelperCall} (h : checkArguments span arguments = .ok call) :
    HelperArguments arguments call := by
  unfold checkArguments at h
  split at h
  case h_2 => cases h
  rename_i first second
  split at h
  case h_2 => cases h
  rename_i base given
  cases argument_eq_self given
  cases callbackGiven : argument second with
  | mk callback isSpread =>
    rw [callbackGiven] at h
    dsimp only at h
    split at h
    case h_2 => cases h
    rename_i isAsync s l parameters body rest isArrow
    split at h
    case isTrue => cases h
    rename_i plain
    rw [Bool.not_eq_true] at plain
    subst plain
    cases argument_eq_self callbackGiven
    split at h
    case isTrue => cases h
    rename_i notBlock
    split at h
    case h_1 =>
      cases h
      exact .intro given callbackGiven isArrow notBlock
    case h_2 => cases h
    case h_3 => cases h

/-- Arguments that a call of the helper must have pass the check. -/
theorem HelperArguments.ok {span : Option Span} {arguments : List Node}
    {call : HelperCall} (helper : HelperArguments arguments call) :
    checkArguments span arguments = .ok call := by
  cases helper with
  | intro notSpread callbackNotSpread isArrow notBlock =>
    simp only [checkArguments, notSpread, callbackNotSpread, isArrow,
      if_neg notBlock, Bool.false_eq_true, if_false]

/-- **The check passes exactly the arguments that a call of the helper must
have.** -/
theorem checkArguments_ok_iff {span : Option Span} {arguments : List Node}
    {call : HelperCall} :
    checkArguments span arguments = .ok call ↔ HelperArguments arguments call :=
  ⟨checkArguments_ok, HelperArguments.ok⟩

/-- The arguments and the body of a call that is taken apart. -/
theorem decompose_ok {policy : ChainPolicy} {span : Option Span}
    {arguments : List Node} {c : AccessChain}
    (h : decompose policy span arguments = .ok c) :
    ∃ call, HelperArguments arguments call ∧ Spine policy call.parameter
      call.body c.steps ∧ c.base = call.base ∧ c.span = span := by
  obtain ⟨call, checked, h⟩ := bind_ok h
  obtain ⟨steps, walked, h⟩ := bind_ok h
  cases h
  exact ⟨call, checkArguments_ok checked, .of_ok walked, rfl, rfl⟩

/-- **The chain of a call is its base with the steps of its callback**, and a
call is taken apart where there is one. -/
theorem decompose_ok_iff {policy : ChainPolicy} {span : Option Span}
    {arguments : List Node} {c : AccessChain} :
    decompose policy span arguments = .ok c ↔
      ∃ call, HelperArguments arguments call ∧
      Spine policy call.parameter call.body c.steps ∧ c.base = call.base ∧
        c.span = span := by
  refine ⟨decompose_ok, fun ⟨call, helper, walked, base, place⟩ => ?_⟩
  simp only [decompose, helper.ok, walked.ok, bind, Except.bind, pure,
    Except.pure, ← base, ← place]

/-- Grouping steps into levels keeps the steps and their order. -/
theorem flatMap_steps_levels (steps : List Step) :
    (levels steps).flatMap Level.steps = steps := by
  fun_induction levels steps with
  | case1 => rfl
  | case2 property arguments typeArguments rest ih | case3 property rest _ ih
  | case4 arguments typeArguments rest ih =>
    rw [List.flatMap_cons, ih]
    rfl

end NullGuard.Chain
