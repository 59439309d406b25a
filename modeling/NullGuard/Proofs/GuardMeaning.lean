import NullGuard.Chain.Guard
import NullGuard.Proofs.Decomposition
import NullGuard.Proofs.Evaluator
import NullGuard.Proofs.FailureMessages
import NullGuard.Proofs.FreshNames

/-!
# A guarded chain does what the helper does

Two mechanisms take care of absent values. The helper runs the steps of a chain
one after the other; if one of them fails, it looks at the message of the
failure. The guarded expression compares the value in front of each level with
`null` and goes on only if there is one.

The proof follows the levels. Between two levels both sides have the same value
in hand, and the guarded side has it in its temporary as well, so the invariant
is about `resume`: what is left to do for the guarded expression once a value is
in hand. `resume_levels` says that it ends as the remaining steps end when the
helper settles them. `evaluate_expression_upTo_temporary` puts the base in
front.
-/

namespace NullGuard.Evaluation

open NullGuard.Tree
open NullGuard.Chain
open NullGuard.Access
  (Absent Engine Thrown Outcome Classifier safeAccess nullWords)
open NullGuard.Scope (NameSupply)

variable {R : Realm} {α β : Type} (H : Host R)

/-- Applies a step to what a focus is on. -/
def applyStep : Step → Focus R → State R → Run R (Focus R)
  | .member property, f, s =>
    (evaluateKey H property s).bind fun key s => f.read H key s
  | .call arguments _, f, s =>
    (evaluateAll H arguments s).bind fun vs s => f.invoke H vs s

/-- Applies steps from first to last. -/
def applySteps : List Step → Focus R → State R → Run R (Focus R)
  | [], f, s => .done f s
  | step :: rest, f, s => (applyStep H step f s).bind (applySteps rest)

/-- Steps in two parts. -/
theorem applySteps_append (front back : List Step) (f : Focus R) (s : State R) :
    applySteps H (front ++ back) f s =
      (applySteps H front f s).bind (applySteps H back) := by
  induction front generalizing f s with
  | nil => rfl
  | cons step front ih =>
    simp only [List.cons_append, applySteps, Run.bind_assoc]
    congr 1
    funext f s
    exact ih f s

/-- **The accessor is the callback.** Where the parameter of a callback has a
value, running the body is applying the steps that are read off it. -/
theorem evaluate_spine {policy : Transform.ChainPolicy} {parameter : String}
    {body : Node} {steps : List Step}
    (walked : Spine policy parameter body steps)
    (named : parameter ≠ "undefined") {s : State R} {v : Value R}
    (bound : s.values parameter = some v) :
    evaluate H body s = applySteps H steps (.plain v) s := by
  induction walked with
  | leaf span ns =>
    simp only [evaluate, lookUp, if_neg named, bound]
    rfl
  | paren span rest ih => rw [evaluate, ih]
  | member span clean rest ih =>
    rw [evaluate, ih, applySteps_append]
    congr 1
    funext f s
    exact (Run.bind_done_right _).symm
  | call span l permissive ordinary clean rest ih =>
    rw [evaluate, ih, applySteps_append]
    congr 1
    funext f s
    exact (Run.bind_done_right _).symm

/-- The helper on an input and an accessor. -/
def helper (input : Value R) (accessor : Value R → Run R (Value R)) :
    Run R (Value R) :=
  match accessor input with
  | .done v s =>
    .ofExcept ((safeAccess .assumed input fun _ => .ok v).map Value.ofOutcome) s
  | .thrown t s =>
    .ofExcept
      ((safeAccess .assumed input fun _ => .error t).map Value.ofOutcome) s
  | .stuck => .stuck

/-- Runs the base of a chain and hands its value to the helper, with the steps
as the accessor. -/
def runHelper (c : AccessChain) (s : State R) : Run R (Value R) :=
  (evaluate H c.base s).bind fun f s =>
    helper f.value fun input =>
      (applySteps H c.steps (.plain input) s).map Focus.value

/-- What the helper makes of a run of its accessor. -/
def Run.settle (r : Run R (Value R)) : Run R (Value R) :=
  helper .undefined fun _ => r

/-- The helper's input matters only to its accessor. -/
theorem helper_eq_settle (input : Value R)
    (accessor : Value R → Run R (Value R)) :
    helper input accessor = (accessor input).settle := by
  simp only [helper, Run.settle]
  cases accessor input <;> rfl

@[simp] theorem Run.settle_done (v : Value R) (s : State R) :
    (Run.done v s).settle = .done v s :=
  rfl

@[simp] theorem Run.settle_stuck :
    (Run.stuck : Run R (Value R)).settle = .stuck :=
  rfl

/-- An error that the classifier does not know goes through. -/
theorem Run.settle_thrown {t : Thrown} (s : State R)
    (unknown : ∀ message, t = .typeError message →
      Classifier.assumed.classify? message = none) :
    (Run.thrown t s : Run R (Value R)).settle = .thrown t s := by
  cases t with
  | typeError message =>
    simp only [settle, helper, safeAccess, unknown message rfl,
      Except.map, ofExcept]
  | error name message => rfl

/-- A failed read from an absent value becomes that value. -/
theorem Run.settle_readFailure (absent : Absent) {key : String}
    (plain : ¬ nullWords <:+: key.toList) (s : State R) :
    (Run.thrown (.typeError (Engine.assumed.readFailure absent "" key))
      s).settle = .done (Value.ofAbsent absent) s := by
  have known : Classifier.assumed.classify?
      (Engine.assumed.readFailure absent "" key) = some absent := by
    cases absent with
    | null => exact Access.classify_readFailure_null "" key
    | undefined => exact Access.classify_readFailure_undefined "" key plain
  simp only [settle, helper, safeAccess, known, Except.map,
    Value.ofOutcome, ofExcept]

/-- Reading from an absent value fails. -/
theorem Focus.read_of_absent {f : Focus R} {absent : Absent}
    (h : f.value.absent? = some absent) (key : String) (s : State R) :
    f.read H key s =
      .thrown (.typeError (Engine.assumed.readFailure absent "" key)) s := by
  have value := Value.eq_ofAbsent h
  cases absent <;> simp only [read, value, Value.ofAbsent, Value.get,
    Run.ofExcept, Run.map_thrown]

/-- Reading from any other value gives something. -/
theorem Focus.read_of_present {f : Focus R} (h : f.value.isAbsent = false)
    (key : String) (s : State R) :
    ∃ v, f.read H key s = .done ⟨v, f.value, key⟩ s := by
  have readable : ∃ v, f.value.get H key = .ok v := by
    cases value : f.value with
    | undefined | null =>
      rw [value] at h
      cases h
    | _ => exact ⟨_, rfl⟩
  obtain ⟨v, got⟩ := readable
  exact ⟨v, by simp only [read, got, Run.ofExcept, Run.map_done]⟩

/-- What a call gives was not read from anywhere. -/
theorem Focus.invoke_plain {f g : Focus R} {vs : List (Value R)}
    {s s' : State R} (h : f.invoke H vs s = .done g s') :
    g = .plain g.value := by
  unfold invoke at h
  split at h
  · split at h
    · rename_i result world _
      cases result with
      | error t => cases h
      | ok v =>
        simp only [Run.ofExcept, Run.map_done, Run.done.injEq] at h
        rw [← h.1]
        rfl
    · cases h
  · cases h

/-- The same run in other states. -/
def Run.mapState (g : State R → State R) : Run R α → Run R α
  | done a s => done a (g s)
  | thrown t s => thrown t (g s)
  | stuck => stuck

/-- A state without one of its variables. -/
def State.forget (name : String) (s : State R) : State R :=
  { s with values := fun n => if n = name then none else s.values n }

/-- A run up to the value of a variable. -/
def Run.upTo (name : String) (r : Run R α) : Run R α :=
  r.mapState (·.forget name)

@[simp] theorem State.forget_set (s : State R) (name : String) (v : Value R) :
    (s.set name v).forget name = s.forget name := by
  simp only [forget, set, State.mk.injEq, and_true]
  funext n
  split <;> rfl

@[simp] theorem Run.upTo_done (name : String) (a : α) (s : State R) :
    (done a s).upTo name = done a (s.forget name) :=
  rfl

@[simp] theorem Run.upTo_thrown (name : String) (t : Thrown) (s : State R) :
    (thrown t s : Run R α).upTo name = thrown t (s.forget name) :=
  rfl

@[simp] theorem Run.upTo_stuck (name : String) :
    (stuck : Run R α).upTo name = stuck :=
  rfl

section

variable {temp : String} (named : temp ≠ "undefined")

include named

/-- The temporary has the value it was given. -/
theorem evaluate_temporary (s : State R) (v : Value R) :
    evaluate H (temporary temp) (s.set temp v) =
      .done (.plain v) (s.set temp v) := by
  simp only [temporary, made, evaluate, lookUp, if_neg named,
    State.values_set_self]
  rfl

/-- **A guard**: the value goes into the temporary, and if it is absent it is
all there is. -/
theorem evaluate_guarded (span : Option Text.Span) (value more : Node)
    (s : State R) :
    (evaluate H (guarded span temp value more) s).map Focus.value =
      (evaluate H value s).bind fun f s => if f.value.isAbsent
      then .done f.value (s.set temp f.value)
      else (evaluate H more (s.set temp f.value)).map Focus.value := by
  simp only [guarded, made, parenthesized, temporary, evaluate, comparison?]
  cases evaluate H value s with
  | thrown t s => rfl
  | stuck => rfl
  | done f s =>
    have read := evaluate_temporary H named s f.value
    simp only [temporary, made, evaluate] at read
    cases absent : f.value.isAbsent with
    | true => simp [Focus.plain, Value.isTrue, absent, read]
    | false =>
      simp only [Run.bind_done, Focus.plain, Value.looselyEqual_null, absent,
        Value.isTrue, beq_self_eq_true, Bool.false_eq_true, ↓reduceIte]
      cases evaluate H more (s.set temp f.value) <;> rfl

/-- A level applied to the temporary is the level's steps applied to its
value. -/
theorem evaluate_apply (level : Level) (s : State R) (v : Value R) :
    evaluate H (level.apply (temporary temp)) (s.set temp v) =
      applySteps H level.steps (.plain v) (s.set temp v) := by
  have read := evaluate_temporary H named s v
  cases level with
  | member property =>
    simp only [Level.apply, Level.steps, made, evaluate, read, applySteps,
      applyStep, Run.bind_done, Run.bind_done_right]
  | call arguments typeArguments =>
    simp only [Level.apply, Level.steps, made, Node.ofList, evaluate, read,
      applySteps, applyStep, Run.bind_done, Run.bind_done_right]
  | method property arguments typeArguments =>
    simp only [Level.apply, Level.steps, made, Node.ofList, evaluate, read,
      applySteps, applyStep, Run.bind_done, Run.bind_done_right]

end

/-- A step of a chain on the way, with what it is applied to. -/
structure Visit (R : Realm) where
  step : Step
  focus : Focus R
  state : State R
  /-- Whether the step before it was a property access. -/
  behindMember : Bool

/-- Whether a step is a property access. -/
def isAccess : Step → Bool
  | .member _ => true
  | .call _ _ => false

/-- The steps that are come to, up to one that fails. -/
def visits : List Step → Focus R → State R → Bool → List (Visit R)
  | [], _, _, _ => []
  | step :: rest, f, s, behindMember =>
    ⟨step, f, s, behindMember⟩ ::
      match applyStep H step f s with
      | .done f s => visits rest f s (isAccess step)
      | _ => []

/-- A part that runs to its end, changes nothing, and gives the same whatever a
certain variable holds. -/
def Quiet (temp : String) (s : State R) (run : State R → Run R α) : Prop :=
  ∃ a, run s = .done a s ∧ ∀ v, run (s.set temp v) = .done a (s.set temp v)

/-- The parts of a step are quiet. -/
def QuietStep (temp : String) (s : State R) : Step → Prop
  | .member property => Quiet temp s (evaluateKey H property)
  | .call arguments _ => Quiet temp s (evaluateAll H arguments)

/-- Steps whose parts do nothing but give a value, which call only what is
there, and whose calls and keys do not speak the language of failed reads. -/
structure Orderly (temp : String) (steps : List Step) (f : Focus R)
    (s : State R) (behindMember : Bool) : Prop where
  /-- Keys and arguments run normally, have no effects and do not depend on the
  temporary. -/
  quiet : ∀ v ∈ visits H steps f s behindMember, QuietStep H temp v.state v.step
  /-- A call that is not right behind a property access is of a value that is
  there. -/
  present : ∀ v ∈ visits H steps f s behindMember, isAccess v.step = false →
    v.behindMember = false → v.focus.value.isAbsent = false
  /-- No error thrown by a call is one that the classifier knows. -/
  reported : ∀ v ∈ visits H steps f s behindMember, isAccess v.step = false →
    ∀ message after, applyStep H v.step v.focus v.state = .thrown
    (.typeError message) after → Classifier.assumed.classify? message = none
  /-- No key repeats the opening words of a failed read from `null`. -/
  keys : ∀ v ∈ visits H steps f s behindMember, ∀ property, v.step =
    .member property → ∀ key after, evaluateKey H property v.state =
    .done key after → ¬ nullWords <:+: key.toList

variable {H} {temp : String}

/-- What holds of all steps holds of the ones behind the first. -/
theorem Orderly.tail {step : Step} {rest : List Step} {f g : Focus R}
    {s s' : State R} {b : Bool} (orderly : Orderly H temp (step :: rest) f s b)
    (ran : applyStep H step f s = .done g s') :
    Orderly H temp rest g s' (isAccess step) := by
  have within : ∀ v ∈ visits H rest g s' (isAccess step),
      v ∈ visits H (step :: rest) f s b := by
    intro v h
    simp only [visits, ran]
    exact List.mem_cons_of_mem _ h
  exact {
    quiet := fun v h => orderly.quiet v (within v h)
    present := fun v h => orderly.present v (within v h)
    reported := fun v h => orderly.reported v (within v h)
    keys := fun v h => orderly.keys v (within v h) }

/-- The first step is come to. -/
theorem mem_visits (step : Step) (rest : List Step) (f : Focus R) (s : State R)
    (b : Bool) :
    ⟨step, f, s, b⟩ ∈ visits H (step :: rest) f s b :=
  List.mem_cons_self

/-- A call does the same whatever a variable holds. -/
theorem invoke_set (f : Focus R) (vs : List (Value R)) (s : State R)
    (v : Value R) :
    f.invoke H vs (s.set temp v) =
      (f.invoke H vs s).mapState (·.set temp v) := by
  unfold Focus.invoke
  rw [State.world_set]
  cases f.value with
  | function g =>
    dsimp only
    rcases H.call g f.receiver vs s.world
      with _ | ⟨error | result, world⟩ <;> rfl
  | _ => rfl

/-- A read does the same whatever a variable holds. -/
theorem read_set (f : Focus R) (key : String) (s : State R) (v : Value R) :
    f.read H key (s.set temp v) = (f.read H key s).mapState (·.set temp v) := by
  unfold Focus.read
  cases f.value.get H key <;> rfl

/-- A step with quiet parts does the same whatever the temporary holds. -/
theorem applyStep_set {step : Step} {s : State R}
    (quiet : QuietStep H temp s step) (f : Focus R) (v : Value R) :
    applyStep H step f (s.set temp v) =
      (applyStep H step f s).mapState (·.set temp v) := by
  cases step with
  | member property =>
    obtain ⟨key, ran, ranSet⟩ := quiet
    simp only [applyStep, ran, ranSet, Run.bind_done]
    exact read_set f key s v
  | call arguments typeArguments =>
    obtain ⟨vs, ran, ranSet⟩ := quiet
    simp only [applyStep, ran, ranSet, Run.bind_done]
    exact invoke_set f vs s v

/-- What a call gives was not read from anywhere. -/
theorem applyStep_call_plain {arguments : List Node} {typeArguments : Node}
    {f g : Focus R} {s s' : State R}
    (ran : applyStep H (.call arguments typeArguments) f s = .done g s') :
    g = .plain g.value := by
  simp only [applyStep] at ran
  cases given : evaluateAll H arguments s with
  | done vs after =>
    rw [given] at ran
    exact Focus.invoke_plain H ran
  | thrown t after =>
    rw [given] at ran
    cases ran
  | stuck =>
    rw [given] at ran
    cases ran

/-- A quiet property access of a value that is there gives something. -/
theorem applyStep_member_of_present {property : Node} {f : Focus R}
    {s : State R} (quiet : QuietStep H temp s (.member property))
    (present : f.value.isAbsent = false) :
    ∃ g, applyStep H (.member property) f s = .done g s := by
  obtain ⟨key, ran, -⟩ := quiet
  obtain ⟨v, read⟩ := f.read_of_present H present key s
  exact ⟨⟨v, f.value, key⟩, by simp only [applyStep, ran, Run.bind_done, read]⟩

variable (H temp) in
/-- What is left of a guarded expression once a value is in hand: nothing if
there are no more levels or the value is absent, else the levels applied to the
temporary. -/
def resume (ls : List Level) (f : Focus R) (s : State R) : Run R (Value R) :=
  if ls = [] then .done f.value s
  else if f.value.isAbsent then .done f.value (s.set temp f.value)
  else (evaluate H (guardedLevels temp ls) (s.set temp f.value)).map Focus.value

/-- What the temporary held before is of no matter to what is left. -/
theorem resume_set (ls : List Level) (f : Focus R) (s : State R) (v : Value R) :
    (resume H temp ls f (s.set temp v)).upTo temp =
      (resume H temp ls f s).upTo temp := by
  unfold resume
  split
  · simp
  · rw [State.set_set]

/-- Going through levels is applying the first one and going on with what is
left. -/
theorem evaluate_guardedLevels (named : temp ≠ "undefined") (level : Level)
    (ls : List Level) (s : State R) :
    (evaluate H (guardedLevels temp (level :: ls)) s).map Focus.value =
      (evaluate H (level.apply (temporary temp)) s).bind
      (resume H temp ls) := by
  cases ls with
  | nil =>
    rw [guardedLevels]
    cases evaluate H (level.apply (temporary temp)) s <;> rfl
  | cons next ls =>
    rw [guardedLevels, evaluate_guarded H named]
    · rfl
    · simp

/-- Orderly steps do the same whatever the temporary holds. -/
theorem applySteps_set {front rest : List Step} {f : Focus R} {s : State R}
    {b : Bool} (orderly : Orderly H temp (front ++ rest) f s b) (v : Value R) :
    applySteps H front f (s.set temp v) =
      (applySteps H front f s).mapState (·.set temp v) := by
  induction front generalizing f s b with
  | nil => rfl
  | cons step front ih =>
    have quiet := orderly.quiet _ (mem_visits step (front ++ rest) f s b)
    simp only [applySteps, applyStep_set quiet f v]
    cases ran : applyStep H step f s with
    | done g s' => exact ih (orderly.tail ran)
    | thrown t s' => rfl
    | stuck => rfl

/-- One level of what is left to do. -/
theorem resume_level (named : temp ≠ "undefined") {level : Level}
    {rest : List Step} {f : Focus R} {s : State R} {b : Bool}
    (orderly : Orderly H temp (level.steps ++ rest) f s b)
    (present : f.value.isAbsent = false)
    (plain : ∀ s, applySteps H level.steps (.plain f.value) s =
      applySteps H level.steps f s)
    (unknown : ∀ message s', applySteps H level.steps f s = .thrown
      (.typeError message) s' → Classifier.assumed.classify? message = none)
    (more : ∀ g s', applySteps H level.steps f s = .done g s' →
      (resume H temp (levels rest) g s').upTo temp =
      ((applySteps H rest g s').map Focus.value).settle.upTo temp) :
    (resume H temp (level :: levels rest) f s).upTo temp = ((applySteps H
      (level.steps ++ rest) f s).map Focus.value).settle.upTo temp := by
  have start : resume H temp (level :: levels rest) f s =
      ((applySteps H level.steps f s).mapState (·.set temp f.value)).bind
        (resume H temp (levels rest)) := by
    simp only [resume, present, reduceCtorEq, if_false, Bool.false_eq_true]
    rw [evaluate_guardedLevels named, evaluate_apply H named, plain,
      applySteps_set orderly]
  rw [start, applySteps_append]
  cases ran : applySteps H level.steps f s with
  | done g s' =>
    simp only [Run.mapState, Run.bind_done]
    rw [resume_set]
    exact more g s' ran
  | thrown t s' =>
    have settled := Run.settle_thrown (R := R) (t := t) s'
      fun message h => unknown message s' (h ▸ ran)
    simp only [Run.mapState, Run.bind_thrown, Run.map_thrown, settled,
      Run.upTo_thrown, State.forget_set]
  | stuck => rfl

/-- With an absent value in hand, a property access comes next, and both sides
end with that value. -/
theorem resume_absent {property : Node} {rest : List Step} {f : Focus R}
    {s : State R} {b : Bool}
    (orderly : Orderly H temp (.member property :: rest) f s b)
    {absent : Absent} (h : f.value.absent? = some absent) (ls : List Level) :
    (resume H temp ls f s).upTo temp = ((applySteps H
      (.member property :: rest) f s).map Focus.value).settle.upTo temp := by
  have visit := mem_visits (H := H) (.member property) rest f s b
  obtain ⟨key, ran, -⟩ := orderly.quiet _ visit
  have plain := orderly.keys _ visit property rfl key s ran
  have value := Value.eq_ofAbsent h
  have gone : f.value.isAbsent = true := by rw [Value.isAbsent, h]; rfl
  simp only [applySteps, applyStep, ran, Run.bind_done,
    Focus.read_of_absent H h, Run.bind_thrown, Run.map_thrown,
    Run.settle_readFailure absent plain, resume, gone, if_true, ← value]
  split <;> simp

/-- **Left to do.** Once a value is in hand, the guarded expression ends as the
remaining steps end when the helper settles them, up to the value of the
temporary. A call that comes first is not applied to what a property access
gave. -/
theorem resume_levels (named : temp ≠ "undefined") (steps : List Step)
    (f : Focus R) (s : State R) (b : Bool)
    (orderly : Orderly H temp steps f s b)
    (called : ∀ step rest, steps = step :: rest → isAccess step = false →
      f = .plain f.value ∧
      b = false) :
    (resume H temp (levels steps) f s).upTo temp =
      ((applySteps H steps f s).map Focus.value).settle.upTo temp := by
  fun_induction levels steps generalizing f s b with
  | case1 => rfl
  | case2 property arguments typeArguments rest ih =>
    cases absent : f.value.absent? with
    | some which => exact resume_absent orderly absent _
    | none =>
      have present : f.value.isAbsent = false := by
        rw [Value.isAbsent, absent]; rfl
      obtain ⟨g, accessed⟩ :=
        applyStep_member_of_present (orderly.quiet _ (mem_visits ..)) present
      have behind := orderly.tail accessed
      have level : ∀ f s, applySteps H (Level.method property arguments
          typeArguments).steps f s = (applyStep H (.member property) f s).bind
          (applyStep H (.call arguments typeArguments)) := by
        intro f s
        simp only [Level.steps, applySteps, Run.bind_done_right]
      have first : Orderly H temp ((Level.method property arguments
          typeArguments).steps ++ rest) f s b :=
        orderly
      refine resume_level named first present (fun s => rfl) ?unknown ?more
      case unknown =>
        intro message s' ran
        rw [level, accessed] at ran
        exact behind.reported _ (mem_visits ..) rfl message s' ran
      case more =>
        intro g' s' ran
        rw [level, accessed, Run.bind_done] at ran
        have next := behind.tail ran
        exact ih g' s' _ next fun _ _ _ _ => ⟨applyStep_call_plain ran, rfl⟩
  | case3 property rest alone ih =>
    cases absent : f.value.absent? with
    | some which => exact resume_absent orderly absent _
    | none =>
      have present : f.value.isAbsent = false := by
        rw [Value.isAbsent, absent]; rfl
      obtain ⟨g, accessed⟩ :=
        applyStep_member_of_present (orderly.quiet _ (mem_visits ..)) present
      have level : ∀ f s, applySteps H (Level.member property).steps f s =
          applyStep H (.member property) f s := fun f s => Run.bind_done_right _
      have first : Orderly H temp
          ((Level.member property).steps ++ rest) f s b := orderly
      refine resume_level named first present (fun s => rfl) ?unknown ?more
      case unknown =>
        intro message s' ran
        rw [level, accessed] at ran
        cases ran
      case more =>
        intro g' s' ran
        rw [level] at ran
        refine ih g' s' _ (orderly.tail ran) fun step rest' head call => ?_
        cases step with
        | member _ => cases call
        | call arguments typeArguments => exact (alone _ _ _ head).elim
  | case4 arguments typeArguments rest ih =>
    obtain ⟨plain, rfl⟩ := called _ _ rfl rfl
    have present := orderly.present _ (mem_visits ..) rfl rfl
    have level : ∀ f s, applySteps H (Level.call arguments typeArguments).steps
        f s = applyStep H (.call arguments typeArguments) f s :=
      fun f s => Run.bind_done_right _
    have first : Orderly H temp ((Level.call arguments typeArguments).steps ++
        rest) f s false := orderly
    refine resume_level named first present
      (fun s => by rw [← plain]) ?unknown ?more
    case unknown =>
      intro message s' ran
      rw [level] at ran
      exact orderly.reported _ (mem_visits ..) rfl message s' ran
    case more =>
      intro g s' ran
      rw [level] at ran
      exact ih g s' _ (orderly.tail ran) fun _ _ _ _ =>
        ⟨applyStep_call_plain ran, rfl⟩

/-- **A guarded chain does what the helper does.** For any base, any steps, and
any temporary that the name supply gives out: the expression that replaces a
call of the helper ends as the helper ends on the value of the base with an
accessor that applies the steps, with the same value or the same error, and
leaves the same state behind but for the temporary.

The steps have to be orderly where they are come to. The base may be anything;
if it fails, both sides fail with it. -/
theorem evaluate_expression_upTo_temporary (c : AccessChain)
    (supply : NameSupply) (hint : String) (s : State R)
    (orderly : ∀ f s', evaluate H c.base s = .done f s' →
      Orderly H (supply.fresh hint).1 c.steps (.plain f.value) s' false) :
    ((evaluate H (c.expression (supply.fresh hint).1) s).map Focus.value).upTo
      (supply.fresh hint).1 = (runHelper H c s).upTo (supply.fresh hint).1 := by
  have named : (supply.fresh hint).1 ≠ "undefined" :=
    supply.fresh_ne hint (by decide)
  generalize (supply.fresh hint).1 = temp at orderly named ⊢
  have whole : (evaluate H (c.expression temp) s).map Focus.value = (evaluate H
      c.base s).bind fun f s => resume H temp (levels c.steps) f s := by
    unfold AccessChain.expression
    cases ls : levels c.steps with
    | nil =>
      simp only [parenthesized, made, evaluate]
      cases evaluate H c.base s <;> rfl
    | cons level ls =>
      have paren : ∀ n, evaluate H (parenthesized n) s = evaluate H n s :=
        fun n => by
        simp only [parenthesized, made, evaluate]
      rw [paren, evaluate_guarded H named]
      rfl
  rw [whole, runHelper]
  cases ran : evaluate H c.base s with
  | done f s' =>
    simp only [Run.bind_done, helper_eq_settle]
    have same : ∀ ls, resume H temp ls f s' =
        resume H temp ls (.plain f.value) s' := fun _ => rfl
    rw [same]
    exact resume_levels named c.steps (.plain f.value) s' false
      (orderly f s' ran) fun _ _ _ _ => ⟨rfl, rfl⟩
  | thrown t s' => rfl
  | stuck => rfl

/-- A key that is written as a word is quiet. -/
theorem quietStep_propName (word : String) (span : Option Text.Span)
    (ns : List Node) (s : State R) :
    QuietStep H temp s (.member (.node (.propName word) span ns)) :=
  ⟨word, by simp only [evaluateKey], fun _ => by simp only [evaluateKey]⟩

/-- A small host: object `0` has the property `b`, whose value is object `1`,
which has a method `find` that gives `null`. -/
def pocket : Host ⟨Unit, Nat, Nat, Nat⟩ where
  number _ := 0
  count n := n
  isTrue n := n ≠ 0
  sameNumber := (· == ·)
  sameObject := (· == ·)
  sameFunction := (· == ·)
  numberKey := toString
  objectKey _ := "[object]"
  property o key :=
    if o = 0 ∧ key = "b" then .object 1 else if o = 1 ∧ key = "find"
      then .function 0 else .undefined
  call _ _ _ w := some (.ok .null, w)
  close _ _ _ w := (0, w)

/-- `a.b.find(a).c`, taken apart. -/
def pocketChain : AccessChain :=
  ⟨made (.ident "a") [], [.member (made (.propName "b") []), .member
    (made (.propName "find") []), .call [made (.ident "a") []] Node.none,
    .member (made (.propName "c") [])], none⟩

/-- Variables among which `a` is object `0`. -/
def pocketState : State ⟨Unit, Nat, Nat, Nat⟩ :=
  ⟨fun n => if n = "a" then some (.object 0) else none, ()⟩

/-- The steps of the small chain are orderly. -/
theorem pocket_orderly :
    Orderly pocket "_ref" pocketChain.steps
      (.plain (.object 0)) pocketState false := by
  have seen : visits pocket pocketChain.steps (.plain (.object 0)) pocketState
      false = [⟨.member (made (.propName "b") []), .plain (.object 0),
      pocketState, false⟩, ⟨.member (made (.propName "find") []),
      ⟨.object 1, .object 0, "b"⟩, pocketState, true⟩, ⟨.call [made (.ident "a")
      []] Node.none, ⟨.function 0, .object 1, "find"⟩, pocketState, true⟩,
      ⟨.member (made (.propName "c") []), .plain .null, pocketState, false⟩] :=
    rfl
  constructor
  case quiet =>
    simp only [seen, List.forall_mem_cons]
    have argument : ∀ s, s.values "a" = some (.object 0) →
        evaluateAll pocket [made (.ident "a") []] s = .done [.object 0] s := by
      intro s bound
      simp [evaluateAll, evaluate, made, lookUp, bound, Focus.plain]
    refine ⟨quietStep_propName .., quietStep_propName ..,
      ⟨[.object 0], argument _ rfl, fun v => ?_⟩, quietStep_propName ..,
      fun _ none => absurd none List.not_mem_nil⟩
    exact argument _ (by simp [State.set, pocketState])
  case present => simp [seen, isAccess]
  case reported =>
    intro v h call message after ran
    simp only [seen, List.mem_cons, List.not_mem_nil, or_false] at h
    rcases h with rfl | rfl | rfl | rfl
    · cases call
    · cases call
    · cases ran
    · cases call
  case keys =>
    have words : ∀ word ∈ ["b", "find", "c"], ¬ nullWords <:+: word.toList := by
      decide
    intro v h property step key after ran
    simp only [seen, List.mem_cons, List.not_mem_nil, or_false] at h
    rcases h with rfl | rfl | rfl | rfl
    · cases step
      cases ran
      exact words "b" (by decide)
    · cases step
      cases ran
      exact words "find" (by decide)
    · cases step
    · cases step
      cases ran
      exact words "c" (by decide)

/-- A chain that meets an absent value behind a method call: both sides give
`null`. -/
theorem pocket_upTo_temporary :
    ((evaluate pocket (pocketChain.expression
      (NameSupply.fresh ⟨["a"]⟩ "ref").1) pocketState).map Focus.value).upTo
      (NameSupply.fresh ⟨["a"]⟩ "ref").1 = (runHelper pocket pocketChain
      pocketState).upTo (NameSupply.fresh ⟨["a"]⟩ "ref").1 ∧
      runHelper pocket pocketChain pocketState = .done .null pocketState := by
  constructor
  · refine evaluate_expression_upTo_temporary pocketChain
      ⟨["a"]⟩ "ref" pocketState ?_
    intro f s' ran
    have base : evaluate pocket pocketChain.base pocketState =
        .done (.plain (.object 0)) pocketState :=
      rfl
    rw [base, Run.done.injEq] at ran
    obtain ⟨rfl, rfl⟩ := ran
    have temp : (NameSupply.fresh ⟨["a"]⟩ "ref").1 = "_ref" := by decide
    rw [temp]
    exact pocket_orderly
  · have plain : ¬ nullWords <:+: "c".toList := by decide
    have failed : (applySteps pocket pocketChain.steps
        (.plain (.object 0)) pocketState).map Focus.value = .thrown (.typeError
        (Engine.assumed.readFailure .null "" "c")) pocketState := rfl
    have handed : runHelper pocket pocketChain pocketState =
        ((applySteps pocket pocketChain.steps
        (.plain (.object 0)) pocketState).map Focus.value).settle := rfl
    rw [handed, failed, Run.settle_readFailure .null plain]
    rfl

end NullGuard.Evaluation
