import NullGuard.Access.SafeAccess
import NullGuard.Tree.Node

/-!
# An evaluator for expressions

Rewritten programs are compared with the helper by running both. The evaluator
here runs the expressions that the rewriter deals in: names, literals, property
accesses, calls, assignments to a name, loose comparisons, conditionals, and
arrows with an expression as their body. Everything else it does not know, and a
run that meets such an expression is stuck.

Numbers, objects, functions and whatever state lies behind them belong to a
`Host`. A function of the host may do anything: change the world, throw, or
never return. What it cannot do is change the variables of its caller, which are
kept apart from the world.

An expression does not only have a value. Where the value is the callee of a
call, it matters which object it was read from and under which key, so the
evaluator gives a `Focus`, and parentheses keep it.
-/

namespace NullGuard.Evaluation

open NullGuard.Tree
open NullGuard.Access (Absent Engine Thrown Outcome)

/-- The kinds of things that a program deals with and the evaluator does not
look into. -/
structure Realm where
  World : Type
  Number : Type
  Object : Type
  Function : Type

/-- A value of a program. -/
inductive Value (R : Realm) where
  | undefined
  | null
  | bool (value : Bool)
  | number (value : R.Number)
  | string (value : String)
  | object (value : R.Object)
  | function (value : R.Function)

/-- The variables, by name. -/
abbrev Variables (R : Realm) := String → Option (Value R)

/-- What running an expression depends on and may change. -/
structure State (R : Realm) where
  values : Variables R
  world : R.World

/-- A run that gives something, throws, or meets an expression that is not
known. -/
inductive Run (R : Realm) (α : Type) where
  | done (result : α) (after : State R)
  | thrown (error : Thrown) (after : State R)
  | stuck

/-- What the evaluator asks its surroundings for. -/
structure Host (R : Realm) where
  /-- The number that a literal is written for. -/
  number : String → R.Number
  /-- The number of characters of a string. -/
  count : Nat → R.Number
  /-- Whether a number counts as true. -/
  isTrue : R.Number → Bool
  sameNumber : R.Number → R.Number → Bool
  sameObject : R.Object → R.Object → Bool
  sameFunction : R.Function → R.Function → Bool
  /-- A number as the key of a property. -/
  numberKey : R.Number → String
  /-- An object as the key of a property. -/
  objectKey : R.Object → String
  /-- A property of an object, `undefined` where there is none. -/
  property : R.Object → String → Value R
  /-- Calls a function on a receiver and arguments. There is no result if the
  call never returns. -/
  call : R.Function → Value R → List (Value R) → R.World →
    Option (Except Thrown (Value R) × R.World)
  /-- The function that an arrow stands for where it is met. -/
  close : List String → Node → Variables R → R.World → R.Function × R.World

/-- A value, and how it was come by. -/
structure Focus (R : Realm) where
  value : Value R
  /-- The value that it was read from. -/
  receiver : Value R
  /-- What a failed call names it. -/
  name : String

section

variable {R : Realm} {α β γ : Type}

/-- The variables with one of them given a value. -/
def State.set (s : State R) (name : String) (v : Value R) : State R :=
  { s with values := fun n => if n = name then some v else s.values n }

/-- Setting a variable twice leaves the later value. -/
@[simp] theorem State.set_set (s : State R) (name : String) (v w : Value R) :
    (s.set name v).set name w = s.set name w := by
  simp only [set, State.mk.injEq, and_true]
  funext n
  split <;> rfl

@[simp] theorem State.values_set_self (s : State R) (name : String)
    (v : Value R) :
    (s.set name v).values name = some v := by
  simp [set]

@[simp] theorem State.world_set (s : State R) (name : String) (v : Value R) :
    (s.set name v).world = s.world :=
  rfl

namespace Run

/-- Goes on with what a run gives. -/
def bind (r : Run R α) (next : α → State R → Run R β) : Run R β :=
  match r with
  | done a s => next a s
  | thrown t s => thrown t s
  | stuck => stuck

@[simp] theorem bind_done (a : α) (s : State R) (next : α → State R → Run R β) :
    (done a s).bind next = next a s :=
  rfl

@[simp] theorem bind_thrown (t : Thrown) (s : State R)
    (next : α → State R → Run R β) :
    (thrown t s).bind next = thrown t s :=
  rfl

@[simp] theorem bind_stuck (next : α → State R → Run R β) :
    (stuck : Run R α).bind next = stuck :=
  rfl

theorem bind_assoc (r : Run R α) (next : α → State R → Run R β)
    (last : β → State R → Run R γ) :
    (r.bind next).bind last = r.bind fun a s => (next a s).bind last := by
  cases r <;> rfl

/-- Going on with nothing more to do. -/
theorem bind_done_right (r : Run R α) : r.bind done = r := by
  cases r <;> rfl

/-- A function of what a run gives. -/
def map (f : α → β) (r : Run R α) : Run R β :=
  r.bind fun a s => done (f a) s

@[simp] theorem map_done (f : α → β) (a : α) (s : State R) :
    (done a s).map f = done (f a) s :=
  rfl

@[simp] theorem map_thrown (f : α → β) (t : Thrown) (s : State R) :
    (thrown t s).map f = thrown t s :=
  rfl

@[simp] theorem map_stuck (f : α → β) : (stuck : Run R α).map f = stuck :=
  rfl

/-- A run that ends with a result or an error. -/
def ofExcept (result : Except Thrown α) (s : State R) : Run R α :=
  match result with
  | .ok a => done a s
  | .error t => thrown t s

end Run

/-- A value that no property access or call led to. -/
def Focus.plain (v : Value R) : Focus R :=
  ⟨v, .undefined, "expression"⟩

namespace Value

/-- The absent value that a value is, if it is one. -/
def absent? : Value R → Option Absent
  | undefined => some .undefined
  | null => some .null
  | _ => none

/-- Whether a value is `null` or `undefined`. -/
def isAbsent (v : Value R) : Bool :=
  v.absent?.isSome

/-- An absent value as a value. -/
def ofAbsent : Absent → Value R
  | .undefined => undefined
  | .null => null

/-- An absent value is what it is. -/
theorem eq_ofAbsent {v : Value R} {a : Absent} (h : v.absent? = some a) :
    v = ofAbsent a := by
  cases v <;> simp only [absent?, Option.some.injEq, reduceCtorEq] at h <;>
    subst h <;> rfl

/-- The result of the helper as a value. -/
def ofOutcome : Outcome (Value R) → Value R
  | .value v => v
  | .absent a => ofAbsent a

variable (H : Host R)

/-- Whether a value counts as true. -/
def isTrue : Value R → Bool
  | undefined | null => false
  | bool b => b
  | number n => H.isTrue n
  | string s => s ≠ ""
  | object _ | function _ => true

/-- Loose equality, as far as it goes: values of different types are equal only
if both are absent. -/
def looselyEqual (v w : Value R) : Bool :=
  if v.isAbsent || w.isAbsent then v.isAbsent && w.isAbsent
  else
    match v, w with
    | bool a, bool b => a == b
    | number a, number b => H.sameNumber a b
    | string a, string b => a == b
    | object a, object b => H.sameObject a b
    | function a, function b => H.sameFunction a b
    | _, _ => false

/-- The absent values are the ones that loosely equal `null`. -/
@[simp] theorem looselyEqual_null (v : Value R) :
    v.looselyEqual H null = v.isAbsent := by
  cases v <;> rfl

/-- A value as the key of a property. -/
def key : Value R → String
  | undefined => "undefined"
  | null => "null"
  | bool b => if b then "true" else "false"
  | number n => H.numberKey n
  | string s => s
  | object o => H.objectKey o
  | function _ => "[function]"

/-- Reads a property. Reading one of an absent value fails. -/
def get (v : Value R) (key : String) : Except Thrown (Value R) :=
  match v with
  | undefined =>
    .error (.typeError (Engine.assumed.readFailure .undefined "" key))
  | null => .error (.typeError (Engine.assumed.readFailure .null "" key))
  | object o => .ok (H.property o key)
  | string s =>
    .ok (if key = "length" then number (H.count s.length) else undefined)
  | _ => .ok undefined

end Value

variable (H : Host R)

/-- The value of a name. -/
def lookUp (name : String) (s : State R) : Run R (Value R) :=
  if name = "undefined" then .done .undefined s
  else
    match s.values name with
    | some v => .done v s
    | none => .thrown (.error "ReferenceError" (name ++ " is not defined")) s

/-- Reads a property of what a focus is on. -/
def Focus.read (f : Focus R) (key : String) (s : State R) : Run R (Focus R) :=
  (Run.ofExcept (f.value.get H key) s).map fun v => ⟨v, f.value, key⟩

/-- Calls what a focus is on. -/
def Focus.invoke (f : Focus R) (arguments : List (Value R)) (s : State R) :
    Run R (Focus R) :=
  match f.value with
  | .function g =>
    match H.call g f.receiver arguments s.world with
    | some (result, world) =>
      (Run.ofExcept result { s with world := world }).map Focus.plain
    | none => .stuck
  | _ => .thrown (.typeError (f.name ++ " is not a function")) s

/-- The names of parameters that are all plain names. -/
def plainNames? : List Node → Option (List String)
  | [] => some []
  | .node (.bindingIdent name _) _ _ :: rest =>
    (plainNames? rest).map (name :: ·)
  | _ => none

/-- The function that an arrow stands for. -/
def closure (parameters : List Node) (body : Node) (s : State R) :
    Run R (Value R) :=
  match body.kind, plainNames? parameters with
  | .block, _ => .stuck
  | _, some names =>
    let (f, world) := H.close names body s.values s.world
    .done (.function f) { s with world := world }
  | _, none => .stuck

/-- The answer that a loose comparison asks for. -/
def comparison? : BinaryOp → Option Bool
  | .eq => some true
  | .notEq => some false
  | _ => none

mutual

/-- Runs an expression. -/
def evaluate : Node → State R → Run R (Focus R)
  | .node .paren _ [inner], s => evaluate inner s
  | .node (.ident name) _ _, s => (lookUp name s).map Focus.plain
  | .node .null _ _, s => .done (.plain .null) s
  | .node (.num raw) _ _, s => .done (.plain (.number (H.number raw))) s
  | .node (.bool b) _ _, s => .done (.plain (.bool b)) s
  | .node (.str _ value) _ _, s => .done (.plain (.string (value.getD ""))) s
  | .node .member _ [object, property], s =>
    (evaluate object s).bind fun f s => (evaluateKey property s).bind
      fun key s => f.read H key s
  | .node .call _ [callee, .node .list _ arguments, _], s =>
    (evaluate callee s).bind fun f s => (evaluateAll arguments s).bind
      fun vs s => f.invoke H vs s
  | .node (.assign _) _ [.node (.ident name) _ _, value], s =>
    (evaluate value s).bind fun f s => .done (.plain f.value)
      (s.set name f.value)
  | .node (.binary op) _ [left, right], s =>
    match comparison? op with
    | some wanted =>
      (evaluate left s).bind fun l s => (evaluate right s).bind fun r s =>
        .done (.plain (.bool (l.value.looselyEqual H r.value == wanted))) s
    | none => .stuck
  | .node .cond _ [test, yes, no], s =>
    (evaluate test s).bind fun t s =>
      ((if t.value.isTrue H then evaluate yes else evaluate no) s).map fun f =>
        .plain f.value
  | .node (.arrow _) _ (.node .list _ parameters :: body :: _), s =>
    (closure H parameters body s).map Focus.plain
  | _, _ => .stuck

/-- Runs the key of a property. -/
def evaluateKey : Node → State R → Run R String
  | .node (.propName name) _ _, s => .done name s
  | .node .computed _ [key], s => (evaluate key s).map fun f => f.value.key H
  | _, _ => .stuck

/-- Runs several expressions, first to last. -/
def evaluateAll : List Node → State R → Run R (List (Value R))
  | [], s => .done [] s
  | n :: ns, s =>
    (evaluate n s).bind fun f s => (evaluateAll ns s).map fun vs =>
      f.value :: vs

end

end

end NullGuard.Evaluation
