import NullGuard.Chain.Guard
import NullGuard.Proofs.Decomposition

/-!
# A guarded chain as a fold that stops early

The expression of a chain is nested from the inside out, with one variable for
the values of all levels. What it does is a fold over the levels: with a value
in hand it stops if the value is absent, and otherwise applies the next level
(`Semantics.shortCircuit`).

Nothing is assumed about the parts of a chain. Its base, its keys and its
arguments, reading properties and calling functions may change any state, throw,
and overwrite the variable, as a call does that comes back to the same code. So
a `Semantics` fixes only what the forms do that the guards themselves are made
of.

* `Semantics.run_expression` holds exactly: the expression is the fold that puts
  each value into the variable before it goes on (`Semantics.keptFold`).
* `Semantics.keptFold_agrees` compares the two folds where no part of the chain
  looks at the variable, whose name is new. The invariant is that their states
  are the same but for the variable.
* `expression_short_circuits` puts the two together.
-/

namespace NullGuard.Chain

open NullGuard.Text (Span)
open NullGuard.Tree

universe u

/-- A computation on a state that may throw. -/
abbrev Effect (E S α : Type u) :=
  ExceptT E (StateM S) α

/-- A state-passing semantics of expressions. It may give any meaning to an
expression, except that the forms that guards are made of, around a variable, do
what they do in a program. -/
structure Semantics (temp : String) (V K E S : Type u) where
  /-- What an expression does. -/
  run : Node → Effect E S V
  /-- What the key of a property access does. -/
  key : Node → Effect E S K
  /-- What the arguments of a call do. -/
  arguments : List Node → Effect E S (List V)
  /-- Reads a property of a value. -/
  read : V → K → Effect E S V
  /-- Calls a value, with a receiver and arguments. -/
  call : V → V → List V → Effect E S V
  undefined : V
  /-- Whether a value loosely equals `null`. -/
  isAbsent : V → Bool
  truth : Bool → V
  isTrue : V → Bool
  /-- The value of the variable. -/
  load : S → V
  /-- Gives the variable a value. -/
  store : V → S → S
  load_store : ∀ v s, load (store v s) = v
  store_store : ∀ v w s, store v (store w s) = store v s
  isTrue_truth : ∀ b, isTrue (truth b) = b
  run_variable : run (temporary temp) = load <$> get
  run_paren : ∀ n, run (parenthesized n) = run n
  run_assign : ∀ n, run (made (.assign .plain) [temporary temp, n]) = do
    let v ← run n
    modify (store v)
    return v
  run_notNull : ∀ n, run (made (.binary .notEq)
    [n, made .null []]) = do return truth !isAbsent (← run n)
  run_cond : ∀ span test yes no, run (.node .cond span [test, yes, no]) = do
    if isTrue (← run test) then run yes else run no
  run_member : ∀ property, run (made .member [temporary temp, property]) = do
    let object ← run (temporary temp)
    read object (← key property)
  run_call : ∀ ns typeArguments,
    run (made .call [temporary temp, .ofList ns, typeArguments]) = do
    let function ← run (temporary temp)
    call function undefined (← arguments ns)
  /-- A function that is read from an object is called on that object. -/
  run_method : ∀ property ns typeArguments, run (made .call
    [made .member [temporary temp, property], .ofList ns, typeArguments]) = do
      let object ← run (temporary temp)
      let function ← read object (← key property)
      call function object (← arguments ns)

namespace Semantics

variable {temp : String} {V K E S : Type u} (D : Semantics temp V K E S)

/-- Applies a level to a value: its key and its arguments once each, and in
order. -/
def applyLevel : Level → V → Effect E S V
  | .member property, v => do D.read v (← D.key property)
  | .call ns _, v => do D.call v D.undefined (← D.arguments ns)
  | .method property ns _, v => do
    let function ← D.read v (← D.key property)
    D.call function v (← D.arguments ns)

/-- Applies levels while there is something to apply them to. -/
def shortCircuit : List Level → V → Effect E S V
  | [], v => return v
  | level :: rest, v =>
    if D.isAbsent v then return v
      else do shortCircuit rest (← D.applyLevel level v)

/-- Applies levels while there is something to apply them to, and puts each
value into the variable first. -/
def keptFold : List Level → V → Effect E S V
  | [], v => return v
  | level :: rest, v => do
    modify (D.store v)
    if D.isAbsent v then return v else keptFold rest (← D.applyLevel level v)

/-- A variable that was just given a value has that value. -/
theorem store_run_variable {α : Type u} (v : V) (next : V → Effect E S α) :
    (do modify (D.store v); next (← D.run (temporary temp)) : Effect E S α) =
      (do modify (D.store v); next v) := by
  rw [D.run_variable]
  funext s
  exact congrArg (fun w => next w (D.store v s)) (D.load_store v s)

/-- **A guard**: the value goes into the variable, and if it is absent it is all
there is. -/
theorem run_guarded (span : Option Span) (value more : Node) :
    D.run (guarded span temp value more) = (do
      let v ← D.run value
      modify (D.store v)
      if D.isAbsent v then return v else D.run more) := by
  have test : D.run (made (.binary .notEq) [parenthesized
    (made (.assign .plain) [temporary temp, value]), made .null []]) = (do
        let v ← D.run value
        modify (D.store v)
        return D.truth !D.isAbsent v) := by
    rw [D.run_notNull, D.run_paren, D.run_assign]
    simp only [bind_assoc, pure_bind]
  rw [guarded, D.run_cond, test]
  simp only [bind_assoc, pure_bind, D.isTrue_truth]
  congr 1
  funext v
  cases D.isAbsent v with
  | false => rfl
  | true =>
    -- Nothing runs between the test and the other branch, so the variable still
    -- has the value.
    simpa using D.store_run_variable v pure

/-- A level applied to the variable is the level applied to its value. -/
theorem store_run_apply (level : Level) (v : V) :
    (do modify (D.store v); D.run (level.apply (temporary temp)) :
        Effect E S V) =
      (do modify (D.store v); D.applyLevel level v) := by
  cases level with
  | member property =>
    rw [Level.apply, D.run_member, D.store_run_variable]
    rfl
  | call ns typeArguments =>
    rw [Level.apply, D.run_call, D.store_run_variable]
    rfl
  | method property ns typeArguments =>
    rw [Level.apply, D.run_method, D.store_run_variable]
    rfl

/-- With a value in the variable, going through levels is applying the first one
and folding over the others. -/
theorem store_run_guardedLevels (level : Level) (rest : List Level) (v : V) :
    (do modify (D.store v); D.run (guardedLevels temp (level :: rest)) :
        Effect E S V) =
      (do modify (D.store v); D.keptFold rest (← D.applyLevel level v)) := by
  induction rest generalizing level v with
  | nil =>
    rw [guardedLevels, D.store_run_apply]
    exact congrArg _ (funext fun _ => (bind_pure _).symm)
  | cons next rest ih =>
    have inner : ∀ w,
        (do
          modify (D.store w)
          if D.isAbsent w then return w
          else D.run (guardedLevels temp (next :: rest))) =
        D.keptFold (next :: rest) w := by
      intro w
      rw [keptFold]
      cases D.isAbsent w with
      | true => rfl
      | false => exact ih next w
    rw [guardedLevels, D.run_guarded]
    · simp only [inner]
      rw [← bind_assoc, D.store_run_apply, bind_assoc]
    · exact nofun

/-- **What the expression of a chain does, exactly**: the base, and then the
fold that keeps its values. -/
theorem run_expression (c : AccessChain) :
    D.run (c.expression temp) =
      (do D.keptFold (levels c.steps) (← D.run c.base)) := by
  rw [AccessChain.expression]
  cases levels c.steps with
  | nil =>
    rw [D.run_paren]
    exact (bind_pure _).symm
  | cons level rest =>
    simp only [D.run_paren, D.run_guarded]
    congr 1
    funext v
    rw [keptFold]
    cases D.isAbsent v with
    | true => rfl
    | false => exact D.store_run_guardedLevels level rest v

/-- States that are the same but for the variable. -/
def SameBut (s t : S) : Prop :=
  ∀ v, D.store v s = D.store v t

/-- The same result, in states that are the same but for the variable. -/
def Agree {α : Type u} (x y : Except E α × S) : Prop :=
  x.1 = y.1 ∧ D.SameBut x.2 y.2

/-- A part that does not look at the variable. It may change it. -/
def Overlooks {α : Type u} (part : Effect E S α) : Prop :=
  ∀ s t, D.SameBut s t → D.Agree (part.run.run s) (part.run.run t)

variable {D}

theorem SameBut.store {s t : S} (same : D.SameBut s t) (v : V) :
    D.SameBut (D.store v s) t := by
  intro w
  rw [D.store_store, same w]

/-- Parts that agree may be followed by parts that do. -/
theorem Agree.bind {α β : Type u} {x y : Effect E S α}
    {next next' : α → Effect E S β} {s t : S}
    (first : D.Agree (x.run.run s) (y.run.run t))
    (others : ∀ a s' t', D.SameBut s' t' →
      D.Agree ((next a).run.run s') ((next' a).run.run t')) :
    D.Agree ((x >>= next).run.run s) ((y >>= next').run.run t) := by
  simp only [ExceptT.run_bind, StateT.run_bind]
  revert first
  obtain ⟨result, s'⟩ := x.run.run s
  obtain ⟨result', t'⟩ := y.run.run t
  rintro ⟨rfl, same⟩
  cases result with
  | ok a => exact others a s' t' same
  | error e => exact ⟨rfl, same⟩

theorem Overlooks.bind {α β : Type u} {x : Effect E S α}
    {next : α → Effect E S β} (first : D.Overlooks x)
    (others : ∀ a, D.Overlooks (next a)) : D.Overlooks (x >>= next) :=
  fun s t same => (first s t same).bind others

variable (D) in
/-- No part of the steps looks at the variable. -/
structure Unwatched (steps : List Step) : Prop where
  keys : ∀ property, .member property ∈ steps → D.Overlooks (D.key property)
  arguments : ∀ ns typeArguments, .call ns typeArguments ∈ steps →
    D.Overlooks (D.arguments ns)
  reads : ∀ v k, D.Overlooks (D.read v k)
  calls : ∀ function receiver vs, D.Overlooks (D.call function receiver vs)

theorem Unwatched.applyLevel {steps : List Step} (unwatched : D.Unwatched steps)
    {level : Level} (there : level ∈ levels steps) (v : V) :
    D.Overlooks (D.applyLevel level v) := by
  have taken : ∀ step ∈ level.steps, step ∈ steps := by
    intro step among
    rw [← flatMap_steps_levels steps]
    exact List.mem_flatMap.2 ⟨level, there, among⟩
  cases level with
  | member property =>
    have key := unwatched.keys property (taken _ List.mem_cons_self)
    exact key.bind fun k => unwatched.reads v k
  | call ns typeArguments =>
    have arguments :=
      unwatched.arguments ns typeArguments (taken _ List.mem_cons_self)
    exact arguments.bind fun vs => unwatched.calls v D.undefined vs
  | method property ns typeArguments =>
    have key := unwatched.keys property (taken _ List.mem_cons_self)
    have arguments := unwatched.arguments ns typeArguments
      (taken _ (List.mem_cons_of_mem _ List.mem_cons_self))
    refine key.bind fun k => ?_
    refine (unwatched.reads v k).bind fun function => ?_
    exact arguments.bind fun vs => unwatched.calls function v vs

/-- **The folds agree**, from states that are the same but for the variable. -/
theorem keptFold_agrees {ls : List Level}
    (overlooked : ∀ level ∈ ls, ∀ v, D.Overlooks (D.applyLevel level v)) (v : V)
    {s t : S} (same : D.SameBut s t) :
    D.Agree ((D.keptFold ls v).run.run s)
      ((D.shortCircuit ls v).run.run t) := by
  induction ls generalizing v s t with
  | nil => exact ⟨rfl, same⟩
  | cons level rest ih =>
    -- One side has just put the value into the variable, the other one never
    -- does.
    have stored := same.store v
    have start : (D.keptFold (level :: rest) v).run.run s = (if D.isAbsent v
        then return v else do D.keptFold rest (← D.applyLevel level v) :
        Effect E S V).run.run (D.store v s) :=
      rfl
    rw [start, shortCircuit]
    by_cases absent : D.isAbsent v = true
    · rw [if_pos absent, if_pos absent]
      exact ⟨rfl, stored⟩
    · rw [if_neg absent, if_neg absent]
      refine (overlooked level List.mem_cons_self v _ _ stored).bind
        fun w s' t' same' => ?_
      exact ih
        (fun l among => overlooked l (List.mem_cons_of_mem _ among)) w same'

end Semantics

/-- **A guarded chain is the fold that stops early.** Whatever the base, the
keys, the arguments, the reads and the calls of a chain do, its expression does
the same as evaluating the base and folding over the levels: a level is applied
as long as the value in hand is not absent, a method with that value as its
receiver, and what the last level gives is the result.

The two leave the same state, if before each level the fold puts the value in
hand into the variable. If it does not, they still have the same result and
leave the same state but for the variable, as long as no part looks at it. A
chain without steps is its base, and needs no variable. -/
theorem expression_short_circuits {temp : String} {V K E S : Type u}
    (D : Semantics temp V K E S) (c : AccessChain) :
    D.run (c.expression temp) =
      (do D.keptFold (levels c.steps) (← D.run c.base)) ∧
      (D.Unwatched c.steps →
        ∀ s, D.Agree ((D.run (c.expression temp)).run.run s)
          ((do D.shortCircuit (levels c.steps) (← D.run c.base) :
            Effect E S V).run.run s)) ∧
      (c.steps = [] → c.needsTemporary = false ∧ ∀ name, c.expression name =
        parenthesized c.base) := by
  refine ⟨D.run_expression c, ?_, ?_⟩
  · intro unwatched s
    rw [D.run_expression]
    have itself : D.Agree ((D.run c.base).run.run s)
        ((D.run c.base).run.run s) := ⟨rfl, fun _ => rfl⟩
    exact itself.bind fun v s' t' same =>
      Semantics.keptFold_agrees
        (fun level there w => unwatched.applyLevel there w) v same
  · intro none
    rw [AccessChain.needsTemporary, none]
    refine ⟨rfl, fun name => ?_⟩
    rw [AccessChain.expression, none]
    rfl

/-! A small semantics that writes down what it does. Calling anything comes back
to the same code, which leaves another value in the variable, and gives
`null`. -/

/-- Names of things, and the values that guards need. -/
inductive Item where
  | undefined
  | null
  | truth (b : Bool)
  | thing (name : String)
deriving DecidableEq

def Item.isAbsent : Item → Bool
  | undefined | null => true
  | _ => false

/-- The variable, and what was done so far. -/
structure Journal where
  held : Item
  entries : List String
deriving DecidableEq

namespace Journal

def note (entry : String) : Effect String Journal PUnit :=
  modify fun j => { j with entries := j.entries ++ [entry] }

def key : Node → Effect String Journal String
  | .node (.propName name) _ _ => do
    note name
    return name
  | _ => throw "unknown key"

def read : Item → String → Effect String Journal Item
  | .thing owner, name => return .thing (owner ++ "." ++ name)
  | _, _ => throw "no properties"

def call : Item → Item → List Item → Effect String Journal Item
  | .thing name, _, _ => do
    note ("called " ++ name)
    modify fun j => { j with held := .truth false }
    return .null
  | _, _, _ => throw "not a function"

mutual

def run : Node → Effect String Journal Item
  | .node .paren _ [n] => run n
  | .node (.ident name) _ _ =>
    if name = "_ref" then held <$> get else return .thing name
  | .node (.assign .plain) _ [_, n] => do
    let v ← run n
    modify fun j => { j with held := v }
    return v
  | .node (.binary .notEq) _ [n, _] => do return .truth !(← run n).isAbsent
  | .node .cond _ [test, yes, no] => do
    if (← run test) = .truth true then run yes else run no
  | .node .member _ [object, property] => do
    let object ← run object
    read object (← key property)
  | .node .call _
      [.node .member _ [object, property], .node .list _ ns, _] => do
    let object ← run object
    let function ← read object (← key property)
    call function object (← runAll ns)
  | .node .call _ [callee, .node .list _ ns, _] => do
    let function ← run callee
    call function .undefined (← runAll ns)
  | _ => throw "unknown expression"

def runAll : List Node → Effect String Journal (List Item)
  | [] => return []
  | n :: ns => do
    let v ← run n
    return v :: (← runAll ns)

end

/-- The semantics that keeps a journal. -/
def semantics : Semantics "_ref" Item String String Journal where
  run := run
  key := key
  arguments := runAll
  read := read
  call := call
  undefined := .undefined
  isAbsent := Item.isAbsent
  truth := .truth
  isTrue v := v = .truth true
  load := held
  store v j := { j with held := v }
  load_store _ _ := rfl
  store_store _ _ _ := rfl
  isTrue_truth b := by cases b <;> rfl
  run_variable := by simp [temporary, made, run]
  run_paren n := by simp [parenthesized, made, run]
  run_assign n := by simp [made, run]
  run_notNull n := by simp [made, run]
  run_cond span test yes no := by simp [run]
  run_member property := by simp [made, run]
  run_call ns typeArguments := by simp [made, run, temporary, Node.ofList]
  run_method property ns typeArguments := by simp [made, run, Node.ofList]

/-- `a.find(b).c`, taken apart. -/
def journey : AccessChain :=
  ⟨made (.ident "a") [], [.member (made (.propName "find") []), .call
    [made (.ident "b") []] Node.none, .member (made (.propName "c") [])], none⟩

/-- What does not mention the variable overlooks it. -/
theorem overlooks_of_entries {α : Type} {part : Effect String Journal α}
    (result : List String → Except String α × List String)
    (unmentioned : ∀ j, (part.run.run j).1 = (result j.entries).1 ∧
      (part.run.run j).2.entries = (result j.entries).2) :
    semantics.Overlooks part := by
  intro s t same
  have entries : s.entries = t.entries := (Journal.mk.inj (same .null)).2
  obtain ⟨first, firstAfter⟩ := unmentioned s
  obtain ⟨second, secondAfter⟩ := unmentioned t
  refine ⟨by rw [first, second, entries], fun v => ?_⟩
  have after : (part.run.run s).2.entries = (part.run.run t).2.entries := by
    rw [firstAfter, secondAfter, entries]
  exact congrArg (Journal.mk v) after

theorem journey_unwatched : semantics.Unwatched journey.steps where
  keys property there := by
    have word : property = made (.propName "find") [] ∨
        property = made (.propName "c") [] := by
      simpa [journey] using there
    rcases word with rfl | rfl
    · exact overlooks_of_entries
        (fun entries => (.ok "find", entries ++ ["find"])) fun _ => ⟨rfl, rfl⟩
    · exact overlooks_of_entries (fun entries => (.ok "c", entries ++ ["c"]))
        fun _ => ⟨rfl, rfl⟩
  arguments ns typeArguments there := by
    have given : ns = [made (.ident "b") []] ∧ typeArguments = Node.none := by
      simpa [journey] using there
    rw [given.1]
    refine overlooks_of_entries (fun entries => (.ok [.thing "b"], entries))
      fun j => ?_
    simp only [semantics, runAll, run, made]
    exact ⟨rfl, rfl⟩
  reads v k := by
    cases v with
    | thing owner =>
      exact overlooks_of_entries (fun entries =>
        (.ok (.thing (owner ++ "." ++ k)), entries)) fun _ => ⟨rfl, rfl⟩
    | _ =>
      exact overlooks_of_entries
        (fun entries => (.error "no properties", entries)) fun _ => ⟨rfl, rfl⟩
  calls function receiver vs := by
    cases function with
    | thing name =>
      exact overlooks_of_entries (fun entries =>
        (.ok .null, entries ++ ["called " ++ name])) fun _ => ⟨rfl, rfl⟩
    | _ =>
      exact overlooks_of_entries
        (fun entries => (.error "not a function", entries)) fun _ => ⟨rfl, rfl⟩

/-- The call overwrites the variable and gives `null`: both sides end with
`null`, and neither comes to the last key. -/
theorem journey_short_circuits :
    semantics.Agree
      ((semantics.run (journey.expression "_ref")).run.run ⟨.undefined, []⟩)
      ((do
        semantics.shortCircuit (levels journey.steps)
          (← semantics.run journey.base) : Effect _ _ _).run.run
        ⟨.undefined, []⟩) ∧
      (semantics.run (journey.expression "_ref")).run.run ⟨.undefined, []⟩ =
        (.ok .null, ⟨.null, ["find", "called a.find"]⟩) := by
  refine ⟨(expression_short_circuits semantics journey).2.1
    journey_unwatched _, ?_⟩
  rfl

end Journal

end NullGuard.Chain
