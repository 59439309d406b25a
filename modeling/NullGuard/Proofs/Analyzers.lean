import NullGuard.Proofs.Visits

/-!
# Analyzers: scope tables as they are filled

An analyzer makes the moves of a program with a state. A scope has the number of
the scope around it, and a map from names to the numbers of bindings; the state
has the number of the scope that the analyzer is in, and its context, which a
setting changes and puts back behind it. Looking a name up and finding the scope
of a `var` are climbs from a scope to the scopes around it.

Nothing in the data keeps a number within range, a climb from going in circles,
or a binding from being lost. What does is that the tables are *well formed*
(`Analyzer.WellFormed`), and every step keeps them so: a note, and the beginning
and the end of a setting. Hence they are so in every state of a course
(`runAll_wellFormed`), and every climb in every such state ends
(`Analyzer.WellFormed.climbs`). The course of any moves leaves the current scope
and the context as it found them (`Analyzer.runAll_returns`).
-/

namespace NullGuard.Scope

open NullGuard.Text (Span)
open NullGuard.Tree
open NullGuard.Transform (Rejection)

/-- A scope, with the number of the scope around it and the numbers of the
bindings of its names. -/
structure ScopeRecord where
  parent : Option Nat
  kind : ScopeKind
  names : List (String × Nat) := []
deriving DecidableEq, Repr

/-- The state of an analyzer. -/
structure Analyzer where
  scopes : List ScopeRecord := [⟨none, .program, []⟩]
  /-- The scope that the analyzer is in. -/
  current : Nat := 0
  /-- What names in patterns do, what variables are, and whether the declaration
  is exported. -/
  context : Context := {}
  bindings : List Binding := []
  references : List Reference := []
  helpers : List HelperDeclaration := []
  unrecognized : List (Option Span) := []
  fault : Option Rejection := none

/-- The scope at which a climb ends that starts in a scope: the first one with a
property, or the outermost one. A parent that does not have a smaller number
ends the climb too; in well-formed tables there is none. -/
def climb (scopes : List ScopeRecord) (stops : ScopeRecord → Bool) (i : Nat) :
    Nat :=
  match scopes[i]? with
  | none => i
  | some s =>
    if stops s then i
    else
      match s.parent with
      | none => i
      | some p => if p < i then climb scopes stops p else i
termination_by i

namespace Analyzer

/-- The binding of a name in one scope. -/
def named (a : Analyzer) (scope : Nat) (name : String) : Option Nat :=
  (a.scopes[scope]?).bind fun s => s.names.lookup name

/-- The binding that a name means in a scope. -/
def resolve (a : Analyzer) (scope : Nat) (name : String) : Option Nat :=
  a.named (climb a.scopes (fun s => (s.names.lookup name).isSome) scope) name

/-- The scope that a declaration falls into. -/
def targetScope (a : Analyzer) : BindingKind → Nat
  | .imported => 0
  | .var => climb a.scopes (fun s => s.kind.holdsVars) a.current
  | _ => a.current

/-- Notes a further declaration on a binding. -/
def redeclare (a : Analyzer) (id : Nat) (span : Option Span) : Analyzer :=
  { a with
    bindings := a.bindings.modify id fun b =>
      { b with redeclarations := b.redeclarations ++ [span] } }

/-- Adds a binding, and an entry for it to the map of its scope. -/
def file (a : Analyzer) (name : String) (kind : BindingKind) (scope : Nat)
    (span : Option Span) : Analyzer :=
  { a with
    bindings := a.bindings ++ [⟨name, kind, scope, span, []⟩]
    scopes := a.scopes.modify scope fun s =>
      { s with names := (name, a.bindings.length) :: s.names } }

/-- Notes a declaration, and gives the number of its binding. -/
def declare (a : Analyzer) (name : String) (span : Option Span)
    (kind : BindingKind) : Nat × Analyzer :=
  match a.named (a.targetScope kind) name with
  | some id => (id, a.redeclare id span)
  | none => (a.bindings.length, a.file name kind (a.targetScope kind) span)

/-- Notes a declaration that is the helper. -/
def declareHelper (a : Analyzer) (name : String) (span : Option Span)
    (kind : BindingKind) (origin : Origin) : Analyzer :=
  let (id, b) := a.declare name span kind
  { b with helpers := b.helpers ++ [⟨id, origin⟩] }

/-- Notes a use in the current scope. -/
def refer (a : Analyzer) (name : String) (span : Option Span)
    (kind : ReferenceKind) : Analyzer :=
  { a with references := a.references ++ [⟨name, span, kind, a.current⟩] }

end Analyzer

/-- What a note does to the state. -/
def Note.apply (a : Analyzer) : Note → Analyzer
  | declare name span kind => (a.declare name span kind).2
  | helper name span kind origin => a.declareHelper name span kind origin
  | variableHelper name span declarator =>
    a.declareHelper name span a.context.varKind
      (.required declarator a.context.isExported)
  | patternName name span =>
    match a.context.mode with
    | .declare kind => (a.declare name span kind).2
    | .write => a.refer name span .write
    | .read => a
  | refer name span kind => a.refer name span kind
  | unrecognized span => { a with unrecognized := a.unrecognized ++ [span] }
  | malformed rejection => { a with fault := a.fault.or (some rejection) }

/-- What the beginning of a setting does to the state. -/
def Setting.enter (a : Analyzer) : Setting → Analyzer
  | scope kind =>
    { a with
      scopes := a.scopes ++ [⟨some a.current, kind, []⟩]
      current := a.scopes.length
      context := a.context.inScope }
  | s => { a with context := s.context a.context }

/-- What the end of a setting does to the state: it puts back what its beginning
set. -/
def Setting.leave (saved a : Analyzer) : Setting → Analyzer
  | scope _ =>
    { a with
      current := saved.current
      context := { a.context with
        mode := saved.context.mode, isExported := saved.context.isExported } }
  | patterns _ | variablePattern =>
    { a with context := { a.context with mode := saved.context.mode } }
  | vars _ =>
    { a with context := { a.context with varKind := saved.context.varKind } }
  | exported =>
    { a with
      context := { a.context with isExported := saved.context.isExported } }

/-- An analyzer at work: its state, and the states that it had before, latest
first. -/
structure Course where
  now : Analyzer := {}
  past : List Analyzer := []

/-- All states of a course. -/
def Course.states (r : Course) : List Analyzer :=
  r.now :: r.past

/-- One step. -/
def Course.step (r : Course) (next : Analyzer) : Course :=
  ⟨next, r.states⟩

mutual

/-- Makes a move. -/
def Move.run (r : Course) : Move → Course
  | .note n => r.step (n.apply r.now)
  | .within s inside =>
    let inner := runAll (r.step (s.enter r.now)) inside
    inner.step (s.leave r.now inner.now)

/-- Makes several moves. -/
def runAll (r : Course) : List Move → Course
  | [] => r
  | move :: moves => runAll (move.run r) moves

end

/-- The course of an analyzer through a program, where `moduleName` is the
helper's module. -/
def courseOf (moduleName : String) (n : Node) : Course :=
  runAll {} (visit moduleName n)

namespace Analyzer

section Declare

variable {a : Analyzer} {name : String} {span : Option Span}
  {kind : BindingKind} {id : Nat}

/-- The scopes without their names: what a climb goes along. -/
def shape (a : Analyzer) : List (Option Nat × ScopeKind) :=
  a.scopes.map fun s => (s.parent, s.kind)

@[simp] theorem length_shape (a : Analyzer) :
    a.shape.length = a.scopes.length :=
  List.length_map _

/-- A declaration of a name that its scope has already is noted on the
binding. -/
theorem declare_of_some (found : a.named (a.targetScope kind) name = some id)
    (span : Option Span) :
    a.declare name span kind = (id, a.redeclare id span) := by
  simp only [declare, found]

/-- A declaration of a new name is a new binding. -/
theorem declare_of_none (found : a.named (a.targetScope kind) name = none)
    (span : Option Span) :
    a.declare name span kind =
      (a.bindings.length, a.file name kind (a.targetScope kind) span) := by
  simp only [declare, found]

@[simp] theorem length_scopes_file (a : Analyzer) (name : String)
    (kind : BindingKind) (scope : Nat) (span : Option Span) :
    (a.file name kind scope span).scopes.length = a.scopes.length :=
  List.length_modify ..

@[simp] theorem length_bindings_file (a : Analyzer) (name : String)
    (kind : BindingKind) (scope : Nat) (span : Option Span) :
    (a.file name kind scope span).bindings.length = a.bindings.length + 1 :=
  List.length_append

@[simp] theorem length_bindings_redeclare (a : Analyzer) (id : Nat)
    (span : Option Span) :
    (a.redeclare id span).bindings.length = a.bindings.length :=
  List.length_modify ..

/-- A scope of a table with a further binding was there before, with the same
parent and kind; only the scope of the binding has a further name. -/
theorem scope_of_file {scope i : Nat} {s' : ScopeRecord}
    (here : (a.file name kind scope span).scopes[i]? = some s') :
    ∃ s, a.scopes[i]? = some s ∧ s'.parent = s.parent ∧ s'.kind = s.kind ∧
      s'.names = if i = scope then (name, a.bindings.length) :: s.names
        else s.names := by
  rw [file, List.getElem?_modify, Option.map_eq_map, Option.map_eq_some_iff]
    at here
  obtain ⟨s, old, rfl⟩ := here
  refine ⟨s, old, ?_⟩
  by_cases same : scope = i
  · rw [if_pos same, if_pos same.symm]
    exact ⟨rfl, rfl, rfl⟩
  · rw [if_neg same, if_neg (Ne.symm same)]
    exact ⟨rfl, rfl, rfl⟩

/-- A scope keeps its parent and its kind where a binding is added. -/
theorem scope_file {i : Nat} {s : ScopeRecord} (here : a.scopes[i]? = some s)
    (name : String) (kind : BindingKind) (scope : Nat) (span : Option Span) :
    ∃ s', (a.file name kind scope span).scopes[i]? = some s' ∧
      s'.parent = s.parent ∧ s'.kind = s.kind := by
  have inside : i < (a.file name kind scope span).scopes.length := by
    rw [length_scopes_file]
    exact (List.getElem?_eq_some_iff.1 here).1
  have there := List.getElem?_eq_getElem inside
  obtain ⟨t, before, sameParent, sameKind, -⟩ := scope_of_file there
  rw [here] at before
  cases before
  exact ⟨_, there, sameParent, sameKind⟩

/-- A binding that got a further declaration is what it was, but for that
declaration. -/
theorem binding_of_redeclare {i : Nat} {b' : Binding}
    (here : (a.redeclare id span).bindings[i]? = some b') :
    ∃ b, a.bindings[i]? = some b ∧ b'.name = b.name ∧ b'.kind = b.kind ∧
      b'.scope = b.scope := by
  rw [redeclare, List.getElem?_modify, Option.map_eq_map,
    Option.map_eq_some_iff] at here
  obtain ⟨b, old, rfl⟩ := here
  refine ⟨b, old, ?_⟩
  by_cases same : id = i
  · rw [if_pos same]
    exact ⟨rfl, rfl, rfl⟩
  · rw [if_neg same]
    exact ⟨rfl, rfl, rfl⟩

/-- A climb goes along the same scopes where a binding is added. -/
theorem shape_file (a : Analyzer) (name : String) (kind : BindingKind)
    (scope : Nat) (span : Option Span) :
    (a.file name kind scope span).shape = a.shape := by
  refine List.ext_getElem? fun i => ?_
  rw [file, shape, shape, List.getElem?_map, List.getElem?_map,
    List.getElem?_modify]
  cases a.scopes[i]? with
  | none => rfl
  | some s => by_cases same : scope = i <;> simp [same]

end Declare

/-- A state is in the place of another one, in a table with the same scopes and
maybe more. -/
structure Returns (a b : Analyzer) : Prop where
  current : b.current = a.current
  context : b.context = a.context
  shape : a.shape <+: b.shape

theorem Returns.refl (a : Analyzer) : a.Returns a :=
  ⟨rfl, rfl, List.prefix_rfl⟩

theorem Returns.trans {a b c : Analyzer} (h : a.Returns b) (h' : b.Returns c) :
    a.Returns c :=
  ⟨h'.current.trans h.current, h'.context.trans h.context,
    h.shape.trans h'.shape⟩

theorem returns_declare (a : Analyzer) (name : String) (span : Option Span)
    (kind : BindingKind) :
    a.Returns (a.declare name span kind).2 := by
  cases found : a.named (a.targetScope kind) name with
  | some id =>
    rw [declare_of_some found]
    exact ⟨rfl, rfl, List.prefix_rfl⟩
  | none =>
    rw [declare_of_none found]
    have same : a.shape = (a.file name kind (a.targetScope kind) span).shape :=
      (a.shape_file ..).symm
    exact ⟨rfl, rfl, same ▸ List.prefix_rfl⟩

theorem returns_declareHelper (a : Analyzer) (name : String)
    (span : Option Span) (kind : BindingKind) (origin : Origin) :
    a.Returns (a.declareHelper name span kind origin) :=
  have declared := a.returns_declare name span kind
  ⟨declared.current, declared.context, declared.shape⟩

/-- A note leaves the analyzer in its place. -/
theorem returns_apply (a : Analyzer) (n : Note) : a.Returns (n.apply a) := by
  cases n with
  | declare name span kind => exact a.returns_declare name span kind
  | helper name span kind origin =>
    exact a.returns_declareHelper name span kind origin
  | variableHelper name span declarator =>
    exact a.returns_declareHelper name span _ _
  | patternName name span =>
    rw [Note.apply]
    split
    · exact a.returns_declare name span _
    · exact ⟨rfl, rfl, List.prefix_rfl⟩
    · exact .refl a
  | refer | unrecognized | malformed => exact ⟨rfl, rfl, List.prefix_rfl⟩

/-- The beginning of a setting keeps the scopes there are. -/
theorem shape_enter (a : Analyzer) (s : Setting) :
    a.shape <+: (s.enter a).shape := by
  cases s with
  | scope kind =>
    rw [Setting.enter, shape, shape, List.map_append]
    exact List.prefix_append _ _
  | patterns | variablePattern | vars | exported => exact List.prefix_rfl

/-- The end of a setting puts back what its beginning set. -/
theorem returns_leave {a b : Analyzer} {s : Setting}
    (inner : (s.enter a).Returns b) : a.Returns (s.leave a b) := by
  have context : b.context = s.context a.context := by
    rw [inner.context]
    cases s <;> rfl
  have shape : a.shape <+: b.shape := (a.shape_enter s).trans inner.shape
  cases s with
  | scope kind => exact ⟨rfl, by rw [Setting.leave, context]; rfl, shape⟩
  | patterns | variablePattern | vars | exported =>
    exact ⟨inner.current, by rw [Setting.leave, context]; rfl, shape⟩

/-- **Moves leave the current scope and the context as they found them**,
whatever these are. -/
theorem runAll_returns (r : Course) (moves : List Move) :
    r.now.Returns (runAll r moves).now := by
  induction moves using moves_induct generalizing r with
  | nil => exact .refl r.now
  | note n moves ih =>
    have made : r.now.Returns ((Move.note n).run r).now := r.now.returns_apply n
    exact made.trans (ih _)
  | within s inside moves inner ih =>
    have left : r.now.Returns ((Move.within s inside).run r).now :=
      returns_leave (inner (r.step (s.enter r.now)))
    exact left.trans (ih _)

theorem returns_run (r : Course) (move : Move) :
    r.now.Returns (move.run r).now :=
  runAll_returns r [move]

end Analyzer

/-- A climb as it goes: it stops at a scope with a property, or at one without a
parent, and otherwise goes on from the parent. Every scope that it comes to is
there. -/
inductive Climbs (scopes : List ScopeRecord) (stops : ScopeRecord → Bool) :
    Nat → Nat → Prop where
  | stop {i : Nat} {s : ScopeRecord} (here : scopes[i]? = some s)
      (ends : stops s = true) : Climbs scopes stops i i
  | top {i : Nat} {s : ScopeRecord} (here : scopes[i]? = some s)
      (outermost : s.parent = none) : 
    Climbs scopes stops i i
  | up {i p j : Nat} {s : ScopeRecord} (here : scopes[i]? = some s)
      (passes : stops s = false)
    (parent : s.parent = some p) (more : Climbs scopes stops p j) :
      Climbs scopes stops i j

/-- A climb ends at a scope that there is, and for a reason. -/
theorem Climbs.ends {scopes : List ScopeRecord} {stops : ScopeRecord → Bool}
    {i j : Nat} (h : Climbs scopes stops i j) :
    ∃ s, scopes[j]? = some s ∧ (stops s = true ∨ s.parent = none) := by
  induction h with
  | stop here ends => exact ⟨_, here, .inl ends⟩
  | top here outermost => exact ⟨_, here, .inr outermost⟩
  | up _ _ _ _ ih => exact ih

namespace Analyzer

/-- The tables of an analyzer are as they have to be. -/
structure WellFormed (a : Analyzer) : Prop where
  /-- The first scope is the program, with nothing around it. -/
  program : ∃ s : ScopeRecord, a.scopes[0]? = some s ∧ s.kind = .program ∧
    s.parent = none
  /-- Every other scope has a scope around it, with a smaller number. -/
  inner : ∀ (i : Nat) (s : ScopeRecord), a.scopes[i]? = some s → 0 < i →
    ∃ p < i, s.parent = some p
  current : a.current < a.scopes.length
  references : ∀ r ∈ a.references, r.scope < a.scopes.length
  /-- The names of a scope are a map to bindings that there are. -/
  names : ∀ (i : Nat) (s : ScopeRecord), a.scopes[i]? = some s →
    (s.names.map Prod.fst).Nodup ∧ ∀ e ∈ s.names, e.2 < a.bindings.length
  /-- A binding is in the map of its own scope under its own name, and in no
  other place of any map. -/
  filed : ∀ (id : Nat) (b : Binding), a.bindings[id]? = some b →
    b.scope < a.scopes.length ∧
    ∀ (i : Nat) (s : ScopeRecord), a.scopes[i]? = some s →
      ∀ name, (name, id) ∈ s.names ↔ i = b.scope ∧
    name = b.name
  /-- What is declared by `var` lies in a program, a function or a static
  block. -/
  vars : ∀ b ∈ a.bindings, b.kind = .var →
    ∃ s : ScopeRecord, a.scopes[b.scope]? = some s ∧
    (s.kind = .program ∨ s.kind = .function ∨ s.kind = .staticBlock)
  /-- What is imported lies in the program. -/
  imports : ∀ b ∈ a.bindings, b.kind = .imported → b.scope = 0
  helpers : ∀ h ∈ a.helpers, h.binding < a.bindings.length

section WellFormed

variable {a : Analyzer}

theorem wellFormed_start : ({} : Analyzer).WellFormed where
  program := ⟨_, rfl, rfl, rfl⟩
  inner := by
    intro i s here positive
    obtain ⟨k, rfl⟩ : ∃ k, i = k + 1 := ⟨i - 1, by omega⟩
    simp at here
  current := Nat.one_pos
  references := nofun
  names := by
    intro i s here
    rw [List.mem_singleton.1 (List.mem_of_getElem? here)]
    exact ⟨List.nodup_nil, nofun⟩
  filed := nofun
  vars := nofun
  imports := nofun
  helpers := nofun

/-- A parent has a smaller number. -/
theorem WellFormed.parent_lt (h : a.WellFormed) {i p : Nat} {s : ScopeRecord}
    (here : a.scopes[i]? = some s) (parent : s.parent = some p) : p < i := by
  by_cases first : i = 0
  · obtain ⟨s', program, -, outermost⟩ := h.program
    rw [first, program] at here
    cases here
    rw [outermost] at parent
    cases parent
  · obtain ⟨q, less, isParent⟩ := h.inner i s here (by omega)
    rw [parent] at isParent
    cases isParent
    exact less

/-- Only the program has nothing around it. -/
theorem WellFormed.eq_zero (h : a.WellFormed) {i : Nat} {s : ScopeRecord}
    (here : a.scopes[i]? = some s) (outermost : s.parent = none) : i = 0 := by
  by_contra other
  obtain ⟨p, -, parent⟩ := h.inner i s here (by omega)
  rw [outermost] at parent
  cases parent

/-- **Every climb ends**, and where it is computed to end. -/
theorem WellFormed.climbs (h : a.WellFormed) (stops : ScopeRecord → Bool)
    {i : Nat} (known : i < a.scopes.length) :
    Climbs a.scopes stops i (climb a.scopes stops i) := by
  induction i using Nat.strongRecOn with
  | ind i ih =>
    have here : a.scopes[i]? = some a.scopes[i] :=
      List.getElem?_eq_getElem known
    rw [climb, here]
    dsimp only
    by_cases ends : stops a.scopes[i] = true
    · rw [if_pos ends]
      exact .stop here ends
    · rw [if_neg ends]
      cases parent : a.scopes[i].parent with
      | none => exact .top here parent
      | some p =>
        have less : p < i := h.parent_lt here parent
        dsimp only
        rw [if_pos less]
        exact .up here (Bool.eq_false_iff.2 ends) parent (ih p less (by omega))

/-- A declaration falls into a scope that there is and that is of the right
kind. -/
theorem WellFormed.targetScope (h : a.WellFormed) (kind : BindingKind) :
    ∃ s, a.scopes[a.targetScope kind]? = some s ∧
      (kind = .var → s.kind = .program ∨ s.kind = .function ∨
        s.kind = .staticBlock) ∧
      (kind = .imported → a.targetScope kind = 0) := by
  have here : ∃ s, a.scopes[a.current]? = some s :=
    ⟨_, List.getElem?_eq_getElem h.current⟩
  cases kind with
  | imported =>
    obtain ⟨s, program, -⟩ := h.program
    exact ⟨s, program, nofun, fun _ => rfl⟩
  | var =>
    obtain ⟨s, found, ends⟩ :=
      (h.climbs (fun s => s.kind.holdsVars) h.current).ends
    refine ⟨s, found, ?_, nofun⟩
    intro _
    rcases ends with holds | outermost
    · revert holds
      cases s.kind <;> simp [ScopeKind.holdsVars]
    · obtain ⟨s', program, isProgram, -⟩ := h.program
      rw [h.eq_zero found outermost, program] at found
      cases found
      exact .inl isProgram
  | lexical | param | function | «class» =>
    obtain ⟨s, found⟩ := here
    exact ⟨s, found, nofun, nofun⟩

/-- A name of a scope is looked up in its map. -/
theorem named_eq_some {i : Nat} {s : ScopeRecord} (here : a.scopes[i]? = some s)
    (name : String) :
    a.named i name = s.names.lookup name := by
  rw [named, here, Option.bind_some]

/-- A binding that is looked up is in the map. -/
theorem mem_of_lookup {names : List (String × Nat)} {name : String} {id : Nat}
    (found : names.lookup name = some id) : (name, id) ∈ names := by
  obtain ⟨front, back, rfl, -⟩ := List.lookup_eq_some_iff.1 found
  exact List.mem_append_right front List.mem_cons_self

/-- A name that is not found is not among the keys of the map. -/
theorem not_mem_keys_of_lookup {names : List (String × Nat)} {name : String}
    (found : names.lookup name = none) :
    name ∉ names.map Prod.fst := by
  intro isKey
  obtain ⟨e, he, same⟩ := List.mem_map.1 isKey
  have differs := List.lookup_eq_none_iff.1 found e he
  simp [same] at differs

/-- A further declaration of a binding keeps the tables well formed. -/
theorem WellFormed.redeclare (h : a.WellFormed) (id : Nat)
    (span : Option Span) :
    (a.redeclare id span).WellFormed where
  program := h.program
  inner := h.inner
  current := h.current
  references := h.references
  names := by
    rw [length_bindings_redeclare]
    exact h.names
  filed := by
    intro i b' here
    obtain ⟨b, old, sameName, -, sameScope⟩ := binding_of_redeclare here
    rw [sameName, sameScope]
    exact h.filed i b old
  vars := by
    intro b' hb' isVar
    obtain ⟨i, here⟩ := List.mem_iff_getElem?.1 hb'
    obtain ⟨b, old, -, sameKind, sameScope⟩ := binding_of_redeclare here
    rw [sameScope]
    exact h.vars b (List.mem_of_getElem? old) (sameKind ▸ isVar)
  imports := by
    intro b' hb' isImported
    obtain ⟨i, here⟩ := List.mem_iff_getElem?.1 hb'
    obtain ⟨b, old, -, sameKind, sameScope⟩ := binding_of_redeclare here
    rw [sameScope]
    exact h.imports b (List.mem_of_getElem? old) (sameKind ▸ isImported)
  helpers := by
    rw [length_bindings_redeclare]
    exact h.helpers

section File

variable {name : String} {kind : BindingKind} {scope : Nat} {span : Option Span}
  {target : ScopeRecord}

/-- The maps are still maps where a binding is added under a name that its scope
does not have. -/
theorem WellFormed.names_file (h : a.WellFormed)
    (there : a.scopes[scope]? = some target)
    (new : target.names.lookup name = none) {i : Nat} {s' : ScopeRecord}
    (here : (a.file name kind scope span).scopes[i]? = some s') :
    (s'.names.map Prod.fst).Nodup ∧ ∀ e ∈ s'.names,
      e.2 < a.bindings.length + 1 := by
  obtain ⟨s, before, -, -, names⟩ := scope_of_file here
  obtain ⟨distinct, known⟩ := h.names i s before
  have older : ∀ e ∈ s.names, e.2 < a.bindings.length + 1 :=
    fun e he => Nat.lt_succ_of_lt (known e he)
  rw [names]
  by_cases same : i = scope
  · rw [same, there] at before
    cases before
    rw [if_pos same]
    refine ⟨List.nodup_cons.2 ⟨not_mem_keys_of_lookup new, distinct⟩, ?_⟩
    intro e he
    rcases List.mem_cons.1 he with rfl | he
    · exact Nat.lt_succ_self _
    · exact older e he
  · rw [if_neg same]
    exact ⟨distinct, older⟩

/-- An old binding is still in its own place of the maps and in no other, and
the new one is in its place. -/
theorem WellFormed.filed_file (h : a.WellFormed)
    (there : a.scopes[scope]? = some target) {id : Nat} {b : Binding}
    (here : (a.file name kind scope span).bindings[id]? = some b) :
    b.scope < a.scopes.length ∧
      ∀ (i : Nat) (s' : ScopeRecord), (a.file name kind scope span).scopes[i]? =
        some s' → ∀ other, (other, id) ∈ s'.names ↔ i = b.scope ∧
      other = b.name := by
  have count : id < a.bindings.length + 1 := by
    rw [← length_bindings_file a name kind scope span]
    exact (List.getElem?_eq_some_iff.1 here).1
  rw [file] at here
  by_cases old : id < a.bindings.length
  · rw [List.getElem?_append_left old] at here
    obtain ⟨inside, filed⟩ := h.filed id b here
    refine ⟨inside, ?_⟩
    intro i s' here' other
    obtain ⟨s, before, -, -, names⟩ := scope_of_file here'
    rw [names, ← filed i s before other]
    by_cases same : i = scope
    · rw [if_pos same, List.mem_cons, or_iff_right]
      intro isNew
      rw [Prod.mk.injEq] at isNew
      omega
    · rw [if_neg same]
  · have last : id = a.bindings.length := by omega
    rw [last, List.getElem?_concat_length] at here
    cases here
    refine ⟨(List.getElem?_eq_some_iff.1 there).1, ?_⟩
    intro i s' here' other
    obtain ⟨s, before, -, -, names⟩ := scope_of_file here'
    have unknown : (other, id) ∉ s.names := by
      intro isOld
      have := (h.names i s before).2 _ isOld
      omega
    rw [names]
    by_cases same : i = scope
    · rw [if_pos same, List.mem_cons, or_iff_left unknown, Prod.mk.injEq]
      exact ⟨fun isNew => ⟨same, isNew.1⟩, fun isNew => ⟨isNew.2, last⟩⟩
    · rw [if_neg same]
      exact ⟨fun isOld => absurd isOld unknown,
        fun isNew => absurd isNew.1 same⟩

/-- A binding that is added in the right scope, under a name that the scope does
not have, keeps the tables well formed. -/
theorem WellFormed.file (h : a.WellFormed)
    (there : a.scopes[scope]? = some target)
    (new : target.names.lookup name = none)
    (isVars : kind = .var → target.kind = .program ∨ target.kind = .function ∨
      target.kind = .staticBlock) (isProgram : kind = .imported → scope = 0)
    (span : Option Span) :
    (a.file name kind scope span).WellFormed where
  program := by
    obtain ⟨s, here, programKind, outermost⟩ := h.program
    obtain ⟨s', here', sameParent, sameKind⟩ :=
      scope_file here name kind scope span
    exact ⟨s', here', sameKind.trans programKind, sameParent.trans outermost⟩
  inner := by
    intro i s' here' positive
    obtain ⟨s, here, sameParent, -⟩ := scope_of_file here'
    rw [sameParent]
    exact h.inner i s here positive
  current := by
    rw [length_scopes_file]
    exact h.current
  references := by
    rw [length_scopes_file]
    exact h.references
  names := by
    intro i s' here'
    rw [length_bindings_file]
    exact h.names_file there new here'
  filed := by
    intro id b here
    rw [length_scopes_file]
    exact h.filed_file there here
  vars := by
    intro b hb isVar
    rcases List.mem_append.1 hb with old | new
    · obtain ⟨s, here, holds⟩ := h.vars b old isVar
      obtain ⟨s', here', -, sameKind⟩ := scope_file here name kind scope span
      exact ⟨s', here', sameKind ▸ holds⟩
    · rw [List.mem_singleton.1 new] at isVar ⊢
      obtain ⟨s', here', -, sameKind⟩ := scope_file there name kind scope span
      exact ⟨s', here', sameKind ▸ isVars isVar⟩
  imports := by
    intro b hb isImported
    rcases List.mem_append.1 hb with old | new
    · exact h.imports b old isImported
    · rw [List.mem_singleton.1 new] at isImported ⊢
      exact isProgram isImported
  helpers := by
    intro helper hh
    rw [length_bindings_file]
    exact Nat.lt_succ_of_lt (h.helpers helper hh)

end File

/-- **A declaration keeps the tables well formed**, and its binding is there. -/
theorem WellFormed.declare (h : a.WellFormed) (name : String)
    (span : Option Span) (kind : BindingKind) :
    (a.declare name span kind).2.WellFormed ∧
      (a.declare name span kind).1 <
        (a.declare name span kind).2.bindings.length := by
  obtain ⟨target, there, isVars, isProgram⟩ := h.targetScope kind
  cases found : a.named (a.targetScope kind) name with
  | some id =>
    rw [declare_of_some found]
    rw [named_eq_some there] at found
    refine ⟨h.redeclare id span, ?_⟩
    rw [length_bindings_redeclare]
    exact (h.names _ _ there).2 _ (mem_of_lookup found)
  | none =>
    rw [declare_of_none found]
    rw [named_eq_some there] at found
    refine ⟨h.file there found isVars isProgram span, ?_⟩
    rw [length_bindings_file]
    exact Nat.lt_succ_self _

theorem WellFormed.declareHelper (h : a.WellFormed) (name : String)
    (span : Option Span) (kind : BindingKind) (origin : Origin) :
    (a.declareHelper name span kind origin).WellFormed := by
  obtain ⟨declared, known⟩ := h.declare name span kind
  refine { declared with helpers := ?_ }
  intro helper hh
  rcases List.mem_append.1 hh with old | new
  · exact declared.helpers helper old
  · rw [List.mem_singleton.1 new]
    exact known

theorem WellFormed.refer (h : a.WellFormed) (name : String) (span : Option Span)
    (kind : ReferenceKind) :
    (a.refer name span kind).WellFormed := by
  refine { h with references := ?_ }
  intro r hr
  rcases List.mem_append.1 hr with old | new
  · exact h.references r old
  · rw [List.mem_singleton.1 new]
    exact h.current

/-- **A note keeps the tables well formed.** -/
theorem WellFormed.apply (h : a.WellFormed) (n : Note) :
    (n.apply a).WellFormed := by
  cases n with
  | declare name span kind => exact (h.declare name span kind).1
  | helper name span kind origin => exact h.declareHelper name span kind origin
  | variableHelper name span declarator => exact h.declareHelper name span _ _
  | patternName name span =>
    rw [Note.apply]
    split
    · exact (h.declare name span _).1
    · exact h.refer name span .write
    · exact h
  | refer name span kind => exact h.refer name span kind
  | unrecognized | malformed => exact { h with }

/-- **The beginning of a setting keeps the tables well formed.** -/
theorem WellFormed.enter (h : a.WellFormed) (s : Setting) :
    (s.enter a).WellFormed := by
  cases s with
  | patterns | variablePattern | vars | exported => exact { h with }
  | scope kind =>
    have length : (Setting.enter a (.scope kind)).scopes.length =
        a.scopes.length + 1 := List.length_append
    have old (i : Nat) (s : ScopeRecord) (here : a.scopes[i]? = some s) :
        (Setting.enter a (.scope kind)).scopes[i]? = some s := by
      rw [Setting.enter,
        List.getElem?_append_left (List.getElem?_eq_some_iff.1 here).1, here]
    -- A scope of the longer table is an old one or the new one.
    have scopes (i : Nat) (s : ScopeRecord) (here :
        (Setting.enter a (.scope kind)).scopes[i]? = some s) : a.scopes[i]? =
        some s ∨ i = a.scopes.length ∧ s = ⟨some a.current, kind, []⟩ := by
      by_cases inside : i < a.scopes.length
      · rw [Setting.enter, List.getElem?_append_left inside] at here
        exact .inl here
      · have last : i = a.scopes.length := by
          have := (List.getElem?_eq_some_iff.1 here).1
          omega
        rw [last, Setting.enter, List.getElem?_concat_length] at here
        exact .inr ⟨last, (Option.some.inj here).symm⟩
    refine ⟨?_, ?_, ?_, ?_, ?_, ?_, ?_, h.imports, h.helpers⟩
    · obtain ⟨s, here, isProgram⟩ := h.program
      exact ⟨s, old 0 s here, isProgram⟩
    · intro i s here positive
      rcases scopes i s here with before | ⟨last, rfl⟩
      · exact h.inner i s before positive
      · exact ⟨a.current, last ▸ h.current, rfl⟩
    · rw [length]
      exact Nat.lt_succ_self _
    · intro r hr
      rw [length]
      exact Nat.lt_succ_of_lt (h.references r hr)
    · intro i s here
      rcases scopes i s here with before | ⟨-, rfl⟩
      · exact h.names i s before
      · exact ⟨List.nodup_nil, nofun⟩
    · intro id b here
      obtain ⟨inside, filed⟩ := h.filed id b here
      rw [length]
      refine ⟨Nat.lt_succ_of_lt inside, ?_⟩
      intro i s here' name
      rcases scopes i s here' with before | ⟨last, rfl⟩
      · exact filed i s before name
      · exact iff_of_false nofun fun isOld => by omega
    · intro b hb isVar
      obtain ⟨s, here, holds⟩ := h.vars b hb isVar
      exact ⟨s, old b.scope s here, holds⟩

/-- **The end of a setting keeps the tables well formed** if the saved scope is
there. -/
theorem WellFormed.leave (h : a.WellFormed) {saved : Analyzer}
    (known : saved.current < a.scopes.length) (s : Setting) :
    (s.leave saved a).WellFormed := by
  cases s with
  | scope kind => exact { h with current := known }
  | patterns | variablePattern | vars | exported => exact { h with }

end WellFormed

end Analyzer

/-- The tables are well formed in every state of a course. -/
def Course.WellFormed (r : Course) : Prop :=
  ∀ a ∈ r.states, a.WellFormed

theorem Course.WellFormed.now {r : Course} (h : r.WellFormed) :
    r.now.WellFormed :=
  h r.now List.mem_cons_self

theorem Course.WellFormed.step {r : Course} {next : Analyzer} (h : r.WellFormed)
    (now : next.WellFormed) : (r.step next).WellFormed := by
  intro a ha
  rcases List.mem_cons.1 ha with rfl | before
  · exact now
  · exact h a before

/-- The saved scope is there when a setting ends. -/
theorem current_lt_of_inside {r : Course} (h : r.now.WellFormed) (s : Setting)
    (inside : List Move) :
    r.now.current <
      (runAll (r.step (s.enter r.now)) inside).now.scopes.length := by
  have returned := Analyzer.runAll_returns (r.step (s.enter r.now)) inside
  have longer := ((r.now.shape_enter s).trans returned.shape).length_le
  rw [Analyzer.length_shape, Analyzer.length_shape] at longer
  have current := h.current
  omega

/-- **Moves keep the tables well formed**, in every state on the way. -/
theorem runAll_wellFormed {r : Course} (h : r.WellFormed) (moves : List Move) :
    (runAll r moves).WellFormed := by
  induction moves using moves_induct generalizing r with
  | nil => exact h
  | note n moves ih => exact ih (h.step (h.now.apply n))
  | within s inside moves inner ih =>
    have entered := inner (h.step (h.now.enter s))
    exact ih
      (entered.step (entered.now.leave (current_lt_of_inside h.now s inside) s))

theorem run_wellFormed {r : Course} (h : r.WellFormed) (move : Move) :
    (move.run r).WellFormed :=
  runAll_wellFormed h [move]

end NullGuard.Scope
