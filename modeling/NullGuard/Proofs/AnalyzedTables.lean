import NullGuard.Proofs.Analyzers
import NullGuard.Proofs.Callees
import NullGuard.Proofs.Carrying

/-!
# What an analyzer leaves behind

A table keeps the scopes around each scope as a list, and its bindings in one
list without maps. What an analyzer keeps in well-formed tables is the same in
another form (`Analyzer.table`): the scopes around a scope are those that a
climb comes to, and the map of a scope has the binding that a search through all
bindings finds. So looking a name up gives the same in both, a declaration falls
into the same scope, and the moves of a program leave the table of its outline
behind (`Analyzer.runAll_table`).

With that, `tables_wellFormed` says what holds of the analysis of every program:
in every state on the way the tables are well formed and every climb ends, moves
come back to where they started, and the analysis is what the last state comes
to.
-/

namespace NullGuard.Scope

open NullGuard.Text (Span)
open NullGuard.Tree
open NullGuard.Transform (Rejection)

/-- The scopes around a scope, innermost first. -/
def outer (scopes : List ScopeRecord) (i : Nat) : List Nat :=
  match scopes[i]? with
  | none => []
  | some s =>
    match s.parent with
    | none => []
    | some p => if p < i then p :: outer scopes p else []
termination_by i

namespace Analyzer

/-- A scope and the scopes around it, innermost first. -/
def path (a : Analyzer) (scope : Nat) : List Nat :=
  scope :: outer a.scopes scope

/-- What an analyzer knows, as a table. -/
def table (a : Analyzer) : Table where
  scopes := a.scopes.mapIdx fun i s => ⟨s.kind, outer a.scopes i⟩
  bindings := a.bindings
  references := a.references
  helpers := a.helpers
  unrecognized := a.unrecognized

/-- The analysis that an analyzer comes to, where `names` avoids the identifiers
of the program. -/
def analysis (a : Analyzer) (names : NameSupply) : Except Rejection Analysis :=
  match a.fault with
  | some rejection => .error rejection
  | none => .ok ⟨a.table, names⟩

section Path

variable {a b : Analyzer} {i j p : Nat} {s : ScopeRecord}

/-- A scope has the same parent and kind in a table with the same scopes and
maybe more. -/
theorem scope_of_shape (longer : a.shape <+: b.shape)
    (here : a.scopes[i]? = some s) :
    ∃ s', b.scopes[i]? = some s' ∧ s'.parent = s.parent ∧ s'.kind = s.kind := by
  obtain ⟨more, split⟩ := longer
  have inside : i < a.shape.length := by
    rw [length_shape]
    exact (List.getElem?_eq_some_iff.1 here).1
  have same : b.shape[i]? = some (s.parent, s.kind) := by
    rw [← split, List.getElem?_append_left inside, shape, List.getElem?_map,
      here, Option.map_some]
  rw [shape, List.getElem?_map, Option.map_eq_some_iff] at same
  obtain ⟨s', there, pair⟩ := same
  rw [Prod.mk.injEq] at pair
  exact ⟨s', there, pair.1, pair.2⟩

/-- The scopes around a scope stay the same as the table grows. -/
theorem outer_of_shape (longer : a.shape <+: b.shape)
    (known : i < a.scopes.length) :
    outer b.scopes i = outer a.scopes i := by
  induction i using Nat.strongRecOn with
  | ind i ih =>
    have here : a.scopes[i]? = some a.scopes[i] :=
      List.getElem?_eq_getElem known
    obtain ⟨s', there, sameParent, -⟩ := scope_of_shape longer here
    rw [outer, outer, here, there]
    dsimp only
    rw [sameParent]
    cases a.scopes[i].parent with
    | none => rfl
    | some p =>
      dsimp only
      by_cases less : p < i
      · rw [if_pos less, if_pos less, ih p less (by omega)]
      · rw [if_neg less, if_neg less]

theorem path_of_shape (longer : a.shape <+: b.shape)
    (known : i < a.scopes.length) : b.path i = a.path i := by
  rw [path, path, outer_of_shape longer known]

/-- Around a scope is its parent with what is around that. -/
theorem WellFormed.path_up (h : a.WellFormed) (here : a.scopes[i]? = some s)
    (parent : s.parent = some p) : a.path i = i :: a.path p := by
  rw [path, outer, here]
  dsimp only
  rw [parent]
  dsimp only
  rw [if_pos (h.parent_lt here parent), path]

theorem path_top (here : a.scopes[i]? = some s) (outermost : s.parent = none) :
    a.path i = [i] := by
  rw [path, outer, here]
  dsimp only
  rw [outermost]

/-- **A climb is a search along the path**: what is found first on the path of a
scope is what there is at the end of the climb that stops where something is
found. -/
theorem WellFormed.findSome?_path (h : a.WellFormed) {α : Type}
    {found : Nat → Option α} {stops : ScopeRecord → Bool}
    (agree : ∀ (i : Nat) (s : ScopeRecord), a.scopes[i]? = some s →
      stops s = (found i).isSome) (climbed : Climbs a.scopes stops i j) :
    (a.path i).findSome? found = found j := by
  induction climbed with
  | @stop i s here ends =>
    obtain ⟨x, isHere⟩ :=
      Option.isSome_iff_exists.1 ((agree i s here).symm.trans ends)
    rw [path, List.findSome?_cons, isHere]
  | @top i s here outermost =>
    rw [path_top here outermost, List.findSome?_cons]
    cases found i <;> rfl
  | @up i p j s here passes parent more ih =>
    have nothing : found i = none :=
      Option.isNone_iff_eq_none.1
        (Option.isSome_eq_false_iff.1 ((agree i s here).symm.trans passes))
    rw [h.path_up here parent, List.findSome?_cons, nothing]
    exact ih

theorem getD_table_scopes (here : a.scopes[i]? = some s) :
    a.table.scopes.getD i default = ⟨s.kind, outer a.scopes i⟩ := by
  rw [List.getD_eq_getElem?_getD, table, List.getElem?_mapIdx, here]
  rfl

theorem table_path (known : i < a.scopes.length) :
    a.table.path i = a.path i := by
  rw [Table.path, getD_table_scopes (List.getElem?_eq_getElem known), path]

/-- Tables have the same scopes where a climb goes along the same. -/
theorem table_scopes_of_shape (same : a.shape = b.shape) :
    a.table.scopes = b.table.scopes := by
  refine List.ext_getElem? fun i => ?_
  have length : a.scopes.length = b.scopes.length := by
    rw [← length_shape, ← length_shape, same]
  by_cases known : i < a.scopes.length
  · have here : a.scopes[i]? = some a.scopes[i] :=
      List.getElem?_eq_getElem known
    have longer : a.shape <+: b.shape := same ▸ List.prefix_rfl
    obtain ⟨s', there, -, sameKind⟩ := scope_of_shape longer here
    rw [table, table, List.getElem?_mapIdx, List.getElem?_mapIdx, here, there,
      Option.map_some, Option.map_some, sameKind, outer_of_shape longer known]
  · rw [List.getElem?_eq_none, List.getElem?_eq_none]
    · rw [table, List.length_mapIdx]
      omega
    · rw [table, List.length_mapIdx]
      omega

/-- A further scope is a further entry. -/
theorem table_scopes_append (longer : a.shape <+: b.shape)
    (split : b.scopes = a.scopes ++ [s]) :
    b.table.scopes = a.table.scopes ++
      [⟨s.kind, outer b.scopes a.scopes.length⟩] := by
  have old : a.scopes.mapIdx (fun i s =>
      (⟨s.kind, outer b.scopes i⟩ : ScopeEntry)) = a.table.scopes := by
    rw [table, List.mapIdx_eq_mapIdx_iff]
    intro i known
    rw [outer_of_shape longer known]
  have entries : b.table.scopes = b.scopes.mapIdx fun i s =>
      ⟨s.kind, outer b.scopes i⟩ := rfl
  rw [entries, ← old]
  generalize outer b.scopes = around
  rw [split, List.mapIdx_concat]

end Path

section Declare

variable {a : Analyzer} {i : Nat}

/-- An entry of a map is found under its name. -/
theorem lookup_of_mem {names : List (String × Nat)} {name : String} {id : Nat}
    (distinct : (names.map Prod.fst).Nodup) (mem : (name, id) ∈ names) :
    names.lookup name = some id := by
  obtain ⟨front, back, rfl⟩ := List.append_of_mem mem
  rw [List.map_append, List.map_cons, List.nodup_append] at distinct
  refine List.lookup_eq_some_iff.2 ⟨front, back, rfl, ?_⟩
  intro e he
  have differs :=
    distinct.2.2 e.1 (List.mem_map_of_mem he) name List.mem_cons_self
  exact bne_iff_ne.2 differs.symm

/-- **The map of a scope has what a search through all bindings finds.** -/
theorem WellFormed.bindingIn?_table (h : a.WellFormed)
    (known : i < a.scopes.length) (name : String) :
    a.table.bindingIn? name i = a.named i name := by
  have here : a.scopes[i]? = some a.scopes[i] := List.getElem?_eq_getElem known
  obtain ⟨distinct, inRange⟩ := h.names i _ here
  -- A binding that fits is in the map.
  have fitting (j : Nat) (bound : j < a.bindings.length)
      (fits : (a.bindings[j].scope == i && a.bindings[j].name == name) = true) :
      a.scopes[i].names.lookup name = some j := by
    rw [Bool.and_eq_true, beq_iff_eq, beq_iff_eq] at fits
    obtain ⟨-, filed⟩ := h.filed j _ (List.getElem?_eq_getElem bound)
    exact lookup_of_mem distinct
      ((filed i _ here name).2 ⟨fits.1.symm, fits.2.symm⟩)
  rw [named_eq_some here, Table.bindingIn?, table]
  cases found : a.scopes[i].names.lookup name with
  | none =>
    rw [List.findIdx?_eq_none_iff]
    intro b hb
    obtain ⟨j, bound, rfl⟩ := List.getElem_of_mem hb
    rw [Bool.eq_false_iff]
    intro fits
    rw [fitting j bound fits] at found
    cases found
  | some id =>
    have mem := mem_of_lookup found
    have bound : id < a.bindings.length := inRange _ mem
    obtain ⟨-, filed⟩ := h.filed id _ (List.getElem?_eq_getElem bound)
    obtain ⟨sameScope, sameName⟩ := (filed i _ here name).1 mem
    rw [List.findIdx?_eq_some_iff_getElem]
    refine ⟨bound, by simp [← sameScope, ← sameName], ?_⟩
    intro j before fits
    have other := fitting j (by omega) fits
    rw [found] at other
    cases other
    omega

/-- **A name means the same** in the table and by climbing up the scopes. -/
theorem WellFormed.resolve_table (h : a.WellFormed)
    (known : i < a.scopes.length) (name : String) :
    a.table.resolve i name = a.resolve i name := by
  have climbed := h.climbs (fun s => (s.names.lookup name).isSome) known
  have agree (j : Nat) (s : ScopeRecord) (here : a.scopes[j]? = some s) :
      (s.names.lookup name).isSome = (a.table.bindingIn? name j).isSome := by
    rw [h.bindingIn?_table (List.getElem?_eq_some_iff.1 here).1,
      named_eq_some here]
  obtain ⟨s, there, -⟩ := climbed.ends
  have inside := (List.getElem?_eq_some_iff.1 there).1
  rw [Table.resolve, table_path known, h.findSome?_path agree climbed,
    h.bindingIn?_table inside, Analyzer.resolve]

theorem scopeKind_table {s : ScopeRecord} (here : a.scopes[i]? = some s) :
    a.table.scopeKind i = s.kind := by
  rw [Table.scopeKind, getD_table_scopes here]

/-- **A declaration falls into the same scope** in the table. -/
theorem WellFormed.targetScope_table (h : a.WellFormed) (kind : BindingKind) :
    a.table.targetScope (a.path a.current) kind = a.targetScope kind := by
  cases kind with
  | imported | lexical | param | function | «class» => rfl
  | var =>
    -- A scope that holds variables is found where it is given itself as an
    -- answer.
    let found (i : Nat) : Option Nat := if (a.table.scopeKind i).holdsVars
      then some i else none
    have climbed := h.climbs (fun s => s.kind.holdsVars) h.current
    have agree (i : Nat) (s : ScopeRecord) (here : a.scopes[i]? = some s) :
        s.kind.holdsVars = (found i).isSome := by
      simp only [found, scopeKind_table here]
      cases s.kind.holdsVars <;> rfl
    have search :
        (a.path a.current).find? (fun i => (a.table.scopeKind i).holdsVars) =
        (a.path a.current).findSome? found := by
      induction a.path a.current with
      | nil => rfl
      | cons i is ih =>
        rw [List.find?_cons, List.findSome?_cons, ih]
        simp only [found]
        cases (a.table.scopeKind i).holdsVars <;> rfl
    rw [Table.targetScope, search, h.findSome?_path agree climbed,
      Analyzer.targetScope]
    obtain ⟨s, there, holds | outermost⟩ := climbed.ends
    · simp [found, scopeKind_table there, holds]
    · rw [h.eq_zero there outermost]
      simp only [found]
      split <;> rfl

/-- **A declaration does to the table what it does to the analyzer.** -/
theorem WellFormed.declare_table (h : a.WellFormed) (name : String)
    (span : Option Span) (kind : BindingKind) :
    a.table.declare (a.path a.current) name span kind =
      ((a.declare name span kind).1, (a.declare name span kind).2.table) := by
  have target := h.targetScope_table kind
  obtain ⟨s, there, -⟩ := h.targetScope kind
  have inside := (List.getElem?_eq_some_iff.1 there).1
  have same : a.table.bindingIn? name (a.table.targetScope
      (a.path a.current) kind) = a.named (a.targetScope kind) name := by
    rw [target, h.bindingIn?_table inside]
  cases found : a.named (a.targetScope kind) name with
  | some id =>
    rw [declare_of_some found, Table.declare_of_some (same.trans found)]
    rfl
  | none =>
    rw [declare_of_none found, Table.declare_of_none (same.trans found), target]
    have scopes :=
      table_scopes_of_shape (a.shape_file name kind (a.targetScope kind) span)
    congr 1
    rw [table, table, Table.mk.injEq]
    exact ⟨scopes.symm, rfl, rfl, rfl, rfl⟩

end Declare

section Moves

variable {a : Analyzer}

/-- **A note does to the table what its outline says.** -/
theorem WellFormed.apply_table (h : a.WellFormed) (n : Note) :
    (n.apply a).table = a.table.addAll (a.path a.current)
      (n.outline a.context) := by
  have declared (name : String) (span : Option Span) (kind : BindingKind) :
      (a.declare name span kind).2.table =
      (a.table.declare (a.path a.current) name span kind).2 := by
    rw [h.declare_table]
  have helper (name : String) (span : Option Span) (kind : BindingKind)
      (origin : Origin) : (a.declareHelper name span kind origin).table =
      a.table.add (a.path a.current) (.helper name span kind origin) := by
    rw [Table.add, h.declare_table]
    rfl
  cases n with
  | declare name span kind => exact declared name span kind
  | helper name span kind origin => exact helper name span kind origin
  | variableHelper name span declarator => exact helper name span _ _
  | patternName name span =>
    rw [Note.apply, Note.outline]
    cases a.context.mode with
    | declare kind => exact declared name span kind
    | write | read => rfl
  | refer | unrecognized | malformed => rfl

theorem fault_declare (a : Analyzer) (name : String) (span : Option Span)
    (kind : BindingKind) :
    (a.declare name span kind).2.fault = a.fault := by
  cases found : a.named (a.targetScope kind) name with
  | some id =>
    rw [declare_of_some found]
    rfl
  | none =>
    rw [declare_of_none found]
    rfl

/-- The fault of an analyzer is the first malformed import that it came to. -/
theorem fault_apply (a : Analyzer) (n : Note) :
    (n.apply a).fault = a.fault.or (malformedAmong? (n.outline a.context)) := by
  have none : a.fault.or none = a.fault := Option.or_none
  cases n with
  | declare name span kind =>
    exact (a.fault_declare name span kind).trans none.symm
  | helper name span kind origin =>
    exact (a.fault_declare name span kind).trans none.symm
  | variableHelper name span declarator =>
    exact (a.fault_declare name span _).trans none.symm
  | patternName name span =>
    rw [Note.apply, Note.outline]
    cases a.context.mode with
    | declare kind => exact (a.fault_declare name span kind).trans none.symm
    | write | read => exact none.symm
  | refer | unrecognized => exact none.symm
  | malformed rejection => rfl

/-- The beginning of a scope adds an entry for it, and the analyzer stands in
it. -/
theorem WellFormed.enter_table (h : a.WellFormed) (kind : ScopeKind) :
    (Setting.enter a (.scope kind)).table =
      a.table.enter (a.path a.current) kind ∧
      (Setting.enter a (.scope kind)).path a.scopes.length = a.scopes.length ::
        a.path a.current := by
  have entered := h.enter (.scope kind)
  have longer := a.shape_enter (.scope kind)
  have new : (Setting.enter a (.scope kind)).scopes[a.scopes.length]? =
      some ⟨some a.current, kind, []⟩ :=
    List.getElem?_concat_length
  have path : (Setting.enter a (.scope kind)).path a.scopes.length =
      a.scopes.length :: a.path a.current := by
    rw [entered.path_up new rfl, path_of_shape longer h.current]
  refine ⟨?_, path⟩
  have around := (List.cons.inj path).2
  have scopes : (Setting.enter a (.scope kind)).table.scopes = a.table.scopes ++
      [⟨kind, a.path a.current⟩] := by
    rw [table_scopes_append longer rfl, around]
  rw [table, Table.enter, Table.mk.injEq]
  exact ⟨scopes, rfl, rfl, rfl, rfl⟩

/-- What is put back at the end of a setting leaves the tables alone. -/
theorem table_leave (saved b : Analyzer) (s : Setting) :
    (s.leave saved b).table = b.table := by
  cases s <;> rfl

theorem fault_leave (saved b : Analyzer) (s : Setting) :
    (s.leave saved b).fault = b.fault := by
  cases s <;> rfl

theorem fault_enter (s : Setting) : (s.enter a).fault = a.fault := by
  cases s <;> rfl

/-- What is said within a setting does the same to the table as what is said
around it. -/
theorem WellFormed.enter_addAll (h : a.WellFormed) (s : Setting)
    (os : List Outline) :
    (s.enter a).table.addAll ((s.enter a).path (s.enter a).current) os =
      a.table.addAll (a.path a.current) (s.around os) := by
  cases s with
  | scope kind =>
    obtain ⟨table, path⟩ := h.enter_table kind
    have length : a.table.scopes.length = a.scopes.length := List.length_mapIdx
    rw [Setting.around, Table.addAll, Table.addAll, Table.add_scope, length,
      ← table, ← path]
    rfl
  | patterns | variablePattern | vars | exported => rfl

theorem context_enter (s : Setting) :
    (s.enter a).context = s.context a.context := by
  cases s <;> rfl

theorem malformedAmong?_around (s : Setting) (os : List Outline) :
    malformedAmong? (s.around os) = malformedAmong? os := by
  cases s with
  | scope kind => exact malformedAmong?_scope kind os
  | patterns | variablePattern | vars | exported => rfl

/-- The analyzer stands in the same scopes when it has returned. -/
theorem Returns.path {b : Analyzer} (returns : a.Returns b)
    (known : a.current < a.scopes.length) :
    b.path b.current = a.path a.current := by
  rw [returns.current, path_of_shape returns.shape known]

end Moves

/-- **Moves do to the table what their outline says.** -/
theorem runAll_table {r : Course} (h : r.WellFormed) (moves : List Move) :
    (runAll r moves).now.table = r.now.table.addAll (r.now.path r.now.current)
      (outlineAmong r.now.context moves) := by
  induction moves using moves_induct generalizing r with
  | nil => rfl
  | note n moves ih =>
    have returns := returns_run r (.note n)
    have first : ((Move.note n).run r).now.table = r.now.table.addAll
        (r.now.path r.now.current) (n.outline r.now.context) :=
      h.now.apply_table n
    rw [runAll, ih (run_wellFormed h _), first, returns.path h.now.current,
      returns.context, outlineAmong, Move.outline, addAll_append]
  | within s inside moves inner ih =>
    have returns := returns_run r (.within s inside)
    have first : ((Move.within s inside).run r).now.table =
        r.now.table.addAll (r.now.path r.now.current)
        (s.around (outlineAmong (s.context r.now.context) inside)) := by
      have entered := inner (h.step (h.now.enter s))
      rw [← h.now.enter_addAll, ← context_enter]
      exact (table_leave r.now _ s).trans entered
    rw [runAll, ih (run_wellFormed h _), first, returns.path h.now.current,
      returns.context, outlineAmong, Move.outline, addAll_append]

/-- **Moves fail where their outline has a malformed import first.** -/
theorem runAll_fault (r : Course) (moves : List Move) :
    (runAll r moves).now.fault =
      r.now.fault.or (malformedAmong? (outlineAmong r.now.context moves)) := by
  induction moves using moves_induct generalizing r with
  | nil => exact Option.or_none.symm
  | note n moves ih =>
    have returns := returns_run r (.note n)
    have first : ((Move.note n).run r).now.fault = r.now.fault.or
        (malformedAmong? (n.outline r.now.context)) := fault_apply r.now n
    rw [runAll, ih, first, returns.context, outlineAmong, Move.outline,
      malformedAmong?_append, Option.or_assoc]
  | within s inside moves inner ih =>
    have returns := returns_run r (.within s inside)
    have first : ((Move.within s inside).run r).now.fault =
        r.now.fault.or (malformedAmong?
        (s.around (outlineAmong (s.context r.now.context) inside))) := by
      have entered := inner (r.step (s.enter r.now))
      have fault : (s.enter r.now).fault = r.now.fault := fault_enter s
      rw [malformedAmong?_around, ← context_enter, ← fault]
      exact (fault_leave r.now _ s).trans entered
    rw [runAll, ih, first, returns.context, outlineAmong, Move.outline,
      malformedAmong?_append, Option.or_assoc]

theorem path_start : ({} : Analyzer).path 0 = [0] :=
  path_top rfl rfl

theorem table_start : ({} : Analyzer).table = {} := by
  have around : outer ({} : Analyzer).scopes 0 = [] :=
    (List.cons.inj path_start).2
  rw [table, List.mapIdx_cons, around]
  rfl

theorem wellFormed_course_start : ({} : Course).WellFormed := by
  intro a ha
  rw [List.mem_singleton.1 ha]
  exact wellFormed_start

/-- **The analysis of a program is what its course comes to.** -/
theorem analyze_eq_analysis (m : String) (n : Node) :
    analyze m n = (courseOf m n).now.analysis ⟨(identifiers n).eraseDups⟩ := by
  have fault : (courseOf m n).now.fault = malformedAmong? (outline m n) := by
    rw [courseOf, runAll_fault, ← outline_visit]
    rfl
  have table : (courseOf m n).now.table = Table.ofOutline (outline m n) := by
    rw [courseOf, runAll_table wellFormed_course_start, table_start, path_start,
      outline_visit, Table.ofOutline]
  cases found : malformedAmong? (outline m n) with
  | some rejection => simp only [analyze, analysis, fault, found]
  | none => simp only [analyze, analysis, fault, found, table]

end Analyzer

/-- **The tables of an analyzer stay well formed.** In every state of the course
of a program, in the middle of it and at its end, the tables are well formed,
and a climb from any scope there is ends, where it is computed to end. Whatever
an analyzer is at, moves bring it back to the scope and the context that it was
in. The analysis of the program is what the last state comes to, and there every
name means in every scope what the climb for it finds. -/
theorem tables_wellFormed (m : String) (n : Node) :
    (∀ a ∈ (courseOf m n).states, a.WellFormed ∧
      ∀ stops, ∀ scope < a.scopes.length,
        Climbs a.scopes stops scope (climb a.scopes stops scope)) ∧
      (∀ (r : Course) (moves : List Move), (runAll r moves).now.current =
        r.now.current ∧
        (runAll r moves).now.context = r.now.context) ∧
      analyze m n = (courseOf m n).now.analysis ⟨(identifiers n).eraseDups⟩ ∧
      ∀ scope < (courseOf m n).now.scopes.length,
        ∀ name, (courseOf m n).now.table.resolve scope name =
        (courseOf m n).now.resolve scope name := by
  have wellFormed : (courseOf m n).WellFormed :=
    runAll_wellFormed Analyzer.wellFormed_course_start _
  refine ⟨?_, ?_, Analyzer.analyze_eq_analysis m n, ?_⟩
  · intro a ha
    exact ⟨wellFormed a ha,
      fun stops _ known => (wellFormed a ha).climbs stops known⟩
  · intro r moves
    have returned := Analyzer.runAll_returns r moves
    exact ⟨returned.current, returned.context⟩
  · intro scope known name
    exact wellFormed.now.resolve_table known name

end NullGuard.Scope
