import NullGuard.Proofs.IdleWords
import NullGuard.Proofs.Surroundings

/-!
# Lexical scoping

`surroundings` lists the scopes of a program and the identifiers that do
something, each with the scopes around it, from the nodes of the program alone.
So one can say what lexical scoping with hoisting asks for without a table:

* a declaration falls into the program if it is an import, into the nearest
  program, function or static block if it is a `var`, and into the scope that it
  stands in otherwise (`targetPlace`);
* a name means what the innermost scope has for it into which any declaration of
  the name falls, be it in front of the use or behind it.

The table of a script agrees. It numbers the scopes of the outline, and the
outline has the scopes of the script (`covers_outline`), so every number is some
place. Each step of the walk that builds the table adds one scope or identifier
(`addAll_laid`). Its references are the uses with the scopes around them
(`references_addAll_laid`), and its bindings are the declarations, sorted by the
scopes that they fall into (`placed_addAll`) with one binding for a name and a
scope (`keys_addAll`). Looking up a name from scope to scope then gives what
the places say.
-/

namespace NullGuard.Scope

open NullGuard.Text (Span)
open NullGuard.Tree

/-- The first one on a path with a property. -/
def Innermost {α : Type} (p : α → Prop) (path : List α) (x : α) : Prop :=
  ∃ front back, path = front ++ x :: back ∧ p x ∧ ∀ y ∈ front, ¬ p y

/-- The scope that a declaration falls into, of those around it: the program if
it is an import, the nearest scope that holds variables if it is a `var`, and
the scope that it stands in otherwise. -/
def targetPlace (kind : BindingKind) (around : List Place) : Place :=
  match kind with
  | .imported => .program
  | .var => (around.find? fun p => p.kind.holdsVars).getD .program
  | _ => around.headD .program

/-- The name that is declared, if one is, with the scope that it falls into. -/
def Surrounded.declared (d : Surrounded) :
    List (String × Option Span × Place) :=
  match d.what with
  | some ⟨.declares kind, x, s⟩ => [(x, s, targetPlace kind d.around)]
  | _ => []

/-- The identifier with the scopes around it, if its value is read or assigned
to. -/
def Surrounded.used (d : Surrounded) : List Surrounded :=
  match d.what with
  | some ⟨.value, _, _⟩ => [d]
  | _ => []

/-- The declarations in a program, with the scopes that they fall into. -/
def declarationsIn (n : Node) : List (String × Option Span × Place) :=
  (surroundings n).flatMap Surrounded.declared

/-- The identifiers in a program whose values are read or assigned to, with the
scopes around them. -/
def usesIn (n : Node) : List Surrounded :=
  (surroundings n).flatMap Surrounded.used

/-- Some declaration of a name, anywhere in a program, falls into a scope. -/
def DeclaredIn (n : Node) (name : String) (p : Place) : Prop :=
  ∃ s, (name, s, p) ∈ declarationsIn n

/-- What is innermost among some is innermost among the others that they are
known by. -/
theorem innermost_map {α β : Type} {p : α → Prop} {q : β → Prop} {f : α → β}
    {path : List α} {x : α} (agree : ∀ y ∈ path, p y ↔ q (f y))
    (distinct : ∀ y ∈ path, f y = f x → y = x) :
    Innermost p path x ↔ Innermost q (path.map f) (f x) := by
  constructor
  · rintro ⟨front, back, rfl, here, before⟩
    refine ⟨front.map f, back.map f, by rw [List.map_append, List.map_cons],
      (agree x (by simp)).1 here, fun z hz => ?_⟩
    obtain ⟨y, hy, rfl⟩ := List.mem_map.1 hz
    exact (agree y (List.mem_append_left _ hy)).not.1 (before y hy)
  · rintro ⟨front, back, split, here, before⟩
    obtain ⟨ys, zs, rfl, rfl, behind⟩ := List.map_eq_append_iff.1 split
    obtain ⟨y, zs, rfl, same, -⟩ := List.map_eq_cons_iff.1 behind
    obtain rfl := distinct y (by simp) same
    exact ⟨ys, zs, rfl, (agree y (by simp)).2 here, fun z hz =>
      (agree z (List.mem_append_left _ hz)).not.2
        (before (f z) (List.mem_map_of_mem hz))⟩

namespace Table

section Walk

variable {t T : Table} {here : List Nat} {around : List Place}
  {os : List Outline} {ds : List Surrounded} {place : Nat → Place}

/-- A walk enters the scopes that the outlines are laid over. -/
theorem kinds_addAll (laid : Laid around os ds) (t : Table) (here : List Nat) :
    (t.addAll here os).scopes.map ScopeEntry.kind =
      t.scopes.map ScopeEntry.kind ++
        (ds.filterMap Surrounded.opened?).map Place.kind := by
  induction laid generalizing t here with
  | nil => exact (List.append_nil _).symm
  | leaf isLeaf _ ih =>
    rw [addAll, ih, scopes_add_leaf t here isLeaf, List.filterMap_append,
      filterMap_opened_standing, List.nil_append]
  | @scope around kind inside os ds es way _ _ inner ih =>
    have entered : (t.enter here kind).scopes.map ScopeEntry.kind =
        t.scopes.map ScopeEntry.kind ++ [kind] := List.map_append
    rw [addAll, add_scope, ih, inner, entered, filterMap_opened_scope,
      List.map_cons, List.map_append]
    simp only [List.append_assoc, List.cons_append, List.nil_append]

theorem length_addAll (laid : Laid around os ds) (t : Table) (here : List Nat) :
    (t.addAll here os).scopes.length =
      t.scopes.length + (ds.filterMap Surrounded.opened?).length := by
  have kinds := congrArg List.length (kinds_addAll laid t here)
  simpa only [List.length_append, List.length_map] using kinds

/-- The scopes around a place where the walk stands are those that it stands
in. -/
theorem Walking.path_eq (h : t.Walking here) (g : t.Grows T) :
    T.path (here.headD 0) = here := by
  obtain ⟨x, xs, rfl⟩ := List.exists_cons_of_ne_nil h.somewhere
  rw [Table.path, g.getD_scopes h.head_lt, h.linked]
  rfl

/-- **What a walk adds, one scope or identifier after the other.** If entering a
scope adds nothing to a list, and every other step adds what the identifiers in
it give, then a walk adds what all of them give, in some order. -/
theorem addAll_laid {α : Type} (listed : Table → List α)
    {gives : Surrounded → List α} (scopes : ∀ around, gives ⟨none, around⟩ = [])
    (enters : ∀ (t : Table) here k, listed (t.enter here k) = listed t)
    (step : ∀ (t : Table) here o, t.Walking here → t.Grows T →
      o.isLeaf = true → (listed (t.add here o)).Perm
      (listed t ++ (standing (here.map place) (recorded o)).flatMap gives))
    (laid : Laid around os ds) (h : t.Walking here)
    (stand : here.map place = around)
    (named : ∀ i p, (ds.filterMap Surrounded.opened?)[i]? = some p →
      place (t.scopes.length + i) = p) (grows : (t.addAll here os).Grows T) :
    (listed (t.addAll here os)).Perm (listed t ++ ds.flatMap gives) := by
  induction laid generalizing t here with
  | nil => exact .of_eq (List.append_nil _).symm
  | @leaf around o os ds isLeaf _ ih =>
    have first := step t here o h
      ((grows_addAll t here (o :: os)).trans grows) isLeaf
    rw [List.filterMap_append, filterMap_opened_standing, List.nil_append,
      ← scopes_add_leaf t here isLeaf] at named
    have rest := ih (h.leaf isLeaf) stand named grows
    rw [stand] at first
    rw [addAll, List.flatMap_append, ← List.append_assoc]
    exact rest.trans (first.append_right _)
  | @scope around kind inside os ds es way inner rest ihInner ihRest =>
    have entered : (t.enter here kind).scopes.length = t.scopes.length + 1 := by
      simp [Table.enter]
    rw [filterMap_opened_scope] at named
    have deeper := (grows_enter t here kind).trans
      (grows_addAll (t.enter here kind) (t.scopes.length :: here) inside)
    have left := h.grows deeper ((h.enter kind).addAll inside).placed
    rw [addAll, add_scope] at grows ⊢
    have within := ihInner (h.enter kind)
      (by rw [List.map_cons, stand, ← named 0 _ rfl]; rfl)
      (fun i p there => by
        rw [entered, Nat.add_assoc, Nat.add_comm 1 i]
        refine named (i + 1) p ?_
        rw [List.getElem?_cons_succ]
        exact List.getElem?_append_left (List.getElem?_eq_some_iff.1 there).1 ▸
          there)
      ((grows_addAll _ here os).trans grows)
    have behind := ihRest left stand
      (fun i p there => by
        rw [length_addAll inner, entered, Nat.add_assoc, Nat.add_assoc]
        refine named (1 + (_ + i)) p ?_
        rw [Nat.add_comm 1, List.getElem?_cons_succ, List.getElem?_append_right
          (Nat.le_add_right _ _), Nat.add_sub_cancel_left]
        exact there) grows
    rw [enters] at within
    rw [List.flatMap_cons, scopes, List.nil_append, List.flatMap_append,
      ← List.append_assoc]
    exact behind.trans (within.append_right _)

/-- A reference with the scopes around it. -/
def surroundedBy (T : Table) (place : Nat → Place) (r : Reference) :
    Surrounded :=
  ⟨some ⟨.value, r.name, r.span⟩, (T.path r.scope).map place⟩

/-- **The references of a walk** are the uses that it comes to, with the scopes
around them. -/
theorem references_addAll_laid (laid : Laid around os ds) (h : t.Walking here)
    (stand : here.map place = around)
    (named : ∀ i p, (ds.filterMap Surrounded.opened?)[i]? = some p →
      place (t.scopes.length + i) = p) (grows : (t.addAll here os).Grows T) :
    ((t.addAll here os).references.map (T.surroundedBy place)).Perm
      (t.references.map (T.surroundedBy place) ++
      ds.flatMap Surrounded.used) := by
  refine addAll_laid (fun t => t.references.map (T.surroundedBy place))
    (fun _ => rfl) (fun _ _ _ => rfl) (fun t here o h whole isLeaf => .of_eq ?_)
    laid h stand named grows
  cases o with
  | scope k inside => cases isLeaf
  | reference name span kind =>
    have site : T.surroundedBy place ⟨name, span, kind, here.headD 0⟩ =
        ⟨some ⟨.value, name, span⟩, here.map place⟩ := by
      rw [surroundedBy, h.path_eq whole]
    rw [add, List.map_append, List.map_singleton, site]
    rfl
  | declaration name span kind | helper name span kind origin =>
    have same : (t.declare here name span kind).2.references = t.references :=
      references_declare ..
    simp only [add, same]
    exact (List.append_nil _).symm
  | _ => exact (List.append_nil _).symm

/-- The declarations that a binding stands for, with its scope. -/
def declarationsOf (b : Binding) : List (Nat × String × Option Span) :=
  (b.span :: b.redeclarations).map fun s => (b.scope, b.name, s)

/-- The declarations that a table has, each with the scope that it fell into. -/
def placed (t : Table) : List (Nat × String × Option Span) :=
  t.bindings.flatMap declarationsOf

/-- A declaration is noted once, in the scope that it falls into. -/
theorem placed_declare (t : Table) (here : List Nat) (name : String)
    (span : Option Span) (kind : BindingKind) :
    ((t.declare here name span kind).2.placed).Perm
      (t.placed ++ [(t.targetScope here kind, name, span)]) := by
  cases found : t.bindingIn? name (t.targetScope here kind) with
  | none =>
    rw [declare_of_none found, placed, List.flatMap_append]
    exact .refl _
  | some id =>
    rw [declare_of_some found]
    rw [bindingIn?, List.findIdx?_eq_some_iff_getElem] at found
    obtain ⟨bound, fits, -⟩ := found
    rw [Bool.and_eq_true, beq_iff_eq, beq_iff_eq] at fits
    have split : t.bindings = t.bindings.take id ++ t.bindings[id] ::
        t.bindings.drop (id + 1) := by
      rw [← List.drop_eq_getElem_cons bound, List.take_append_drop]
    have noted : declarationsOf
        { t.bindings[id] with redeclarations := t.bindings[id].redeclarations ++
        [span] } = declarationsOf t.bindings[id] ++
        [(t.targetScope here kind, name, span)] := by
      rw [declarationsOf, declarationsOf, ← fits.1, ← fits.2,
        ← List.cons_append, List.map_append]
      rfl
    rw [placed, placed, List.modify_eq_take_cons_drop bound]
    conv => rhs; rw [split]
    rw [List.flatMap_append, List.flatMap_append, List.flatMap_cons,
      List.flatMap_cons, noted]
    simp only [List.append_assoc]
    exact ((List.perm_append_comm).append_left _).append_left _

/-- A table lets a declaration fall where it has to. -/
theorem place_targetScope (h : t.Stands here) (program : place 0 = .program)
    (kinds : ∀ x < t.scopes.length, t.scopeKind x = (place x).kind)
    (kind : BindingKind) :
    place (t.targetScope here kind) = targetPlace kind (here.map place) := by
  have head : place (here.headD 0) = (here.map place).headD .program := by
    obtain ⟨x, xs, rfl⟩ := List.exists_cons_of_ne_nil h.somewhere
    rfl
  cases kind with
  | var =>
    have same : (here.map place).find? (fun p => p.kind.holdsVars) =
        (here.find? fun x => (t.scopeKind x).holdsVars).map place := by
      rw [List.find?_map]
      refine congrArg (Option.map place) (find?_congr fun x hx => ?_)
      rw [kinds x (h.known x hx)]
      rfl
    simp only [targetScope, targetPlace, same]
    cases here.find? fun x => (t.scopeKind x).holdsVars with
    | none => exact program
    | some x => rfl
  | imported => exact program
  | lexical | param | function | «class» => exact head

/-- The declarations that a table has, each with the place that it fell into. -/
def placedIn (place : Nat → Place) (t : Table) :
    List (String × Option Span × Place) :=
  t.placed.map fun d => (d.2.1, d.2.2, place d.1)

/-- **The bindings of a walk** are the declarations that it comes to, each in
the scope that it falls into. -/
theorem placed_addAll (program : place 0 = .program)
    (kinds : ∀ x < T.scopes.length, T.scopeKind x = (place x).kind)
    (laid : Laid around os ds) (h : t.Walking here)
    (stand : here.map place = around)
    (named : ∀ i p, (ds.filterMap Surrounded.opened?)[i]? = some p →
      place (t.scopes.length + i) = p)
    (grows : (t.addAll here os).Grows T) :
    ((t.addAll here os).placedIn place).Perm
      (t.placedIn place ++ ds.flatMap Surrounded.declared) := by
  refine addAll_laid (placedIn place) (fun _ => rfl) (fun _ _ _ => rfl)
    (fun t here o h whole isLeaf => ?_) laid h stand named grows
  cases o with
  | scope k inside => cases isLeaf
  | declaration name span kind | helper name span kind origin =>
    have falls : place (t.targetScope here kind) =
        targetPlace kind (here.map place) := by
      rw [← h.toStands.targetScope_grows whole]
      exact place_targetScope (h.toStands.grows whole) program kinds kind
    have noted := (placed_declare t here name span kind).map
      fun d => (d.2.1, d.2.2, place d.1)
    rw [List.map_append, List.map_singleton, falls] at noted
    exact noted
  | _ => exact .of_eq (List.append_nil _).symm

/-- The scopes and names of the bindings. -/
def keys (t : Table) : List (Nat × String) :=
  t.bindings.map fun b => (b.scope, b.name)

/-- A further declaration of a name in a scope makes no further binding. -/
theorem keys_declare (distinct : t.keys.Nodup) (here : List Nat) (name : String)
    (span : Option Span) (kind : BindingKind) :
    (t.declare here name span kind).2.keys.Nodup := by
  cases found : t.bindingIn? name (t.targetScope here kind) with
  | some id =>
    have same : (t.declare here name span kind).2.keys = t.keys := by
      rw [declare_of_some found, keys, keys]
      refine List.ext_getElem? fun i => ?_
      rw [List.getElem?_map, List.getElem?_map, List.getElem?_modify]
      cases t.bindings[i]? with
      | none => rfl
      | some b => by_cases here : id = i <;> simp [here]
    rwa [same]
  | none =>
    rw [declare_of_none found, keys, List.map_append, List.map_singleton,
      List.nodup_append]
    refine ⟨distinct, List.nodup_cons.2 ⟨List.not_mem_nil, List.nodup_nil⟩,
      fun key old new isNew same => ?_⟩
    rw [same, List.mem_singleton.1 isNew] at old
    obtain ⟨b, hb, same⟩ := List.mem_map.1 old
    have other := List.findIdx?_eq_none_iff.1 found b hb
    rw [Prod.mk.injEq] at same
    simp [same.1, same.2] at other

/-- **No name has two bindings in one scope.** -/
theorem keys_addAll (distinct : t.keys.Nodup) (here : List Nat)
    (os : List Outline) :
    (t.addAll here os).keys.Nodup := by
  induction os using outlines_induct generalizing t here with
  | nil => exact distinct
  | leaf o os isLeaf ih =>
    refine ih ?_ here
    cases o with
    | scope k inside => cases isLeaf
    | declaration name span kind | helper name span kind origin =>
      exact keys_declare distinct here name span kind
    | _ => exact distinct
  | scope k inside os inner ih =>
    exact ih (inner (t := t.enter here k) distinct _) here

/-- The walk has been in the scopes around every reference. -/
theorem known_references (h : t.Walking here) (os : List Outline)
    (grows : (t.addAll here os).Grows T)
    (old : ∀ r ∈ t.references, ∀ x ∈ T.path r.scope, x < T.scopes.length) :
    ∀ r ∈ (t.addAll here os).references, ∀ x ∈ T.path r.scope,
      x < T.scopes.length := by
  induction os using outlines_induct generalizing t here with
  | nil => exact old
  | leaf o os isLeaf ih =>
    have whole := (grows_addAll t here (o :: os)).trans grows
    refine ih (h.leaf isLeaf) grows fun r hr => ?_
    cases o with
    | scope k inside => cases isLeaf
    | reference name span kind =>
      rcases List.mem_append.1 hr with before | new
      · exact old r before
      · obtain rfl := List.mem_singleton.1 new
        rw [h.path_eq whole]
        exact (h.toStands.grows whole).known
    | declaration name span kind | helper name span kind origin =>
      have same : (t.declare here name span kind).2.references = t.references :=
        references_declare ..
      exact old r (same ▸ hr)
    | _ => exact old r hr
  | scope k inside os inner ih =>
    have deeper := (grows_enter t here k).trans
      (grows_addAll (t.enter here k) (t.scopes.length :: here) inside)
    have left := h.grows deeper ((h.enter k).addAll inside).placed
    exact ih left grows
      (inner (h.enter k) ((grows_addAll _ here os).trans grows) old)

end Walk

section Resolve

variable {os : List Outline} {x : Nat} {name : String}

/-- A scope has a binding of a name. -/
def Binds (t : Table) (name : String) (x : Nat) : Prop :=
  ∃ b ∈ t.bindings, b.scope = x ∧ b.name = name

/-- A binding is found by its name and scope. -/
theorem bindingIn?_eq_some {id : Nat} :
    (ofOutline os).bindingIn? name x = some id ↔
      ∃ b, (ofOutline os).bindings[id]? = some b ∧
      b.scope = x ∧ b.name = name := by
  have start : ({} : Table).keys.Nodup := List.nodup_nil
  have distinct : (ofOutline os).keys.Nodup := keys_addAll start [0] os
  rw [bindingIn?, List.findIdx?_eq_some_iff_getElem]
  constructor
  · rintro ⟨bound, fits, -⟩
    rw [Bool.and_eq_true, beq_iff_eq, beq_iff_eq] at fits
    exact ⟨_, List.getElem?_eq_getElem bound, fits⟩
  · rintro ⟨b, there, rfl, rfl⟩
    obtain ⟨bound, rfl⟩ := List.getElem?_eq_some_iff.1 there
    refine ⟨bound, by simp, fun j before fits => ?_⟩
    rw [Bool.and_eq_true, beq_iff_eq, beq_iff_eq] at fits
    have same : (ofOutline os).keys[id]? = (ofOutline os).keys[j]? := by
      rw [keys, List.getElem?_map, List.getElem?_map, List.getElem?_eq_getElem
        bound, List.getElem?_eq_getElem (Nat.lt_trans before bound),
        Option.map_some, Option.map_some, fits.1, fits.2]
    have inside : id < (ofOutline os).keys.length := by
      rwa [keys, List.length_map]
    exact absurd ((List.getElem?_inj inside distinct).1 same)
      (Nat.ne_of_gt before)

theorem bindingIn?_eq_none :
    (ofOutline os).bindingIn? name x = none ↔
      ¬ (ofOutline os).Binds name x := by
  rw [bindingIn?, List.findIdx?_eq_none_iff, Binds]
  simp only [not_exists, not_and, Bool.and_eq_false_iff, beq_eq_false_iff_ne]
  exact forall₂_congr fun b hb => imp_iff_not_or.symm

/-- **A name means the binding of the innermost scope that has one.** -/
theorem resolve_eq_some {scope id : Nat} :
    (ofOutline os).resolve scope name = some id ↔
      ∃ b, (ofOutline os).bindings[id]? = some b ∧ b.name = name ∧
        Innermost ((ofOutline os).Binds name) ((ofOutline os).path scope)
          b.scope := by
  rw [resolve, List.findSome?_eq_some_iff]
  constructor
  · rintro ⟨front, y, back, split, found, before⟩
    obtain ⟨b, there, rfl, named⟩ := bindingIn?_eq_some.1 found
    exact ⟨b, there, named, front, back, split,
      ⟨b, List.mem_of_getElem? there, rfl, named⟩,
      fun z hz => bindingIn?_eq_none.1 (before z hz)⟩
  · rintro ⟨b, there, named, front, back, split, -, before⟩
    exact ⟨front, b.scope, back, split,
      bindingIn?_eq_some.2 ⟨b, there, rfl, named⟩,
      fun z hz => bindingIn?_eq_none.2 (before z hz)⟩

/-- **A name means nothing** just if no scope around has a binding of it. -/
theorem resolve_eq_none {scope : Nat} :
    (ofOutline os).resolve scope name = none ↔
      ∀ y ∈ (ofOutline os).path scope, ¬ (ofOutline os).Binds name y := by
  rw [resolve, List.findSome?_eq_none_iff]
  exact forall₂_congr fun _ _ => bindingIn?_eq_none

end Resolve

end Table

section Laid

variable {os : List Outline} {ds : List Surrounded} {place : Nat → Place}

/-- **Outlines have their scopes in a program**: the scopes of a table are the
places that its outline is laid over. -/
theorem exists_place (laid : Laid [.program] os ds) :
    ∃ place : Nat → Place, place 0 = .program ∧
      (List.range (Table.ofOutline os).scopes.length).map place =
        .program :: ds.filterMap Surrounded.opened? ∧
      (∀ i p, (ds.filterMap Surrounded.opened?)[i]? = some p →
        place (1 + i) = p) ∧
      ∀ x < (Table.ofOutline os).scopes.length,
        (Table.ofOutline os).scopeKind x = (place x).kind := by
  have kinds : (Table.ofOutline os).scopes.map ScopeEntry.kind =
      (.program :: ds.filterMap Surrounded.opened?).map Place.kind :=
    Table.kinds_addAll laid {} [0]
  have length : (Table.ofOutline os).scopes.length =
      (Place.program :: ds.filterMap Surrounded.opened?).length := by
    simpa only [List.length_map] using congrArg List.length kinds
  refine ⟨fun x => (.program :: ds.filterMap Surrounded.opened?).getD x
    .program, rfl, ?_, fun i p there => ?_, fun x known => ?_⟩
  · rw [length]
    refine List.ext_getElem? fun i => ?_
    rw [List.getElem?_map]
    rcases Nat.lt_or_ge i (Place.program ::
      ds.filterMap Surrounded.opened?).length with inside | out
    · rw [List.getElem?_range inside, Option.map_some,
        List.getD_eq_getElem?_getD, List.getElem?_eq_getElem inside,
        Option.getD_some]
    · rw [List.getElem?_eq_none out,
        List.getElem?_eq_none (by rwa [List.length_range])]
      rfl
  · have behind : (Place.program :: ds.filterMap Surrounded.opened?)[1 + i]? =
        some p := by rwa [Nat.add_comm, List.getElem?_cons_succ]
    simp only [List.getD_eq_getElem?_getD, behind, Option.getD_some]
  · have same := congrArg (fun l => l[x]?) kinds
    simp only [List.getElem?_map, List.getElem?_eq_getElem known,
      List.getElem?_eq_getElem (length ▸ known), Option.map_some,
      Option.some.injEq] at same
    simp only [Table.scopeKind, List.getD_eq_getElem?_getD,
      List.getElem?_eq_getElem known, List.getElem?_eq_getElem (length ▸ known),
      Option.getD_some, same]

/-- The references of a table are the uses that its outline is laid over. -/
theorem references_of_laid (laid : Laid [.program] os ds)
    (start : place 0 = .program)
    (behind : ∀ i p, (ds.filterMap Surrounded.opened?)[i]? = some p →
      place (1 + i) = p) :
    ((Table.ofOutline os).references.map
      ((Table.ofOutline os).surroundedBy place)).Perm
        (ds.flatMap Surrounded.used) :=
  Table.references_addAll_laid laid Table.walking_start
    (congrArg (fun p => [p]) start) behind (.refl _)

/-- Its bindings are the declarations. -/
theorem bindings_of_laid (laid : Laid [.program] os ds)
    (start : place 0 = .program)
    (behind : ∀ i p, (ds.filterMap Surrounded.opened?)[i]? = some p →
      place (1 + i) = p)
    (kinds : ∀ x < (Table.ofOutline os).scopes.length,
      (Table.ofOutline os).scopeKind x = (place x).kind) :
    ((Table.ofOutline os).bindings.flatMap fun b =>
      (b.span :: b.redeclarations).map fun s => (b.name, s, place b.scope)).Perm
        (ds.flatMap Surrounded.declared) := by
  have placed : ((Table.ofOutline os).placedIn place).Perm
      (ds.flatMap Surrounded.declared) :=
    Table.placed_addAll start kinds laid Table.walking_start
      (congrArg (fun p => [p]) start) behind (.refl _)
  have listed (b : Binding) :
      (Table.declarationsOf b).map (fun d => (d.2.1, d.2.2, place d.1)) =
        (b.span :: b.redeclarations).map fun s => (b.name, s, place b.scope) :=
    List.map_map
  rwa [Table.placedIn, Table.placed, List.map_flatMap, funext listed] at placed

end Laid

/-- A table resolves the names of a program by lexical scoping with hoisting,
where `place` says which scope of the program each of its scopes is. -/
structure ResolvesLexically (n : Node) (t : Table) (place : Nat → Place) :
    Prop where
  /-- The scopes of the table are those of the program, each once. -/
  scopes : ((List.range t.scopes.length).map place).Perm (scopesOf n)
  kinds : ∀ x < t.scopes.length, t.scopeKind x = (place x).kind
  /-- Every identifier with a value is a reference once, with the scopes around
  it that it has in the program. -/
  references : (t.references.map (t.surroundedBy place)).Perm (usesIn n)
  /-- Every identifier that declares a name is a binding or a further
  declaration of one once, in the scope that it falls into. -/
  bindings : (t.bindings.flatMap fun b => (b.span :: b.redeclarations).map
    fun s => (b.name, s, place b.scope)).Perm (declarationsIn n)
  /-- A word that does nothing is neither. -/
  idle : (spans n).Nodup → ∀ w ∈ idleWords n,
    w.2 ∉ t.references.map Reference.span ∧
    w.2 ∉ t.bindings.flatMap fun b => b.span :: b.redeclarations
  /-- A reference means the binding of its name in the innermost scope into
  which a declaration of the name falls. -/
  resolves : ∀ r ∈ t.references, ∀ id, t.resolve r.scope r.name = some id ↔
    ∃ b, t.bindings[id]? = some b ∧ b.name = r.name ∧
      Innermost (DeclaredIn n r.name) ((t.path r.scope).map place)
        (place b.scope)
  /-- It means nothing if there is no such scope. -/
  unresolved : ∀ r ∈ t.references, t.resolve r.scope r.name = none ↔
    ∀ p ∈ (t.path r.scope).map place, ¬ DeclaredIn n r.name p

section Scripts

variable {m : String} {n : Node} {a : Analysis} {place : Nat → Place}
  {t : Table} {os : List Outline} {ds : List Surrounded}

/-- What is among the surroundings does something in the program. -/
theorem mem_occurrences {d : Surrounded} {o : Occurrence}
    (hd : d ∈ surroundings n) (is : d.what = some o) : o ∈ occurrences n := by
  have mem : o ∈ (surroundings n).filterMap Surrounded.what :=
    List.mem_filterMap.2 ⟨d, hd, is⟩
  rwa [surroundings, List.filterMap_cons, filterMap_what_surrounded] at mem

theorem span_of_used {d : Surrounded} (hd : d ∈ usesIn n) :
    ∃ o ∈ occurrences n, d.what = some o := by
  obtain ⟨e, he, here⟩ := List.mem_flatMap.1 hd
  unfold Surrounded.used at here
  split at here
  · rename_i x s is
    obtain rfl := List.mem_singleton.1 here
    exact ⟨_, mem_occurrences he is, is⟩
  · cases here

theorem span_of_declared {x : String} {s : Option Span} {p : Place}
    (declared : (x, s, p) ∈ declarationsIn n) :
    ∃ o ∈ occurrences n, o.span = s := by
  obtain ⟨d, hd, here⟩ := List.mem_flatMap.1 declared
  unfold Surrounded.declared at here
  split at here
  · rename_i kind y s' is
    cases List.mem_singleton.1 here
    exact ⟨_, mem_occurrences hd is, rfl⟩
  · cases here

/-- **Scripts resolve by lexical scoping with hoisting.** Where the analysis of
a script succeeds, its scopes are the nodes of the script that open one. It
records every identifier with a value once as a reference and every identifier
that declares a name once as a binding or a further declaration of one, each
with the scopes that the nodes around it open, and nothing else. A reference is
resolved to a binding of its name just if the scope of the binding is the
innermost one around the reference into which some declaration of the name
falls, wherever it stands. -/
theorem resolves_lexically (script : isScript n = true)
    (isRegular : regular n = true) (program : isProgram n.kind = true)
    (analyzed : analyze m n = .ok a) :
    ∃ place, ResolvesLexically n a.table place := by
  have same : a.table = Table.ofOutline (outline m n) := by
    unfold analyze at analyzed
    dsimp only at analyzed
    split at analyzed
    · cases analyzed
    · cases analyzed
      rfl
  have independent : isDependent n = false := by
    obtain ⟨k, s, ns⟩ := n
    cases k
    all_goals first
      | rfl
      | cases program
  obtain ⟨ds, laid, perm⟩ := covers_outline script isRegular independent m
  obtain ⟨place, start, named, behind, kinds⟩ := exists_place laid
  have scopes : (List.map place
      (List.range (Table.ofOutline (outline m n)).scopes.length)).Perm
        (scopesOf n) := named ▸ (perm.filterMap Surrounded.opened?).cons _
  have references := (references_of_laid laid start behind).trans
    (perm.flatMap_right Surrounded.used)
  have bindings := (bindings_of_laid laid start behind kinds).trans
    (perm.flatMap_right Surrounded.declared)
  have walked : (Table.ofOutline (outline m n)).Walking [0] :=
    Table.walking_start.addAll (outline m n)
  have known := Table.known_references Table.walking_start (outline m n)
    (.refl _) nofun
  rw [same]
  -- The numbers of scopes are apart as places are.
  have apart {x y : Nat}
      (hx : x < (Table.ofOutline (outline m n)).scopes.length)
      (hy : y < (Table.ofOutline (outline m n)).scopes.length)
      (samePlace : place x = place y) : x = y :=
    List.inj_on_of_nodup_map (scopes.nodup_iff.2 (nodup_scopesOf program))
      (List.mem_range.2 hx) (List.mem_range.2 hy) samePlace
  have binds {name : String} {x : Nat}
      (hx : x < (Table.ofOutline (outline m n)).scopes.length) :
      (Table.ofOutline (outline m n)).Binds name x ↔
        DeclaredIn n name (place x) := by
    constructor
    · rintro ⟨b, hb, rfl, rfl⟩
      exact ⟨b.span, bindings.mem_iff.1
        (List.mem_flatMap.2 ⟨b, hb, List.mem_map_of_mem List.mem_cons_self⟩)⟩
    · rintro ⟨s, declared⟩
      obtain ⟨b, hb, here⟩ := List.mem_flatMap.1 (bindings.mem_iff.2 declared)
      obtain ⟨s', -, is⟩ := List.mem_map.1 here
      rw [Prod.mk.injEq, Prod.mk.injEq] at is
      exact ⟨b, hb, apart (walked.placed b hb) hx is.2.2, is.1⟩
  refine ⟨place, scopes, kinds, references, bindings, fun distinct w idle => ?_,
    fun r hr id => ?_, fun r hr => ?_⟩
  · have inactive := idle_disjoint script isRegular distinct idle
    constructor
    · intro isUsed
      obtain ⟨r, hr, there⟩ := List.mem_map.1 isUsed
      obtain ⟨o, ho, is⟩ :=
        span_of_used (references.mem_iff.1 (List.mem_map_of_mem hr))
      cases is
      exact inactive (List.mem_map.2 ⟨_, ho, there⟩)
    · intro isDeclared
      obtain ⟨b, hb, there⟩ := List.mem_flatMap.1 isDeclared
      obtain ⟨o, ho, here⟩ := span_of_declared (bindings.mem_iff.1
        (List.mem_flatMap.2 ⟨b, hb, List.mem_map_of_mem there⟩))
      exact inactive (List.mem_map.2 ⟨o, ho, here⟩)
  · rw [Table.resolve_eq_some]
    refine exists_congr fun b => and_congr_right fun there =>
      and_congr_right fun _ => ?_
    exact innermost_map (fun y hy => binds (known r hr y hy)) fun y hy =>
      apart (known r hr y hy) (walked.placed b (List.mem_of_getElem? there))
  · rw [Table.resolve_eq_none, List.forall_mem_map]
    exact forall₂_congr fun y hy => not_congr (binds (known r hr y hy))

/-- `l: x; { var x; }` -/
def hoistedUse : Node :=
  .node (.program false none) (some ⟨0, 17⟩)
    [ .node .labeled (some ⟨0, 5⟩) [ .node (.name "l") (some ⟨0, 1⟩) [],
    .node .exprStmt (some ⟨3, 5⟩) [.node (.ident "x") (some ⟨3, 4⟩) []]],
    .node .block (some ⟨6, 16⟩) [ .node (.varDecl .var false)
    (some ⟨8, 14⟩) [ .node (.declarator false) (some ⟨12, 13⟩)
    [.node (.bindingIdent "x" false) (some ⟨12, 13⟩) [], .none]]]]

/-- A use in front of a `var` in a block means that `var`, and the label is not
recorded. -/
theorem resolves_lexically_hoistedUse : ∃ a, analyze "idx" hoistedUse = .ok a ∧
    (∃ place, ResolvesLexically hoistedUse a.table place) ∧
    a.table.resolve 0 "x" = some 0 ∧
    some ⟨0, 1⟩ ∉ a.table.references.map Reference.span := by
  refine ⟨_, rfl, ?_⟩
  have lexical : ∃ place, ResolvesLexically hoistedUse
      (Table.ofOutline (outline "idx" hoistedUse)) place :=
    resolves_lexically (a := ⟨Table.ofOutline (outline "idx" hoistedUse),
      ⟨(identifiers hoistedUse).eraseDups⟩⟩) rfl rfl rfl rfl
  obtain ⟨place, holds⟩ := lexical
  exact ⟨⟨place, holds⟩, rfl,
    (holds.idle (by decide) ("l", some ⟨0, 1⟩) (by decide)).1⟩

end Scripts

end NullGuard.Scope
