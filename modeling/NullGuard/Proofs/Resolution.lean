import NullGuard.Scope.Table

/-!
# Resolution without numbers

A table numbers scopes and bindings and finds a name by going through numbers.
The meaning of a name does not depend on them. Here it is read off the outline
itself:

* `reaching` collects the declarations that come out of a part of an outline. A
  `var` comes out of every scope that does not hold variables, an import out of
  every scope, and any other declaration out of none.
* The *frame* of a scope is what reaches it from the inside. A name means the
  first declaration of it in the innermost frame that has one (`lookUp`).
* `resolved` goes through an outline with the frames around it and lists every
  use with the declaration it means.

`resolve_ofOutline` says that the table of an outline resolves its references
exactly so. The proof follows the walk that builds the table. `seen` is what a
table has for a name in one scope, and the two invariants are about it: a walk
adds to an old scope just what reaches it (`seen_addAll`), and it adds
references that resolve in any later table that has seen the same
(`references_addAll`).
-/

namespace NullGuard.Scope

open NullGuard.Text (Span)

/-- Whether an outline is no scope. -/
def Outline.isLeaf : Outline → Bool
  | scope _ _ => false
  | _ => true

/-- **Induction over several outlines**, where a scope comes with the hypothesis
for its inside. -/
theorem outlines_induct {P : List Outline → Prop} (nil : P [])
    (leaf : ∀ o os, o.isLeaf = true → P os → P (o :: os))
    (scope : ∀ k inside os, P inside → P os → P (.scope k inside :: os))
    (os : List Outline) : P os :=
  Outline.rec_1 (motive_1 := fun o => ∀ os, P os → P (o :: os)) (motive_2 := P)
    (fun k inside ih os h => scope k inside os ih h)
    (fun _ _ _ os h => leaf _ os rfl h)
    (fun _ _ _ _ os h => leaf _ os rfl h)
    (fun _ _ _ os h => leaf _ os rfl h)
    (fun _ os h => leaf _ os rfl h)
    (fun _ os h => leaf _ os rfl h)
    nil (fun _ os ih h => ih os h) os

/-- A declaration as the ones who mean it see it. -/
structure Declared where
  name : String
  span : Option Span
  kind : BindingKind
deriving DecidableEq, Repr, Inhabited

/-- Which declarations are let out. -/
structure Reach where
  vars : Bool
  lexicals : Bool
  imports : Bool
deriving DecidableEq, Repr

namespace Reach

/-- Whether declarations of a kind are let out. -/
def admits (r : Reach) : BindingKind → Bool
  | .var => r.vars
  | .imported => r.imports
  | _ => r.lexicals

/-- What is let out of a scope further in. -/
def through (r : Reach) (k : ScopeKind) : Reach :=
  ⟨r.vars && !k.holdsVars, false, r.imports⟩

/-- What a scope lets into its own frame. -/
def own (k : ScopeKind) : Reach :=
  ⟨k.holdsVars, true, false⟩

/-- What the program lets into its frame. -/
def root : Reach :=
  ⟨true, true, true⟩

/-- Nothing. -/
def nowhere : Reach :=
  ⟨false, false, false⟩

end Reach

mutual

/-- The declarations that come out of an outline, in visiting order. -/
def reaching (r : Reach) : Outline → List Declared
  | .scope k inside => reachingAll (r.through k) inside
  | .declaration name span kind | .helper name span kind _ =>
    if r.admits kind then [⟨name, span, kind⟩] else []
  | _ => []

/-- The declarations that come out of several outlines. -/
def reachingAll (r : Reach) : List Outline → List Declared
  | [] => []
  | o :: os => reaching r o ++ reachingAll r os

end

/-- The first declaration of a name. -/
def firstOf (name : String) (ds : List Declared) : Option Declared :=
  ds.find? fun d => d.name == name

/-- Where a name is declared, in order. -/
def placesOf (name : String) (ds : List Declared) : List (Option Span) :=
  (ds.filter fun d => d.name == name).map Declared.span

theorem placesOf_append (name : String) (ds ds' : List Declared) :
    placesOf name (ds ++ ds') = placesOf name ds ++ placesOf name ds' := by
  rw [placesOf, List.filter_append, List.map_append]
  rfl

/-- Where a binding is declared: first, and then again. -/
def Binding.places (b : Binding) : List (Option Span) :=
  b.span :: b.redeclarations

/-- A binding that is not declared again is declared in one place. -/
theorem Binding.span_of_once {b : Binding} (once : b.redeclarations = [])
    {s : Option Span} (here : s ∈ b.places) : b.span = s := by
  rw [Binding.places, once] at here
  exact (List.mem_singleton.1 here).symm

/-- What a name means, given the frames around it, innermost first. -/
def lookUp (frames : List (List Declared)) (name : String) : Option Declared :=
  frames.findSome? (firstOf name)

/-- A use of a name, with the declaration it means. -/
structure Resolved where
  name : String
  span : Option Span
  kind : ReferenceKind
  means : Option Declared
deriving DecidableEq, Repr

mutual

/-- The uses in an outline, given the frames around it. -/
def resolved (frames : List (List Declared)) : Outline → List Resolved
  | .scope k inside =>
    resolvedAll (reachingAll (.own k) inside :: frames) inside
  | .reference name span kind => [⟨name, span, kind, lookUp frames name⟩]
  | _ => []

/-- The uses in several outlines. -/
def resolvedAll (frames : List (List Declared)) : List Outline → List Resolved
  | [] => []
  | o :: os => resolved frames o ++ resolvedAll frames os

end

@[simp] theorem reachingAll_append (r : Reach) (os os' : List Outline) :
    reachingAll r (os ++ os') = reachingAll r os ++ reachingAll r os' := by
  induction os with
  | nil => rfl
  | cons o os ih =>
    simp only [List.cons_append, reachingAll, ih, List.append_assoc]

@[simp] theorem resolvedAll_append (frames : List (List Declared))
    (os os' : List Outline) :
    resolvedAll frames (os ++ os') = resolvedAll frames os ++
      resolvedAll frames os' := by
  induction os with
  | nil => rfl
  | cons o os ih =>
    simp only [List.cons_append, resolvedAll, ih, List.append_assoc]

@[simp] theorem firstOf_append (name : String) (ds ds' : List Declared) :
    firstOf name (ds ++ ds') = (firstOf name ds).or (firstOf name ds') :=
  List.find?_append

@[simp] theorem lookUp_cons (frame : List Declared)
    (frames : List (List Declared)) (name : String) :
    lookUp (frame :: frames) name =
      (firstOf name frame).or (lookUp frames name) := by
  simp only [lookUp, List.findSome?_cons]
  cases firstOf name frame <;> rfl

/-- Nothing comes out where nothing is let out. -/
theorem reachingAll_nowhere (os : List Outline) :
    reachingAll .nowhere os = [] := by
  induction os using outlines_induct with
  | nil => rfl
  | leaf o os isLeaf ih =>
    rw [reachingAll, ih]
    cases o with
    | scope k inside => cases isLeaf
    | declaration name span kind | helper name span kind origin =>
      cases kind <;> rfl
    | _ => rfl
  | scope k inside os inner ih =>
    rw [reachingAll, ih, List.append_nil, reaching]
    exact inner

namespace Table

/-- A binding as a declaration. -/
def declaredOf (b : Binding) : Declared :=
  ⟨b.name, b.span, b.kind⟩

/-- What a table has for a name in one scope. -/
def seen (t : Table) (scope : Nat) (name : String) : Option Declared :=
  (t.bindings.find? fun b => b.scope == scope && b.name == name).map declaredOf

/-- The declaration that the table resolves a name to. -/
def meaning (t : Table) (scope : Nat) (name : String) : Option Declared :=
  (t.resolve scope name).map fun id => declaredOf (t.bindings.getD id default)

/-- A reference with the declaration that the table resolves it to. -/
def resolution (t : Table) (r : Reference) : Resolved :=
  ⟨r.name, r.span, r.kind, t.meaning r.scope r.name⟩

/-- Finding an element is finding its position. -/
theorem map_getD_findIdx? {α : Type} (l : List α) (p : α → Bool) (d : α) :
    (l.findIdx? p).map (fun i => l.getD i d) = l.find? p := by
  induction l with
  | nil => rfl
  | cons a l ih =>
    rw [List.findIdx?_cons, List.find?_cons]
    cases p a with
    | true => rfl
    | false =>
      rw [← ih]
      cases l.findIdx? p <;> rfl

/-- A change that a search does not look at does not change what is found of
it. -/
theorem map_find?_modify {α β : Type} (l : List α) (i : Nat) (f : α → α)
    (p : α → Bool) (g : α → β) (search : ∀ a, p (f a) = p a)
    (result : ∀ a, g (f a) = g a) :
    ((l.modify i f).find? p).map g = (l.find? p).map g := by
  induction l generalizing i with
  | nil => cases i <;> rfl
  | cons a l ih =>
    cases i with
    | zero =>
      rw [List.modify_zero_cons, List.find?_cons, List.find?_cons, search]
      cases p a with
      | true => exact congrArg some (result a)
      | false => rfl
    | succ i =>
      rw [List.modify_succ_cons, List.find?_cons, List.find?_cons]
      cases p a with
      | true => rfl
      | false => exact ih i

/-- A name means what the innermost scope has for it. -/
theorem meaning_eq (t : Table) (scope : Nat) (name : String) :
    t.meaning scope name = (t.path scope).findSome? fun x => t.seen x name := by
  unfold meaning resolve
  induction t.path scope with
  | nil => rfl
  | cons x xs ih =>
    have here := map_getD_findIdx? t.bindings
      (fun b => b.scope == x && b.name == name) default
    rw [List.findSome?_cons, List.findSome?_cons, seen, ← here, bindingIn?]
    cases t.bindings.findIdx? fun b => b.scope == x && b.name == name with
    | none => exact ih
    | some id => rfl

/-- A declaration of a name that its scope has already is noted on the
binding. -/
theorem declare_of_some {t : Table} {here : List Nat} {name : String}
    {kind : BindingKind} {id : Nat}
    (found : t.bindingIn? name (t.targetScope here kind) = some id)
    (span : Option Span) :
    t.declare here name span kind =
      (id, { t with bindings := t.bindings.modify id fun b =>
      { b with redeclarations := b.redeclarations ++ [span] } }) := by
  simp only [declare, found]

/-- A declaration of a new name is a new binding. -/
theorem declare_of_none {t : Table} {here : List Nat} {name : String}
    {kind : BindingKind}
    (found : t.bindingIn? name (t.targetScope here kind) = none)
    (span : Option Span) :
    t.declare here name span kind =
      (t.bindings.length, { t with bindings := t.bindings ++
      [⟨name, kind, t.targetScope here kind, span, []⟩] }) := by
  simp only [declare, found]

/-- A declaration counts in the scope it falls into, unless there is one of that
name already. -/
theorem seen_declare (t : Table) (here : List Nat) (name : String)
    (span : Option Span) (kind : BindingKind) (x : Nat) (y : String) :
    (t.declare here name span kind).2.seen x y = (t.seen x y).or (firstOf y
      (if t.targetScope here kind == x then [⟨name, span, kind⟩] else [])) := by
  cases found : t.bindingIn? name (t.targetScope here kind) with
  | some id =>
    rw [declare_of_some found]
    have same : ((t.bindings.modify id fun b =>
        { b with redeclarations := b.redeclarations ++ [span] }).find?
          fun b => b.scope == x && b.name == y).map declaredOf = t.seen x y :=
      map_find?_modify _ _ _ _ _ (fun _ => rfl) fun _ => rfl
    simp only [seen] at same ⊢
    rw [same]
    cases at? : (t.bindings.find? fun b => b.scope == x && b.name == y) with
    | some b => rfl
    | none =>
      rw [Option.map_none, Option.none_or]
      split
      · rename_i target
        rw [beq_iff_eq] at target
        by_cases named : name = y
        · subst target named
          rw [bindingIn?, List.findIdx?_eq_some_iff_getElem] at found
          obtain ⟨bound, fits, -⟩ := found
          have none := List.find?_eq_none.1 at? _ (List.getElem_mem bound)
          exact absurd fits none
        · simp [firstOf, named]
      · rfl
  | none =>
    rw [declare_of_none found]
    simp only [seen, List.find?_append, Option.map_or]
    congr 1
    by_cases target : t.targetScope here kind = x
    · by_cases named : name = y
      · simp [target, named, firstOf, declaredOf]
      · simp [target, named, firstOf]
    · simp [target, firstOf]

/-- What a walk that stands in some scopes lets into the frame of one scope. -/
def reachFrom (t : Table) (here : List Nat) (x : Nat) : Reach :=
  ⟨t.targetScope here .var == x, here.headD 0 == x, 0 == x⟩

theorem admits_reachFrom (t : Table) (here : List Nat) (x : Nat)
    (kind : BindingKind) :
    (t.reachFrom here x).admits kind = (t.targetScope here kind == x) := by
  cases kind <;> rfl

/-- A table with a further scope. -/
def enter (t : Table) (here : List Nat) (k : ScopeKind) : Table :=
  { t with scopes := t.scopes ++ [⟨k, here⟩] }

theorem add_scope (t : Table) (here : List Nat) (k : ScopeKind)
    (inside : List Outline) :
    t.add here (.scope k inside) =
      (t.enter here k).addAll (t.scopes.length :: here) inside :=
  rfl

/-- The scopes of a table are among the first ones of another. -/
def Grows (t t' : Table) : Prop :=
  ∃ more, t'.scopes = t.scopes ++ more

theorem Grows.refl (t : Table) : t.Grows t :=
  ⟨[], (List.append_nil _).symm⟩

theorem Grows.trans {t t' t'' : Table} (h : t.Grows t') (h' : t'.Grows t'') :
    t.Grows t'' := by
  obtain ⟨more, h⟩ := h
  obtain ⟨more', h'⟩ := h'
  exact ⟨more ++ more', by rw [h', h, List.append_assoc]⟩

theorem Grows.length_le {t t' : Table} (h : t.Grows t') :
    t.scopes.length ≤ t'.scopes.length := by
  obtain ⟨more, h⟩ := h
  rw [h, List.length_append]
  omega

/-- An old scope is what it was. -/
theorem Grows.getD_scopes {t t' : Table} (h : t.Grows t') {x : Nat}
    (old : x < t.scopes.length) :
    t'.scopes.getD x default = t.scopes.getD x default := by
  obtain ⟨more, h⟩ := h
  rw [h, List.getD_eq_getElem?_getD, List.getD_eq_getElem?_getD,
    List.getElem?_append_left old]

theorem grows_enter (t : Table) (here : List Nat) (k : ScopeKind) :
    t.Grows (t.enter here k) :=
  ⟨[⟨k, here⟩], rfl⟩

/-- Declaring a name enters no scope. -/
theorem scopes_declare (t : Table) (here : List Nat) (name : String)
    (span : Option Span) (kind : BindingKind) :
    (t.declare here name span kind).2.scopes = t.scopes := by
  cases found : t.bindingIn? name (t.targetScope here kind) with
  | some id => rw [declare_of_some found]
  | none => rw [declare_of_none found]

/-- Declaring a name uses none. -/
theorem references_declare (t : Table) (here : List Nat) (name : String)
    (span : Option Span) (kind : BindingKind) :
    (t.declare here name span kind).2.references = t.references := by
  cases found : t.bindingIn? name (t.targetScope here kind) with
  | some id => rw [declare_of_some found]
  | none => rw [declare_of_none found]

/-- Only scopes add scopes. -/
theorem scopes_add_leaf (t : Table) (here : List Nat) {o : Outline}
    (isLeaf : o.isLeaf = true) :
    (t.add here o).scopes = t.scopes := by
  cases o with
  | scope k inside => cases isLeaf
  | declaration name span kind => exact scopes_declare ..
  | helper name span kind origin => exact scopes_declare ..
  | _ => rfl

/-- A walk adds scopes behind the ones there are. -/
theorem grows_addAll (t : Table) (here : List Nat) (os : List Outline) :
    t.Grows (t.addAll here os) := by
  induction os using outlines_induct generalizing t here with
  | nil => exact .refl t
  | leaf o os isLeaf ih =>
    rw [addAll]
    have same : t.Grows (t.add here o) :=
      ⟨[], by rw [scopes_add_leaf t here isLeaf, List.append_nil]⟩
    exact same.trans (ih _ _)
  | scope k inside os inner ih =>
    rw [addAll, add_scope]
    exact ((grows_enter t here k).trans (inner _ _)).trans (ih _ _)

/-- The walk stands somewhere, and in scopes that there are. -/
structure Stands (t : Table) (here : List Nat) : Prop where
  somewhere : here ≠ []
  known : ∀ x ∈ here, x < t.scopes.length

theorem Stands.grows {t t' : Table} {here : List Nat} (h : t.Stands here)
    (g : t.Grows t') : t'.Stands here :=
  ⟨h.somewhere, fun x hx => Nat.lt_of_lt_of_le (h.known x hx) g.length_le⟩

/-- Where the walk stands after it entered a scope. -/
theorem Stands.enter {t : Table} {here : List Nat} (h : t.Stands here)
    (k : ScopeKind) :
    (t.enter here k).Stands (t.scopes.length :: here) := by
  refine ⟨List.cons_ne_nil _ _, fun x hx => ?_⟩
  have length : (t.enter here k).scopes.length = t.scopes.length + 1 := by
    simp [Table.enter]
  rw [length]
  rcases List.mem_cons.1 hx with rfl | hx
  · exact Nat.lt_succ_self _
  · exact Nat.lt_succ_of_lt (h.known x hx)

/-- There is a scope that the walk started in. -/
theorem Stands.pos {t : Table} {here : List Nat} (h : t.Stands here) :
    0 < t.scopes.length := by
  obtain ⟨x, xs, rfl⟩ := List.exists_cons_of_ne_nil h.somewhere
  have := h.known x List.mem_cons_self
  omega

/-- A declaration falls into a scope that there is. -/
theorem Stands.targetScope_lt {t : Table} {here : List Nat} (h : t.Stands here)
    (kind : BindingKind) :
    t.targetScope here kind < t.scopes.length := by
  have head : here.headD 0 < t.scopes.length := by
    obtain ⟨x, xs, rfl⟩ := List.exists_cons_of_ne_nil h.somewhere
    exact h.known x List.mem_cons_self
  cases kind with
  | var =>
    simp only [targetScope]
    cases found : here.find? fun scope => (t.scopeKind scope).holdsVars with
    | none => exact h.pos
    | some x => exact h.known x (List.mem_of_find?_eq_some found)
  | imported => exact h.pos
  | _ => exact head

/-- Searches with the same answers find the same. -/
theorem find?_congr {α : Type} {l : List α} {p q : α → Bool}
    (same : ∀ a ∈ l, p a = q a) : l.find? p = l.find? q := by
  induction l with
  | nil => rfl
  | cons a l ih =>
    rw [List.find?_cons, List.find?_cons, same a List.mem_cons_self,
      ih fun b hb => same b (List.mem_cons_of_mem _ hb)]

/-- The scope that holds the variables stays the same as the table grows. -/
theorem Stands.targetScope_grows {t t' : Table} {here : List Nat}
    (h : t.Stands here) (g : t.Grows t') (kind : BindingKind) :
    t'.targetScope here kind = t.targetScope here kind := by
  have same : (here.find? fun scope => (t'.scopeKind scope).holdsVars) =
      here.find? fun scope => (t.scopeKind scope).holdsVars := by
    refine find?_congr fun scope hs => ?_
    rw [scopeKind, scopeKind, g.getD_scopes (h.known scope hs)]
  cases kind <;> simp only [targetScope, same]

/-- What is let into an old scope does not change as the table grows. -/
theorem Stands.reachFrom_grows {t t' : Table} {here : List Nat}
    (h : t.Stands here) (g : t.Grows t') (x : Nat) :
    t'.reachFrom here x = t.reachFrom here x := by
  simp only [reachFrom, h.targetScope_grows g]

/-- A `var` in a scope just entered stays there if the scope holds variables. -/
theorem Stands.targetScope_enter {t : Table} {here : List Nat}
    (h : t.Stands here) (k : ScopeKind) :
    (t.enter here k).targetScope (t.scopes.length :: here) .var = if k.holdsVars
      then t.scopes.length else t.targetScope here .var := by
  have kind : (t.enter here k).scopeKind t.scopes.length = k := by
    simp [scopeKind, Table.enter]
  have outer := h.targetScope_grows (grows_enter t here k) .var
  simp only [targetScope] at outer
  simp only [targetScope, List.find?_cons, kind]
  cases k.holdsVars with
  | true => rfl
  | false => exact outer

/-- From a scope just entered, what gets into an old scope goes through the new
one. -/
theorem Stands.reachFrom_enter {t : Table} {here : List Nat} (h : t.Stands here)
    (k : ScopeKind) {x : Nat} (old : x < t.scopes.length) :
    (t.enter here k).reachFrom (t.scopes.length :: here) x =
      (t.reachFrom here x).through k := by
  have other : (t.scopes.length == x) = false := by
    rw [beq_eq_false_iff_ne]
    omega
  simp only [reachFrom, Reach.through, h.targetScope_enter,
    List.headD_cons, other]
  cases k.holdsVars <;> simp [other]

/-- A scope just entered gets its own declarations. -/
theorem Stands.reachFrom_enter_self {t : Table} {here : List Nat}
    (h : t.Stands here) (k : ScopeKind) :
    (t.enter here k).reachFrom (t.scopes.length :: here) t.scopes.length =
      .own k := by
  have program : (0 == t.scopes.length) = false := by
    rw [beq_eq_false_iff_ne]
    exact Nat.ne_of_lt h.pos
  have outer : (t.targetScope here .var == t.scopes.length) = false := by
    rw [beq_eq_false_iff_ne]
    exact Nat.ne_of_lt (h.targetScope_lt .var)
  simp only [reachFrom, Reach.own, h.targetScope_enter,
    List.headD_cons, program]
  cases k.holdsVars <;> simp [outer]

/-- A walk lets nothing into a scope that it does not stand in, save imports
into the program. -/
theorem reachFrom_elsewhere {t : Table} {here : List Nat} (h : t.Stands here)
    {x : Nat} (elsewhere : x ∉ here) (inner : 0 < x) :
    t.reachFrom here x = .nowhere := by
  obtain ⟨y, ys, rfl⟩ := List.exists_cons_of_ne_nil h.somewhere
  have target : t.targetScope (y :: ys) .var ≠ x := by
    simp only [targetScope]
    cases found : (y :: ys).find? fun scope => (t.scopeKind scope).holdsVars
      with
    | none => exact Nat.ne_of_lt inner
    | some z =>
      rintro rfl
      exact elsewhere (List.mem_of_find?_eq_some found)
  rw [List.mem_cons, not_or] at elsewhere
  simp [reachFrom, Reach.nowhere, target, Ne.symm elsewhere.1,
    Nat.ne_of_lt inner]

/-- What one outline that is no scope adds to what is seen. -/
theorem seen_add_leaf (t : Table) (here : List Nat) {o : Outline}
    (isLeaf : o.isLeaf = true) (x : Nat) (y : String) :
    (t.add here o).seen x y =
      (t.seen x y).or (firstOf y (reaching (t.reachFrom here x) o)) := by
  cases o with
  | scope k inside => cases isLeaf
  | declaration name span kind | helper name span kind origin =>
    rw [reaching, admits_reachFrom]
    exact seen_declare t here name span kind x y
  | _ => exact (Option.or_none ..).symm

/-- **What a walk adds to an old scope** is what reaches it, where there was
nothing of that name. -/
theorem seen_addAll {t : Table} {here : List Nat} (h : t.Stands here)
    (os : List Outline) {x : Nat} (old : x < t.scopes.length) (y : String) :
    (t.addAll here os).seen x y =
      (t.seen x y).or (firstOf y (reachingAll (t.reachFrom here x) os)) := by
  induction os using outlines_induct generalizing t here with
  | nil => exact (Option.or_none ..).symm
  | leaf o os isLeaf ih =>
    have grows : t.Grows (t.add here o) :=
      ⟨[], by rw [scopes_add_leaf t here isLeaf, List.append_nil]⟩
    rw [addAll, ih (h.grows grows) (Nat.lt_of_lt_of_le old grows.length_le),
      h.reachFrom_grows grows, seen_add_leaf t here isLeaf, reachingAll,
      firstOf_append, Option.or_assoc]
  | scope k inside os inner ih =>
    have entered := grows_enter t here k
    have oldEntered := Nat.lt_of_lt_of_le old entered.length_le
    have grows := entered.trans
      (grows_addAll (t.enter here k) (t.scopes.length :: here) inside)
    rw [addAll, add_scope, ih (h.grows grows)
      (Nat.lt_of_lt_of_le old grows.length_le), h.reachFrom_grows grows,
      inner (h.enter k) oldEntered, h.reachFrom_enter k old, reachingAll,
      reaching, firstOf_append, Option.or_assoc]
    rfl

/-- A walk as it is under way: it stands in scopes that are linked as it goes
through them, and every binding is in a scope that there is. -/
structure Walking (t : Table) (here : List Nat) :
    Prop extends Stands t here where
  linked : (t.scopes.getD (here.headD 0) default).outer = here.tail
  placed : ∀ b ∈ t.bindings, b.scope < t.scopes.length

theorem Walking.head_lt {t : Table} {here : List Nat} (h : t.Walking here) :
    here.headD 0 < t.scopes.length := by
  obtain ⟨x, xs, rfl⟩ := List.exists_cons_of_ne_nil h.somewhere
  exact h.known x List.mem_cons_self

/-- Nothing is seen yet in a scope that is not there yet. -/
theorem Walking.seen_new {t : Table} {here : List Nat} (h : t.Walking here)
    (y : String) :
    t.seen t.scopes.length y = none := by
  rw [seen, Option.map_eq_none_iff, List.find?_eq_none]
  intro b hb fits
  rw [Bool.and_eq_true, beq_iff_eq] at fits
  have := h.placed b hb
  omega

/-- Bindings stay in scopes that there are. -/
theorem Walking.placed_declare {t : Table} {here : List Nat}
    (h : t.Walking here) (name : String) (span : Option Span)
    (kind : BindingKind) :
    ∀ b ∈ (t.declare here name span kind).2.bindings,
      b.scope < t.scopes.length := by
  intro b hb
  cases found : t.bindingIn? name (t.targetScope here kind) with
  | some id =>
    rw [declare_of_some found] at hb
    obtain ⟨i, bound, rfl⟩ := List.getElem_of_mem hb
    rw [List.length_modify] at bound
    have old := h.placed _ (List.getElem_mem bound)
    rw [List.getElem_modify]
    split <;> exact old
  | none =>
    rw [declare_of_none found] at hb
    rcases List.mem_append.1 hb with old | new
    · exact h.placed b old
    · rw [List.mem_singleton.1 new]
      exact h.targetScope_lt kind

/-- The walk is still under way after an outline that is no scope. -/
theorem Walking.leaf {t : Table} {here : List Nat} (h : t.Walking here)
    {o : Outline} (isLeaf : o.isLeaf = true) :
    (t.add here o).Walking here := by
  have scopes := scopes_add_leaf t here isLeaf
  refine ⟨⟨h.somewhere, ?_⟩, ?_, ?_⟩
  · rw [scopes]
    exact h.known
  · rw [scopes]
    exact h.linked
  · rw [scopes]
    cases o with
    | scope k inside => cases isLeaf
    | declaration name span kind => exact h.placed_declare name span kind
    | helper name span kind origin => exact h.placed_declare name span kind
    | _ => exact h.placed

/-- The walk is under way in a scope that it enters. -/
theorem Walking.enter {t : Table} {here : List Nat} (h : t.Walking here)
    (k : ScopeKind) :
    (t.enter here k).Walking (t.scopes.length :: here) := by
  refine ⟨h.toStands.enter k, by simp [Table.enter], fun b hb => ?_⟩
  exact Nat.lt_of_lt_of_le (h.placed b hb) (grows_enter t here k).length_le

/-- The walk is still under way where a scope is left. -/
theorem Walking.grows {t t' : Table} {here : List Nat} (h : t.Walking here)
    (g : t.Grows t') (placed : ∀ b ∈ t'.bindings, b.scope < t'.scopes.length) :
    t'.Walking here :=
  ⟨h.toStands.grows g, (congrArg ScopeEntry.outer
    (g.getD_scopes h.head_lt)).trans h.linked, placed⟩

/-- The walk is still under way after it went through some outlines. -/
theorem Walking.addAll {t : Table} {here : List Nat} (h : t.Walking here)
    (os : List Outline) :
    (t.addAll here os).Walking here := by
  induction os using outlines_induct generalizing t here with
  | nil => exact h
  | leaf o os isLeaf ih => exact ih (h.leaf isLeaf)
  | scope k inside os inner ih =>
    have entered := inner (h.enter k)
    have grows := (grows_enter t here k).trans
      (grows_addAll (t.enter here k) (t.scopes.length :: here) inside)
    exact ih (h.grows grows entered.placed)

/-- In a table that has the walk's scopes, a name used where the walk stands
means what the frames around say. -/
theorem Walking.meaning_eq_lookUp {t T : Table} {here : List Nat}
    (h : t.Walking here) (g : t.Grows T) {frames : List (List Declared)}
    (agree : ∀ y, here.findSome? (fun x => T.seen x y) = lookUp frames y)
    (name : String) :
    T.meaning (here.headD 0) name = lookUp frames name := by
  have path : T.path (here.headD 0) = here := by
    obtain ⟨x, xs, rfl⟩ := List.exists_cons_of_ne_nil h.somewhere
    rw [Table.path, g.getD_scopes h.head_lt, h.linked]
    rfl
  rw [meaning_eq, path, agree]

/-- **The references of a walk.** A walk through outlines adds their uses; any
later table that has seen the same in the scopes that the walk added, and has
the frames around it, resolves them as the outlines say. -/
theorem references_addAll {t T : Table} {here : List Nat} (h : t.Walking here)
    (os : List Outline) (frames : List (List Declared))
    (grows : (t.addAll here os).Grows T)
    (same : ∀ x, t.scopes.length ≤ x → x < (t.addAll here os).scopes.length →
      ∀ y, T.seen x y = (t.addAll here os).seen x y)
    (agree : ∀ y, here.findSome? (fun x => T.seen x y) = lookUp frames y) :
    ∃ new, (t.addAll here os).references = t.references ++ new ∧
      new.map T.resolution = resolvedAll frames os := by
  induction os using outlines_induct generalizing t here frames with
  | nil => exact ⟨[], (List.append_nil _).symm, rfl⟩
  | leaf o os isLeaf ih =>
    have scopes := scopes_add_leaf t here isLeaf
    obtain ⟨new, added, resolves⟩ :=
      ih (h.leaf isLeaf) frames grows (by rwa [scopes]) agree
    have first : ∃ one, (t.add here o).references = t.references ++ one ∧
        one.map T.resolution = resolved frames o := by
      cases o with
      | scope k inside => cases isLeaf
      | reference name span kind =>
        refine ⟨[⟨name, span, kind, here.headD 0⟩], rfl, ?_⟩
        have whole :=
          (grows_addAll t here (.reference name span kind :: os)).trans grows
        simp only [List.map_cons, List.map_nil, resolution, resolved,
          h.meaning_eq_lookUp whole agree]
      | declaration name span kind | helper name span kind origin =>
        exact ⟨[], by rw [List.append_nil]; exact references_declare .., rfl⟩
      | _ => exact ⟨[], (List.append_nil _).symm, rfl⟩
    obtain ⟨one, addedOne, resolvesOne⟩ := first
    refine ⟨one ++ new, ?_, ?_⟩
    · rw [Table.addAll, added, addedOne, List.append_assoc]
    · rw [List.map_append, resolvesOne, resolves, resolvedAll]
  | scope k inside os inner ih =>
    have enters := grows_enter t here k
    have length : (t.enter here k).scopes.length = t.scopes.length + 1 := by
      simp [Table.enter]
    -- `left` is the table when the scope is left again; what it saw in the new
    -- scopes is final.
    obtain ⟨left, rfl'⟩ : ∃ left, left =
        (t.enter here k).addAll (t.scopes.length :: here) inside :=
      ⟨_, rfl⟩
    have leaves : (t.enter here k).Grows left := rfl' ▸ grows_addAll ..
    have after : left.Walking here :=
      h.grows (enters.trans leaves) (rfl' ▸ ((h.enter k).addAll inside).placed)
    have whole : t.addAll here (.scope k inside :: os) = left.addAll here os :=
      by
      rw [Table.addAll, add_scope, rfl']
    rw [whole] at grows same
    have final : ∀ x, t.scopes.length ≤ x → x < left.scopes.length → ∀ y,
        T.seen x y = left.seen x y := by
      intro x new bound y
      have elsewhere : x ∉ here := fun hx => Nat.not_lt.2 new (h.known x hx)
      have inner : 0 < x := Nat.lt_of_lt_of_le h.pos new
      rw [same x new (Nat.lt_of_lt_of_le bound (grows_addAll
        left here os).length_le), seen_addAll after.toStands os bound,
        reachFrom_elsewhere after.toStands elsewhere inner, reachingAll_nowhere]
      exact Option.or_none ..
    have frame : ∀ y, T.seen t.scopes.length y =
        firstOf y (reachingAll (.own k) inside) := by
      intro y
      have bound : t.scopes.length < (t.enter here k).scopes.length := by omega
      rw [final _ (Nat.le_refl _) (Nat.lt_of_lt_of_le bound leaves.length_le),
        rfl', seen_addAll (h.toStands.enter k) inside bound,
        h.toStands.reachFrom_enter_self]
      exact (congrArg (Option.or · _) (h.seen_new y)).trans (Option.none_or ..)
    obtain ⟨new, added, resolves⟩ := inner (h.enter k) (reachingAll (.own k)
      inside :: frames) (rfl' ▸ (grows_addAll left here os).trans grows)
      (fun x new bound => rfl' ▸ final x (by omega) (rfl' ▸ bound)) (fun y => by
        rw [List.findSome?_cons, frame, lookUp_cons, ← agree]
        cases firstOf y (reachingAll (.own k) inside) <;> rfl)
    obtain ⟨more, addedMore, resolvesMore⟩ :=
      ih after frames grows (fun x bound =>
      same x (Nat.le_trans (enters.trans leaves).length_le bound)) agree
    refine ⟨new ++ more, ?_, ?_⟩
    · rw [whole, addedMore, rfl', added, List.append_assoc]
      rfl
    · rw [List.map_append, resolves, resolvesMore, resolvedAll, resolved]

/-- The walk starts in the program. -/
theorem walking_start : ({} : Table).Walking [0] :=
  ⟨⟨List.cons_ne_nil _ _,
    fun x hx => by rw [List.mem_singleton.1 hx]; exact Nat.one_pos⟩, rfl, nofun⟩

/-- **Tables resolve lexically.** The references of a program, with what its
table resolves them to, are the uses in its outline, with what they mean. -/
theorem resolve_ofOutline (os : List Outline) :
    (ofOutline os).references.map (ofOutline os).resolution =
      resolvedAll [reachingAll .root os] os := by
  have root : ∀ y, (ofOutline os).seen 0 y = firstOf y (reachingAll .root os) :=
    by
    intro y
    have program : ({} : Table).reachFrom [0] 0 = .root := rfl
    rw [ofOutline, seen_addAll walking_start.toStands os Nat.one_pos, program]
    exact Option.none_or ..
  obtain ⟨new, added, resolves⟩ :=
    references_addAll (T := ofOutline os) walking_start os
    [reachingAll .root os] (Grows.refl _) (fun _ _ _ _ => rfl) (fun y => by
      rw [List.findSome?_cons, root, lookUp_cons]
      cases firstOf y (reachingAll .root os) <;> rfl)
  have all : (ofOutline os).references = new := added
  rw [all, resolves]

end Table

end NullGuard.Scope
