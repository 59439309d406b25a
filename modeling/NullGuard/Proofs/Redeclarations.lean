import NullGuard.Proofs.Scoping

/-!
# Where a binding is declared again

A binding notes where its name is declared first and then where it is declared
again. The order is that of the walk that builds the table. It is the order of a
frame: what falls into a scope is what reaches its frame from the inside
(`frames`), so a binding lists the declarations of its name in the frame of its
scope, in order (`places_of_binding`). The other way round, the declarations of
a name in a frame are the places of a binding (`binding_of_frame`).

The invariant is that of `seen_addAll`, with all declarations of a name in the
place of the first one: a walk adds to an old scope what reaches it
(`placesIn_addAll`), in a scope that it enters there are in the end the
declarations of one of the frames in the outline (`placesIn_entered`), and each
of these frames belongs to a scope that it enters (`entered_of_frame`).
-/

namespace NullGuard.Scope

open NullGuard.Text (Span)

mutual

/-- The frames of the scopes in an outline. -/
def frames : Outline → List (List Declared)
  | .scope k inside => reachingAll (.own k) inside :: framesAll inside
  | _ => []

/-- The frames of the scopes in several outlines. -/
def framesAll : List Outline → List (List Declared)
  | [] => []
  | o :: os => frames o ++ framesAll os

end

/-- A change of an element that a search does not look at changes what is found
just if it is found there. -/
theorem find?_modify {α : Type} {l : List α} {f : α → α} {p : α → Bool}
    (search : ∀ a, p (f a) = p a) (i : Nat) :
    (l.modify i f).find? p = if l.findIdx? p = some i then (l.find? p).map f
      else l.find? p := by
  induction l generalizing i with
  | nil => simp
  | cons a l ih =>
    cases i with
    | zero =>
      rw [List.modify_zero_cons, List.find?_cons, List.find?_cons,
        List.findIdx?_cons, search]
      cases p a with
      | true => rfl
      | false => cases l.findIdx? p <;> rfl
    | succ i =>
      rw [List.modify_succ_cons, List.find?_cons, List.find?_cons,
        List.findIdx?_cons, ih]
      cases p a with
      | true => rfl
      | false => cases l.findIdx? p <;> simp

namespace Table

variable {t : Table} {here : List Nat} {os : List Outline}

/-- Where a table has declarations of a name in one scope. -/
def placesIn (t : Table) (scope : Nat) (name : String) : List (Option Span) :=
  ((t.bindings.find? fun b => b.scope == scope && b.name == name).map
    Binding.places).getD []

/-- A declaration is noted behind the others of its name in the scope that it
falls into. -/
theorem placesIn_declare (t : Table) (here : List Nat) (name : String)
    (span : Option Span) (kind : BindingKind) (x : Nat) (y : String) :
    (t.declare here name span kind).2.placesIn x y = t.placesIn x y ++
      placesOf y (if t.targetScope here kind == x then [⟨name, span, kind⟩]
      else []) := by
  have noted : placesOf y (if t.targetScope here kind == x
    then [⟨name, span, kind⟩] else []) =
      if t.targetScope here kind = x ∧ name = y then [span] else [] := by
    by_cases target : t.targetScope here kind = x <;> by_cases named : name =
      y <;> simp [placesOf, target, named]
  rw [noted]
  cases found : t.bindingIn? name (t.targetScope here kind) with
  | some id =>
    have modified := find?_modify (l := t.bindings)
      (f := fun b => { b with redeclarations := b.redeclarations ++ [span] })
      (p := fun b => b.scope == x && b.name == y) (fun _ => rfl) id
    rw [declare_of_some found, placesIn, modified]
    rw [bindingIn?] at found
    by_cases there : t.targetScope here kind = x ∧ name = y
    · obtain ⟨rfl, rfl⟩ := there
      have first := map_getD_findIdx? t.bindings
        (fun b => b.scope == t.targetScope here kind && b.name == name) default
      rw [found, Option.map_some] at first
      rw [if_pos found, if_pos ⟨rfl, rfl⟩, placesIn, ← first]
      rfl
    · have other : t.bindings.findIdx? (fun b => b.scope == x && b.name == y) ≠
          some id := by
        intro same
        rw [List.findIdx?_eq_some_iff_getElem] at found same
        obtain ⟨bound, fits, -⟩ := found
        obtain ⟨_, fits', -⟩ := same
        simp only [Bool.and_eq_true, beq_iff_eq] at fits fits'
        exact there ⟨fits.1.symm.trans fits'.1, fits.2.symm.trans fits'.2⟩
      rw [if_neg other, if_neg there, List.append_nil, placesIn]
  | none =>
    rw [declare_of_none found, placesIn, placesIn, List.find?_append]
    by_cases there : t.targetScope here kind = x ∧ name = y
    · obtain ⟨rfl, rfl⟩ := there
      have missing : t.bindings.find? (fun b => b.scope ==
          t.targetScope here kind && b.name == name) = none := by
        rw [bindingIn?, List.findIdx?_eq_none_iff] at found
        exact List.find?_eq_none.2 fun b hb => Bool.eq_false_iff.1 (found b hb)
      simp [missing, Binding.places]
    · have other : (t.targetScope here kind == x && name == y) = false := by
        rw [← Bool.not_eq_true, Bool.and_eq_true, beq_iff_eq, beq_iff_eq]
        exact there
      simp [there, other]

/-- What one outline that is no scope adds. -/
theorem placesIn_add_leaf (t : Table) (here : List Nat) {o : Outline}
    (isLeaf : o.isLeaf = true) (x : Nat) (y : String) :
    (t.add here o).placesIn x y = t.placesIn x y ++
      placesOf y (reaching (t.reachFrom here x) o) := by
  cases o with
  | scope k inside => cases isLeaf
  | declaration name span kind | helper name span kind origin =>
    rw [reaching, admits_reachFrom]
    exact placesIn_declare t here name span kind x y
  | _ => exact (List.append_nil _).symm

/-- **What a walk adds to an old scope** is what reaches it, in order. -/
theorem placesIn_addAll (h : t.Stands here) (os : List Outline) {x : Nat}
    (old : x < t.scopes.length) (y : String) :
    (t.addAll here os).placesIn x y = t.placesIn x y ++
      placesOf y (reachingAll (t.reachFrom here x) os) := by
  induction os using outlines_induct generalizing t here with
  | nil => exact (List.append_nil _).symm
  | leaf o os isLeaf ih =>
    have grows : t.Grows (t.add here o) :=
      ⟨[], by rw [scopes_add_leaf t here isLeaf, List.append_nil]⟩
    rw [addAll, ih (h.grows grows) (Nat.lt_of_lt_of_le old grows.length_le),
      h.reachFrom_grows grows, placesIn_add_leaf t here isLeaf, reachingAll,
      placesOf_append, List.append_assoc]
  | scope k inside os inner ih =>
    have entered := grows_enter t here k
    have oldEntered := Nat.lt_of_lt_of_le old entered.length_le
    have grows := entered.trans
      (grows_addAll (t.enter here k) (t.scopes.length :: here) inside)
    rw [addAll, add_scope, ih (h.grows grows)
      (Nat.lt_of_lt_of_le old grows.length_le), h.reachFrom_grows grows,
      inner (h.enter k) oldEntered, h.reachFrom_enter k old, reachingAll,
      reaching, placesOf_append, List.append_assoc]
    rfl

/-- Nothing is declared yet in a scope that is not there yet. -/
theorem Walking.placesIn_new (h : t.Walking here) (y : String) :
    t.placesIn t.scopes.length y = [] := by
  have none := h.seen_new y
  rw [seen, Option.map_eq_none_iff] at none
  rw [placesIn, none]
  rfl

/-- A walk goes on behind a scope where it was in front of it. -/
theorem Walking.left (h : t.Walking here) (k : ScopeKind)
    (inside : List Outline) :
    ((t.enter here k).addAll (t.scopes.length :: here) inside).Walking here :=
  h.grows ((grows_enter t here k).trans
    (grows_addAll (t.enter here k) (t.scopes.length :: here) inside))
    ((h.enter k).addAll inside).placed

/-- What is declared in a scope is final when the scope is left. -/
theorem Walking.placesIn_left (h : t.Walking here) (k : ScopeKind)
    (inside os : List Outline) {x : Nat} (new : t.scopes.length ≤ x)
    (bound : x < ((t.enter here k).addAll (t.scopes.length :: here)
      inside).scopes.length) (y : String) :
    (((t.enter here k).addAll (t.scopes.length :: here) inside).addAll here
      os).placesIn x y = ((t.enter here k).addAll (t.scopes.length :: here)
      inside).placesIn x y := by
  have after := h.left k inside
  have elsewhere : x ∉ here := fun hx => Nat.not_lt.2 new (h.known x hx)
  rw [placesIn_addAll after.toStands os bound,
    reachFrom_elsewhere after.toStands elsewhere
    (Nat.lt_of_lt_of_le h.pos new), reachingAll_nowhere]
  exact List.append_nil _

/-- What is declared in a scope that a walk enters is what reaches it from the
inside. -/
theorem Walking.placesIn_own (h : t.Walking here) (k : ScopeKind)
    (inside : List Outline) (y : String) :
    ((t.enter here k).addAll (t.scopes.length :: here) inside).placesIn
      t.scopes.length y = placesOf y (reachingAll (.own k) inside) := by
  have length : (t.enter here k).scopes.length = t.scopes.length + 1 := by
    simp [Table.enter]
  have empty : (t.enter here k).placesIn t.scopes.length y = [] :=
    h.placesIn_new y
  rw [placesIn_addAll (h.toStands.enter k) inside (by omega),
    h.toStands.reachFrom_enter_self, empty, List.nil_append]

/-- **In a scope that a walk enters** there are in the end the declarations of
one of the frames. -/
theorem placesIn_entered (h : t.Walking here) (os : List Outline) {x : Nat}
    (new : t.scopes.length ≤ x) (bound : x < (t.addAll here os).scopes.length) :
    ∃ f ∈ framesAll os, ∀ y, (t.addAll here os).placesIn x y =
      placesOf y f := by
  induction os using outlines_induct generalizing t here with
  | nil => exact absurd bound (Nat.not_lt.2 new)
  | leaf o os isLeaf ih =>
    have scopes := scopes_add_leaf t here isLeaf
    obtain ⟨f, hf, same⟩ := ih (h.leaf isLeaf) (by rwa [scopes]) bound
    exact ⟨f, List.mem_append_right _ hf, same⟩
  | scope k inside os inner ih =>
    have length : (t.enter here k).scopes.length = t.scopes.length + 1 := by
      simp [Table.enter]
    have final := h.placesIn_left k inside os new
    rw [addAll, add_scope] at bound ⊢
    rw [framesAll, frames, List.cons_append]
    rcases Nat.lt_or_ge x ((t.enter here k).addAll
      (t.scopes.length :: here) inside).scopes.length with inside' | later
    · rcases Nat.eq_or_lt_of_le new with rfl | deeper
      · refine ⟨_, List.mem_cons_self, fun y => ?_⟩
        rw [final inside', h.placesIn_own]
      · obtain ⟨f, hf, same⟩ := inner (h.enter k) (by omega) inside'
        exact ⟨f, List.mem_cons_of_mem _ (List.mem_append_left _ hf),
          fun y => (final inside' y).trans (same y)⟩
    · obtain ⟨f, hf, same⟩ := ih (h.left k inside) later bound
      exact ⟨f, List.mem_cons_of_mem _ (List.mem_append_right _ hf), same⟩

/-- **Each of the frames** belongs in the end to a scope that the walk
enters. -/
theorem entered_of_frame (h : t.Walking here) (os : List Outline)
    {f : List Declared} (hf : f ∈ framesAll os) :
    ∃ x < (t.addAll here os).scopes.length, t.scopes.length ≤ x ∧
      ∀ y, (t.addAll here os).placesIn x y = placesOf y f := by
  induction os using outlines_induct generalizing t here with
  | nil => cases hf
  | leaf o os isLeaf ih =>
    have scopes := scopes_add_leaf t here isLeaf
    have none : frames o = [] := by cases o <;> first | rfl | cases isLeaf
    rw [framesAll, none, List.nil_append] at hf
    obtain ⟨x, bound, new, same⟩ := ih (h.leaf isLeaf) hf
    exact ⟨x, bound, scopes ▸ new, same⟩
  | scope k inside os inner ih =>
    have after := h.left k inside
    have entered := (grows_enter t here k).length_le
    have left := (grows_addAll (t.enter here k) (t.scopes.length :: here)
      inside).length_le
    have rest := (grows_addAll ((t.enter here k).addAll
      (t.scopes.length :: here) inside) here os).length_le
    have length : (t.enter here k).scopes.length = t.scopes.length + 1 := by
      simp [Table.enter]
    rw [addAll, add_scope]
    rw [framesAll, frames, List.cons_append, List.mem_cons, List.mem_append]
      at hf
    rcases hf with rfl | hf | hf
    · refine ⟨t.scopes.length, by omega, Nat.le_refl _, fun y => ?_⟩
      rw [h.placesIn_left k inside os (Nat.le_refl _) (by omega),
        h.placesIn_own]
    · obtain ⟨x, bound, new, same⟩ := inner (h.enter k) hf
      refine ⟨x, by omega, by omega, fun y => ?_⟩
      rw [h.placesIn_left k inside os (by omega) bound, same]
    · obtain ⟨x, bound, new, same⟩ := ih after hf
      exact ⟨x, bound, by omega, same⟩

/-- **A binding lists the declarations of its name in a frame**, in order: in
the frame of the program, or in that of a scope inside of it. -/
theorem places_of_binding {b : Binding} (hb : b ∈ (ofOutline os).bindings) :
    ∃ f ∈ reachingAll .root os :: framesAll os,
      b.places = placesOf b.name f := by
  have start : ({} : Table).keys.Nodup := List.nodup_nil
  have distinct : (ofOutline os).keys.Nodup := keys_addAll start [0] os
  have own : (ofOutline os).placesIn b.scope b.name = b.places := by
    obtain ⟨id, there⟩ := List.mem_iff_getElem?.1 hb
    have found := bindingIn?_eq_some.2 ⟨b, there, rfl, rfl⟩
    have first := map_getD_findIdx? (ofOutline os).bindings
      (fun c => c.scope == b.scope && c.name == b.name) default
    rw [bindingIn?] at found
    rw [found, Option.map_some, List.getD_eq_getElem?_getD, there] at first
    rw [placesIn, ← first]
    rfl
  have inside : b.scope < (ofOutline os).scopes.length :=
    (walking_start.addAll os).placed b hb
  rcases Nat.eq_zero_or_pos b.scope with root | inner
  · refine ⟨_, List.mem_cons_self, ?_⟩
    have program : ({} : Table).reachFrom [0] 0 = .root := rfl
    rw [← own, root, ofOutline,
      placesIn_addAll walking_start.toStands os Nat.one_pos, program]
    rfl
  · obtain ⟨f, hf, same⟩ := placesIn_entered walking_start os inner inside
    exact ⟨f, List.mem_cons_of_mem _ hf, own ▸ same b.name⟩

/-- **The declarations of a name in a frame** are those of one binding. -/
theorem binding_of_frame {f : List Declared}
    (hf : f ∈ reachingAll .root os :: framesAll os) {x : String}
    (declared : placesOf x f ≠ []) :
    ∃ b ∈ (ofOutline os).bindings, b.name = x ∧ b.places = placesOf x f := by
  have scope : ∃ y, ∀ x, (ofOutline os).placesIn y x = placesOf x f := by
    rcases List.mem_cons.1 hf with rfl | hf
    · have program : ({} : Table).reachFrom [0] 0 = .root := rfl
      refine ⟨0, fun x => ?_⟩
      rw [ofOutline, placesIn_addAll walking_start.toStands os Nat.one_pos,
        program]
      rfl
    · obtain ⟨y, -, -, same⟩ := entered_of_frame walking_start os hf
      exact ⟨y, same⟩
  obtain ⟨y, same⟩ := scope
  rw [← same x, placesIn] at declared ⊢
  cases found : (ofOutline os).bindings.find?
      fun b => b.scope == y && b.name == x with
  | none => exact absurd (by rw [found]; rfl) declared
  | some b =>
    have fits := List.find?_some found
    rw [Bool.and_eq_true, beq_iff_eq, beq_iff_eq] at fits
    exact ⟨b, List.mem_of_find?_eq_some found, fits.2, rfl⟩

end Table

end NullGuard.Scope
