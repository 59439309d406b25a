import NullGuard.Proofs.Outlines

/-!
# What a program says about the helper

An outline speaks of the helper in three ways: it declares the helper, it has a
variable that requires the module in another form, or it has an import of the
module that makes no sense. These are its *remarks*. All that a table knows of
helpers comes from them, and each comes from an import of the module or from a
declarator that requires it (`remarks_said`).
-/

namespace NullGuard.Scope

open NullGuard.Text (Span)
open NullGuard.Tree

mutual

/-- What an outline says about the helper, in whatever scope. -/
def remarks : Outline → List Outline
  | .scope _ inside => remarksAll inside
  | .helper name span kind origin => [.helper name span kind origin]
  | .unrecognized span => [.unrecognized span]
  | .malformed rejection => [.malformed rejection]
  | _ => []

/-- What several outlines say about the helper. -/
def remarksAll : List Outline → List Outline
  | [] => []
  | o :: os => remarks o ++ remarksAll os

end

@[simp] theorem remarksAll_append (os os' : List Outline) :
    remarksAll (os ++ os') = remarksAll os ++ remarksAll os' := by
  induction os with
  | nil => rfl
  | cons o os ih =>
    simp only [List.cons_append, remarksAll, ih, List.append_assoc]

/-- A malformed import is a remark. -/
theorem remarked_of_malformed (os : List Outline) {e : Transform.Rejection}
    (found : malformedAmong? os = some e) :
    .malformed e ∈ remarksAll os := by
  induction os using outlines_induct with
  | nil => cases found
  | leaf o os isLeaf ih =>
    rw [remarksAll, List.mem_append]
    cases o with
    | scope k inside => cases isLeaf
    | malformed rejection =>
      cases found
      exact .inl List.mem_cons_self
    | _ => exact .inr (ih found)
  | scope k inside os inner ih =>
    rw [remarksAll, List.mem_append]
    rw [malformedAmong?, malformed?] at found
    cases first : malformedAmong? inside with
    | some e' =>
      rw [first] at found
      cases found
      exact .inl (inner first)
    | none =>
      rw [first] at found
      exact .inr (ih found)

namespace Table

/-- Declaring a name says nothing about the helper. -/
theorem helpers_declare (t : Table) (here : List Nat) (name : String)
    (span : Option Span) (kind : BindingKind) :
    (t.declare here name span kind).2.helpers = t.helpers ∧
      (t.declare here name span kind).2.unrecognized = t.unrecognized := by
  cases found : t.bindingIn? name (t.targetScope here kind) with
  | some id => rw [declare_of_some found]; exact ⟨rfl, rfl⟩
  | none => rw [declare_of_none found]; exact ⟨rfl, rfl⟩

/-- A table has the bindings of another one, some of them perhaps declared
again. -/
def Extends (t t' : Table) : Prop :=
  ∀ (id : Nat) (b : Binding), t.bindings[id]? = some b →
    ∃ again, t'.bindings[id]? =
    some { b with redeclarations := b.redeclarations ++ again }

theorem Extends.refl (t : Table) : t.Extends t :=
  fun _ _ there => ⟨[], by rw [List.append_nil, there]⟩

theorem Extends.trans {t t' t'' : Table} (h : t.Extends t')
    (h' : t'.Extends t'') : t.Extends t'' := by
  intro id b there
  obtain ⟨again, there'⟩ := h id b there
  obtain ⟨again', there''⟩ := h' id _ there'
  exact ⟨again ++ again', by rw [there'', List.append_assoc]⟩

theorem extends_declare (t : Table) (here : List Nat) (name : String)
    (span : Option Span) (kind : BindingKind) :
    t.Extends (t.declare here name span kind).2 := by
  intro id b there
  cases found : t.bindingIn? name (t.targetScope here kind) with
  | some id' =>
    rw [declare_of_some found]
    by_cases same : id' = id
    · subst same
      exact ⟨[span], by rw [List.getElem?_modify_eq, there]; rfl⟩
    · refine ⟨[], ?_⟩
      rw [List.append_nil]
      exact (List.getElem?_modify_ne _ _ same).trans there
  | none =>
    rw [declare_of_none found]
    refine ⟨[], ?_⟩
    rw [List.append_nil,
      List.getElem?_append_left (List.getElem?_eq_some_iff.1 there).1, there]

theorem extends_add_leaf (t : Table) (here : List Nat) {o : Outline}
    (isLeaf : o.isLeaf = true) : t.Extends (t.add here o) := by
  cases o with
  | scope k inside => cases isLeaf
  | declaration x s k => exact extends_declare t here x s k
  | helper x s k origin => exact extends_declare t here x s k
  | _ => exact .refl t

/-- A walk keeps the bindings there are. -/
theorem extends_addAll (t : Table) (here : List Nat) (os : List Outline) :
    t.Extends (t.addAll here os) := by
  induction os using outlines_induct generalizing t here with
  | nil => exact .refl t
  | leaf o os isLeaf ih =>
    rw [addAll]
    exact (extends_add_leaf t here isLeaf).trans (ih _ _)
  | scope k inside os inner ih =>
    rw [addAll, add_scope]
    have entered : t.Extends (t.enter here k) := .refl t
    exact (entered.trans (inner _ _)).trans (ih _ _)

/-- A binding has a name and is declared at a span. -/
def DeclaredAt (t : Table) (id : Nat) (x : String) (s : Option Span) : Prop :=
  ∃ b, t.bindings[id]? = some b ∧ b.name = x ∧ s ∈ b.places

theorem DeclaredAt.extend {t t' : Table} {id : Nat} {x : String}
    {s : Option Span} (h : t.DeclaredAt id x s) (extend : t.Extends t') :
    t'.DeclaredAt id x s := by
  obtain ⟨b, there, named, declared⟩ := h
  obtain ⟨again, there'⟩ := extend id b there
  exact ⟨_, there', named, List.mem_append_left again declared⟩

theorem declaredAt_declare (t : Table) (here : List Nat) (name : String)
    (span : Option Span) (kind : BindingKind) :
    (t.declare here name span kind).2.DeclaredAt
      (t.declare here name span kind).1 name span := by
  cases found : t.bindingIn? name (t.targetScope here kind) with
  | some id =>
    rw [declare_of_some found]
    obtain ⟨bound, fits, -⟩ := List.findIdx?_eq_some_iff_getElem.1 found
    rw [Bool.and_eq_true, beq_iff_eq, beq_iff_eq] at fits
    have there := List.getElem?_modify_eq
      (fun b => { b with redeclarations := b.redeclarations ++ [span] }) id
      t.bindings
    rw [List.getElem?_eq_getElem bound] at there
    exact ⟨_, there, fits.2, List.mem_append_right (_ :: _)
      (List.mem_singleton_self span)⟩
  | none =>
    rw [declare_of_none found]
    exact ⟨_, List.getElem?_concat_length, rfl, List.mem_cons_self⟩

/-- What a table knows about the helper comes from another one or from some
remarks. -/
structure Learned (t t' : Table) (told : List Outline) : Prop where
  helpers : ∀ d ∈ t'.helpers, d ∈ t.helpers ∨
    ∃ x s k, .helper x s k d.origin ∈ told ∧ t'.DeclaredAt d.binding x s
  unrecognized : ∀ s ∈ t'.unrecognized, s ∈ t.unrecognized ∨
    .unrecognized s ∈ told

theorem Learned.nothing {t t' : Table} (helpers : t'.helpers = t.helpers)
    (unrecognized : t'.unrecognized = t.unrecognized) (told : List Outline) :
    t.Learned t' told :=
  ⟨fun _ hd => .inl (helpers ▸ hd), fun _ hs => .inl (unrecognized ▸ hs)⟩

theorem Learned.trans {t t' t'' : Table} {told told' : List Outline}
    (h : t.Learned t' told) (h' : t'.Learned t'' told')
    (extend : t'.Extends t'') :
    t.Learned t'' (told ++ told') where
  helpers d hd := by
    rcases h'.helpers d hd with old | ⟨x, s, k, new, declared⟩
    · rcases h.helpers d old with older | ⟨x, s, k, new, declared⟩
      · exact .inl older
      · exact .inr ⟨x, s, k, List.mem_append_left _ new, declared.extend extend⟩
    · exact .inr ⟨x, s, k, List.mem_append_right _ new, declared⟩
  unrecognized s hs := by
    rcases h'.unrecognized s hs with old | new
    · exact (h.unrecognized s old).imp_right (List.mem_append_left _)
    · exact .inr (List.mem_append_right _ new)

theorem learned_add_leaf (t : Table) (here : List Nat) {o : Outline}
    (isLeaf : o.isLeaf = true) :
    t.Learned (t.add here o) (remarks o) := by
  cases o with
  | scope k inside => cases isLeaf
  | declaration x s k =>
    obtain ⟨helpers, unrecognized⟩ := helpers_declare t here x s k
    exact .nothing helpers unrecognized _
  | helper x s k origin =>
    obtain ⟨helpers, unrecognized⟩ := helpers_declare t here x s k
    refine ⟨fun d hd => ?_, fun s' hs => .inl ?_⟩
    · simp only [add, helpers, List.mem_append, List.mem_singleton] at hd
      rcases hd with old | rfl
      · exact .inl old
      · exact .inr ⟨x, s, k, List.mem_singleton_self _,
          declaredAt_declare t here x s k⟩
    · simpa only [add, unrecognized] using hs
  | unrecognized s =>
    refine ⟨fun _ => .inl, fun s' hs => ?_⟩
    simp only [add, List.mem_append, List.mem_singleton] at hs
    rcases hs with old | rfl
    · exact .inl old
    · exact .inr (List.mem_singleton_self _)
  | _ => exact ⟨fun _ => .inl, fun _ => .inl⟩

/-- **What a walk learns about the helper** are the remarks of what it goes
through. -/
theorem learned_addAll (t : Table) (here : List Nat) (os : List Outline) :
    t.Learned (t.addAll here os) (remarksAll os) := by
  induction os using outlines_induct generalizing t here with
  | nil => exact ⟨fun _ => .inl, fun _ => .inl⟩
  | leaf o os isLeaf ih =>
    rw [addAll, remarksAll]
    exact (learned_add_leaf t here isLeaf).trans (ih _ _) (extends_addAll _ _ _)
  | scope k inside os inner ih =>
    rw [addAll, remarksAll, add_scope, remarks]
    have entered : t.Learned (t.enter here k) [] :=
      ⟨fun _ => .inl, fun _ => .inl⟩
    exact (entered.trans (inner _ _) (extends_addAll _ _ _)).trans (ih _ _)
      (extends_addAll _ _ _)

end Table

/-- What a node itself says about the helper has a property. -/
structure Permits (P : Outline → Prop) (m : String) (k : Kind) (s : Option Span)
    (ns : List Node) : Prop where
  imported : ∀ b here x, k = .importDecl b → namesModule m (child ns 1) = true →
    checkImport b s (child ns 0).children = .ok here → identifier? here.kind =
    some x → P (.helper x here.span .imported (.imported s))
  malformed : ∀ b e, k = .importDecl b → namesModule m (child ns 1) = true →
    checkImport b s (child ns 0).children = .error e → P (.malformed e)
  unrecognized : ∀ b, k = .declarator b → isHelperRequire m (child ns 1) =
    true → P (.unrecognized s)
  required : ∀ b x o kind isExported, k = .declarator b → isHelperRequire m
    (child ns 1) = true → (child ns 0).kind = .bindingIdent x o →
    P (.helper x (child ns 0).span kind (.required s isExported))

section Permits

variable {P : Outline → Prop} {m : String}

theorem stable_remarks (P : Outline → Prop) :
    Stable (fun _ => True) fun os => ∀ o ∈ remarksAll os, P o where
  usual _ _ := trivial
  nil := List.forall_mem_nil _
  append h h' o ho := by
    rw [remarksAll_append] at ho
    exact (List.mem_append.1 ho).elim (h o) (h' o)
  scope k h o ho := by
    rw [remarksAll, remarksAll, List.append_nil, remarks] at ho
    exact h o ho
  declaration x s _ _ := List.forall_mem_nil _
  use x s _ _ := List.forall_mem_nil _

/-- **All that a program says about the helper has a property** if what each of
its nodes says itself has. -/
theorem remarks_said {n : Node} (isRegular : regular n = true)
    (permits : ∀ k s ns, .node k s ns ∈ subnodes n → Permits P m k s ns)
    (c : Context) :
    ∀ o ∈ remarksAll (said m c n), P o := by
  have stable := stable_remarks P
  have both : (∀ c, ∀ o ∈ remarksAll (said m c n), P o) ∧
      ∀ n' ∈ n.children, ∀ c, ∀ o ∈ remarksAll (said m c n'), P o := by
    induction n using Node.induct with
    | step k s ns ih =>
      obtain ⟨parts, below, -⟩ := regular_node.1 isRegular
      have own := permits k s ns (mem_subnodes.2 .here)
      have each n (hn : n ∈ ns) := ih n hn (below n hn) fun k' s' ns' inside =>
        permits k' s' ns' (mem_subnodes.2 (.inside hn (mem_subnodes.1 inside)))
      refine ⟨fun c => said_stable stable ⟨parts, fun n hn c _ => (each n hn).1
        c, fun n hn _ n' hn' c _ => (each n hn).2 n' hn' c, ?_, fun _ _ =>
        stable.named trivial _, fun b here x isImport isHelper checked isName =>
          List.forall_mem_singleton.2
            (own.imported b here x isImport isHelper checked isName),
        fun b e isImport isHelper checked =>
          List.forall_mem_singleton.2
            (own.malformed b e isImport isHelper checked),
        fun b isDeclarator isHelper => List.forall_mem_singleton.2
          (own.unrecognized b isDeclarator isHelper),
        fun b x o kind isExported isDeclarator isHelper isName _ =>
          List.forall_mem_singleton.2
          (own.required b x o kind isExported isDeclarator isHelper isName)⟩ c
          (allowing_all c), fun n hn => (each n hn).1⟩
      rintro - x -
      unfold refer
      split <;> exact List.forall_mem_nil _
  exact both.1 c

end Permits

end NullGuard.Scope
