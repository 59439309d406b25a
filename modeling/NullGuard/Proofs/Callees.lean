import NullGuard.Proofs.Assignments
import NullGuard.Proofs.Remarks
import NullGuard.Proofs.Surroundings

/-!
# What a table knows of calls and helpers

A table lists the references of a program with what they do, and its helpers.
Two of these facts come from one node each: a reference is a callee because a
call has that name in front of its arguments (`Calls`), and a binding is a
helper because an import or a declarator introduces it (`Introduces`).

A table knows as much as the program says. `called_of_callee` and
`introduced_of_helper` go back from the table to the node; `callee_of_called`
and `isHelper_of_introduces` say that each such node is in the table of a
script.
-/

namespace NullGuard.Scope

open NullGuard.Text (Span)
open NullGuard.Tree

/-- A node calls the identifier of a name that stands at a span. -/
def Calls (x : String) (s : Option Span) (n : Node) : Prop :=
  ∃ t callee rest i, n = .node .call t (callee :: rest) ∧
    bareIdentifier? callee = some i ∧ i.kind = .ident x ∧ i.span = s

/-- A node declares the helper of a module by a name that stands at a span. -/
inductive Introduces (m x : String) (place : Option Span) : Node → Prop where
  | imported {b : Bool} {s : Option Span} {ns : List Node} {here : Node}
      (isHelper : namesModule m (child ns 1) = true)
      (checked : checkImport b s (child ns 0).children = .ok here)
      (isName : identifier? here.kind = some x) (there : here.span = place) :
      Introduces m x place (.node (.importDecl b) s ns)
  | required {b : Bool} {s : Option Span} {ns : List Node} {o : Bool}
      (isHelper : isHelperRequire m (child ns 1) = true)
      (isName : (child ns 0).kind = .bindingIdent x o)
      (there : (child ns 0).span = place) :
      Introduces m x place (.node (.declarator b) s ns)

/-- A node is the one that a helper comes from. -/
def IsOrigin (n : Node) (origin : Origin) : Prop :=
  origin = .imported n.span ∨ ∃ isExported, origin = .required n.span isExported

section Nodes

variable {m x : String} {s place : Option Span} {n tree : Node}

/-- An identifier in parentheses stands in them. -/
theorem occurs_of_bareIdentifier? {i : Node}
    (isBare : bareIdentifier? n = some i) : Occurs i n := by
  unfold bareIdentifier? at isBare
  split at isBare
  · rw [← Option.some.inj isBare]
    exact .stripParens n
  · cases isBare

/-- The identifier that is called stands in the call, in front of the
arguments. -/
theorem Calls.occurs (h : Calls x s n) :
    ∃ i, Occurs i n ∧ i.kind = .ident x ∧ i.span = s := by
  obtain ⟨t, callee, rest, i, rfl, isBare, isName, there⟩ := h
  exact ⟨i, .inside List.mem_cons_self (occurs_of_bareIdentifier? isBare),
    isName, there⟩

/-- A bare identifier has a name. -/
theorem name_of_bareIdentifier? {i : Node}
    (isBare : bareIdentifier? n = some i) : ∃ y, i.kind = .ident y := by
  unfold bareIdentifier? at isBare
  split at isBare
  · rename_i y isName
    rw [← Option.some.inj isBare]
    exact ⟨y, isName⟩
  · cases isBare

/-- The span of an identifier is one of those in the nodes around it. -/
theorem mem_spans_of_occurs {i : Node} (occurs : Occurs i n)
    (isName : identifier? i.kind = some x) : i.span ∈ spans n :=
  occurs.spans (mem_spans.2 ⟨x, mem_mentions_self isName⟩)

theorem Calls.mem_spans (h : Calls x s n) : s ∈ spans n := by
  obtain ⟨i, occurs, isName, rfl⟩ := h.occurs
  exact mem_spans_of_occurs occurs (x := x) (by rw [isName]; rfl)

/-- The name that an import is checked to declare stands in its specifiers. -/
theorem occurs_of_checkImport {b : Bool} {t : Option Span}
    {specifiers : List Node} {here : Node}
    (checked : checkImport b t specifiers = .ok here) :
    ∃ q ∈ specifiers, here ∈ q.children := by
  rcases specifiers with _ | ⟨q, _ | ⟨q', rest⟩⟩
  · cases checked
  · simp only [checkImport] at checked
    split at checked
    · rename_i name only isDefault
      split at checked
      · cases checked
      · cases checked
        refine ⟨q, List.mem_cons_self, ?_⟩
        unfold defaultSpecifier? at isDefault
        split at isDefault
        · cases isDefault
          exact List.mem_cons_self
        · split at isDefault
          · cases isDefault
            exact List.mem_cons_self
          · cases isDefault
        · cases isDefault
    · cases checked
  · cases checked

/-- The name stands in the node. -/
theorem Introduces.mem_mentions (h : Introduces m x place n) :
    (x, place) ∈ mentions n := by
  cases h with
  | @imported b s ns here isHelper checked isName there =>
    obtain ⟨q, hq, inside⟩ := occurs_of_checkImport checked
    have first : child ns 0 ∈ ns := by
      refine (child_mem_or ns 0).resolve_right fun missing => ?_
      rw [missing] at hq
      cases hq
    have occurs : Occurs here (.node (.importDecl b) s ns) := by
      generalize child ns 0 = list at first hq
      obtain ⟨k, t, qs⟩ := list
      obtain ⟨k', t', cs⟩ := q
      exact .inside first (.inside hq (.inside inside .here))
    exact there ▸ occurs.mentions (mem_mentions_self isName)
  | @required b s ns o isHelper isName there =>
    have first : child ns 0 ∈ ns := by
      refine (child_mem_or ns 0).resolve_right fun missing => ?_
      rw [missing] at isName
      cases isName
    exact there ▸ (Occurs.inside first .here).mentions
      (mem_mentions_self (by rw [isName]; rfl))

theorem Introduces.mem_spans (h : Introduces m x place n) : place ∈ spans n :=
  Scope.mem_spans.2 ⟨x, h.mem_mentions⟩

/-- A node introduces one helper. -/
theorem Introduces.place_eq {x' : String} {place' : Option Span}
    (h : Introduces m x place n) (h' : Introduces m x' place' n) :
    place = place' := by
  cases h with
  | imported isHelper checked isName there =>
    cases h' with
    | imported isHelper' checked' isName' there' =>
      cases checked.symm.trans checked'
      rw [← there, there']
  | required isHelper isName there =>
    cases h' with
    | required isHelper' isName' there' => rw [← there, there']

theorem Introduces.isHome (h : Introduces m x place n) : IsHome n := by
  cases h <;> exact ⟨rfl, rfl, nofun, rfl, nofun⟩

end Nodes

section Back

variable {m : String} {n : Node}

theorem stable_callees (P : String → Option Span → Prop) :
    Stable (fun _ => True) fun os => ∀ frames, ∀ u ∈ resolvedAll frames os,
      u.kind = .callee → P u.name u.span where
  usual _ _ := trivial
  nil _ := nofun
  append h h' frames u hu := by
    rw [resolvedAll_append] at hu
    exact (List.mem_append.1 hu).elim (h frames u) (h' frames u)
  scope k h frames u hu := by
    rw [resolvedAll, resolved, resolvedAll, List.append_nil] at hu
    exact h _ u hu
  declaration _ _ _ _ _ := nofun
  use x s k other frames u hu isCallee := by
    cases List.mem_singleton.1 hu
    exact absurd isCallee other

/-- **What is a callee is called** by some node. -/
theorem called_of_resolved (isRegular : regular n = true) (c : Context) :
    ∀ frames, ∀ u ∈ resolvedAll frames (said m c n), u.kind = .callee →
      ∃ n' ∈ subnodes n, Calls u.name u.span n' := by
  have stable := stable_callees fun x s => ∃ n' ∈ subnodes n, Calls x s n'
  suffices both : ∀ n₀, Occurs n₀ n →
    (∀ c frames, ∀ u ∈ resolvedAll frames (said m c n₀), u.kind = .callee →
    ∃ n' ∈ subnodes n, Calls u.name u.span n') ∧ ∀ n' ∈ n₀.children,
    ∀ c frames, ∀ u ∈ resolvedAll frames (said m c n'), u.kind = .callee →
    ∃ n' ∈ subnodes n, Calls u.name u.span n' from (both n .here).1 c
  intro n₀ occurs
  induction n₀ using Node.induct with
  | step k s ns ih =>
    obtain ⟨parts, -⟩ := regular_node.1 (occurs.regular isRegular)
    have each n₁ (hn : n₁ ∈ ns) :=
      ih n₁ hn ((Occurs.inside hn .here).trans occurs)
    refine ⟨fun c => said_stable stable ⟨parts, fun n₁ hn c _ =>
      (each n₁ hn).1 c, fun n₁ hn _ n' hn' c _ => (each n₁ hn).2 n' hn' c,
      ?_, fun _ _ => stable.named trivial _, fun _ _ _ _ _ _ _ _ => nofun,
      fun _ _ _ _ _ _ => nofun, fun _ _ _ _ => nofun, fun _ _ _ _ _ _ _ _ _ _ =>
      nofun⟩ c (allowing_all c), fun n₁ hn => (each n₁ hn).1⟩
    rintro rfl i isBare frames u hu -
    obtain ⟨x, isName⟩ := name_of_bareIdentifier? isBare
    have told : refer i .callee = [.reference x i.span .callee] := by
      unfold refer
      rw [isName]
      rfl
    rw [told] at hu
    cases List.mem_singleton.1 hu
    refine ⟨_, mem_subnodes.2 occurs, s, child ns 0, ns.drop 1, i, ?_, isBare,
      isName, rfl⟩
    cases ns with
    | nil => cases isBare
    | cons callee rest => rfl

/-- **A callee is called** by some node. -/
theorem called_of_callee (isRegular : regular n = true) {r : Reference}
    (hr : r ∈ (Table.ofOutline (outline m n)).references)
    (isCallee : r.kind = .callee) :
    ∃ n' ∈ subnodes n, Calls r.name r.span n' := by
  have among : (Table.ofOutline (outline m n)).resolution r ∈
      resolvedAll [reachingAll .root (outline m n)] (said m {} n) := by
    rw [← outline_eq_said, ← Table.resolve_ofOutline]
    exact List.mem_map_of_mem hr
  exact called_of_resolved isRegular {} _ _ among isCallee

/-- **A helper is introduced** by the node that it comes from, where its binding
is declared. -/
theorem introduced_of_helper (isRegular : regular n = true)
    {d : HelperDeclaration} (hd : d ∈ (Table.ofOutline (outline m n)).helpers) :
    ∃ x place, (∃ n' ∈ subnodes n, Introduces m x place n' ∧
      IsOrigin n' d.origin) ∧
      (Table.ofOutline (outline m n)).DeclaredAt d.binding x place := by
  rcases (Table.learned_addAll {} [0] (outline m n)).helpers d hd
    with none | ⟨x, place, k, told, declared⟩
  · cases none
  · refine ⟨x, place, ?_, declared⟩
    refine remarks_said (P := fun o => ∀ x s kind origin, o = .helper x s
      kind origin → ∃ n' ∈ subnodes n, Introduces m x s n' ∧ IsOrigin n' origin)
      isRegular (fun k s ns there => ?_) {} _ told x place k _ rfl
    refine ⟨?_, by rintro _ _ - - - _ _ _ _ ⟨⟩, by rintro _ - - _ _ _ _ ⟨⟩, ?_⟩
    · rintro b here x rfl isHelper checked isName _ _ _ _ ⟨⟩
      exact ⟨_, there, .imported isHelper checked isName rfl, .inl rfl⟩
    · rintro b x o kind isExported rfl isHelper isName _ _ _ _ ⟨⟩
      exact ⟨_, there, .required isHelper isName rfl, .inr ⟨isExported, rfl⟩⟩

end Back

section Forth

variable {m x : String} {s place : Option Span} {n tree : Node}

/-- What an outline records as a value is used in it. -/
theorem resolved_of_recorded {os : List Outline}
    (h : ⟨.value, x, s⟩ ∈ recordedAll os) (frames : List (List Declared)) :
    ∃ u ∈ resolvedAll frames os, u.name = x ∧ u.span = s := by
  induction os using outlines_induct generalizing frames with
  | nil => cases h
  | leaf o os isLeaf ih =>
    rw [recordedAll, List.mem_append] at h
    rcases h with here | behind
    · cases o with
      | scope k inside => cases isLeaf
      | reference y t k =>
        cases List.mem_singleton.1 here
        exact ⟨_, List.mem_cons_self, rfl, rfl⟩
      | declaration y t k | helper y t k origin =>
        cases List.mem_singleton.1 here
      | unrecognized t | malformed e => cases here
    · obtain ⟨u, hu, same⟩ := ih behind frames
      refine ⟨u, ?_, same⟩
      rw [← List.singleton_append, resolvedAll_append]
      exact List.mem_append_right _ hu
  | scope k inside os inner ih =>
    rw [recordedAll, recorded, List.mem_append] at h
    rcases h with here | behind
    · obtain ⟨u, hu, same⟩ := inner here (reachingAll (.own k) inside :: frames)
      exact ⟨u, List.mem_append_left _ hu, same⟩
    · obtain ⟨u, hu, same⟩ := ih behind frames
      refine ⟨u, ?_, same⟩
      rw [← List.singleton_append, resolvedAll_append]
      exact List.mem_append_right _ hu

/-- Where a node calls a name, the name is used as a callee and not
otherwise. -/
theorem usesOnly_callee (isRegular : regular n = true)
    (distinct : (spans n).Nodup) (calls : Calls x s n) (c : Context) :
    UsesOnly .callee s (said m c n) := by
  have allows : AllowsOthers (fun p => p.2 = s) (UsesOnly .callee s) :=
    usesOnly_allowsOthers (by decide) s
  obtain ⟨t, callee, rest, i, rfl, isBare, isName, there⟩ := calls
  have inside : s ∈ spans callee :=
    there ▸ mem_spans_of_occurs (x := x) (occurs_of_bareIdentifier? isBare)
      (by rw [isName]; rfl)
  obtain ⟨-, alone⟩ := spans_distinct [] distinct
  have behind : UsesOnly .callee s (said m c (child rest 0)) := by
    rcases child_mem_or rest 0 with mem | missing
    · exact said_of_clear allows
        (regular_child isRegular (List.mem_cons_of_mem _ mem))
        (clear_of_not_mem ((alone s inside).2 _ mem)) c
    · rw [missing]
      exact allows.nil
  rw [said_node]
  simp only [outlineOf, part_toParts, node_toPart, child,
    List.getD_cons_zero, isBare]
  exact allows.append (usesOnly_refer s i) behind

theorem independent_of_isProgram (program : isProgram n.kind = true) :
    isDependent n = false := by
  obtain ⟨k, s, ns⟩ := n
  cases k
  all_goals first
    | rfl
    | cases program

/-- **What is called in a script is a callee.** -/
theorem callee_of_called (script : isScript tree = true)
    (isRegular : regular tree = true) (program : isProgram tree.kind = true)
    (distinct : (spans tree).Nodup) (hn : n ∈ subnodes tree)
    (calls : Calls x s n) :
    ∃ r ∈ (Table.ofOutline (outline m tree)).references, r.name = x ∧
      r.span = s ∧ r.kind = .callee := by
  have occurs := mem_subnodes.1 hn
  have isHome : IsHome n := by
    obtain ⟨t, callee, rest, i, rfl, -⟩ := calls
    exact ⟨rfl, rfl, nofun, rfl, nofun⟩
  have housed := housed_of_occurs occurs calls.mem_spans isHome distinct
  have only : UsesOnly .callee s (outline m tree) := by
    have allows : AllowsOthers (fun p => p.2 = s) (UsesOnly .callee s) :=
      usesOnly_allowsOthers (by decide) s
    refine said_of_housed allows
      (fun n' isHere isRegular c => ?_) isRegular housed {}
    subst isHere
    exact usesOnly_callee isRegular (occurs.distinct distinct) calls c
  have isRecorded : ⟨.value, x, s⟩ ∈ recordedAll (outline m tree) := by
    refine (recorded_outline script isRegular
      (independent_of_isProgram program) m).mem_iff.2 ?_
    obtain ⟨i, inside, isName, rfl⟩ := calls.occurs
    refine List.mem_flatMap.2 ⟨i, mem_subnodes.2 (inside.trans occurs), ?_⟩
    rw [isName]
    exact List.mem_cons_self
  obtain ⟨u, hu, rfl, rfl⟩ :=
    resolved_of_recorded isRecorded [reachingAll .root (outline m tree)]
  have isCallee := only _ u hu rfl
  rw [← Table.resolve_ofOutline] at hu
  obtain ⟨r, hr, rfl⟩ := List.mem_map.1 hu
  exact ⟨r, hr, rfl, rfl, isCallee⟩

/-- Whatever is declared at a span is a helper. -/
def BindsHelper (s : Option Span) (t : Table) : Prop :=
  ∀ (id : Nat) (b : Binding), t.bindings[id]? = some b → s ∈ b.places →
    ∃ d ∈ t.helpers, d.binding = id

/-- A declaration leaves what is declared at a span a helper, or declares
something there itself. -/
theorem BindsHelper.declare {t : Table} (h : BindsHelper s t) (here : List Nat)
    (y : String) (sp : Option Span) (kind : BindingKind) (id : Nat)
    (b : Binding) (there : (t.declare here y sp kind).2.bindings[id]? = some b)
    (isHere : s ∈ b.places) :
    (∃ d ∈ t.helpers, d.binding = id) ∨ id = (t.declare here y sp kind).1 ∧
      sp = s := by
  cases found : t.bindingIn? y (t.targetScope here kind) with
  | some id' =>
    rw [Table.declare_of_some found, List.getElem?_modify] at there
    obtain ⟨b', there', rfl⟩ := Option.map_eq_some_iff.1 there
    split at isHere
    · rename_i same
      rw [Binding.places, ← List.cons_append, List.mem_append,
        List.mem_singleton] at isHere
      rw [Table.declare_of_some found]
      exact isHere.imp (h id b' there') fun here => ⟨same.symm, here.symm⟩
    · exact .inl (h id b' there' isHere)
  | none =>
    rw [Table.declare_of_none found] at there ⊢
    rcases List.getElem?_eq_some_iff.1 there with ⟨bound, rfl⟩
    by_cases old : id < t.bindings.length
    · refine .inl (h id _ (List.getElem?_eq_getElem old) ?_)
      rwa [List.getElem_append_left old] at isHere
    · have last : id = t.bindings.length := by
        rw [List.length_append, List.length_singleton] at bound
        omega
      subst last
      rw [List.getElem_concat_length rfl] at isHere
      exact .inr ⟨rfl, (List.mem_singleton.1 isHere).symm⟩

/-- An outline leaves what is declared at a span a helper. -/
def LeavesHelper (s : Option Span) (os : List Outline) : Prop :=
  ∀ t here, BindsHelper s t → BindsHelper s (t.addAll here os)

theorem addAll_append (t : Table) (here : List Nat) (os os' : List Outline) :
    t.addAll here (os ++ os') = (t.addAll here os).addAll here os' := by
  induction os generalizing t with
  | nil => rfl
  | cons o os ih => rw [List.cons_append, Table.addAll, ih, Table.addAll]

theorem leavesHelper_helper (s : Option Span) (y : String) (sp : Option Span)
    (kind : BindingKind) (origin : Origin) :
    LeavesHelper s [.helper y sp kind origin] := by
  intro t here h id b there isHere
  rcases h.declare here y sp kind id b there isHere
    with ⟨d, hd, same⟩ | ⟨rfl, -⟩
  · have kept : d ∈ (t.declare here y sp kind).2.helpers :=
      (Table.helpers_declare t here y sp kind).1.symm ▸ hd
    exact ⟨d, List.mem_append_left _ kept, same⟩
  · exact ⟨⟨_, origin⟩, List.mem_append_right _ (List.mem_singleton_self _),
      rfl⟩

/-- Helpers may be declared at the span, but nothing else. -/
theorem leavesHelper_allowsOthers (s : Option Span) :
    AllowsOthers (fun p => p.2 = s) (LeavesHelper s) where
  nil _ _ h := h
  append {os os'} first second t here h := by
    rw [addAll_append]
    exact second _ here (first t here h)
  scope k inside t here h := inside (t.enter here k) (t.scopes.length :: here) h
  reference k _ t here h := h
  unrecognized _ _ _ h := h
  malformed _ _ _ h := h
  declaration {y sp} other kind t here h id b there isHere := by
    rw [Table.addAll, Table.addAll, Table.add, (Table.helpers_declare ..).1]
    exact (h.declare here y sp kind id b there isHere).resolve_right
      fun bound => other bound.2
  helper {y sp} _ kind origin := leavesHelper_helper s y sp kind origin
  use _ _ _ h := h

/-- **What a node introduces as the helper is one.** -/
theorem isHelper_of_introduces (isRegular : regular tree = true)
    (distinct : (spans tree).Nodup) (hn : n ∈ subnodes tree)
    (introduces : Introduces m x place n) :
    BindsHelper place (Table.ofOutline (outline m tree)) := by
  have occurs := mem_subnodes.1 hn
  have allows := leavesHelper_allowsOthers place
  have housed :=
    housed_of_occurs occurs introduces.mem_spans introduces.isHome distinct
  refine said_of_housed allows (fun n' isHere isRegular c => ?_) isRegular
    housed {} {} [0] fun id b there => by
    cases there
  subst isHere
  have inner := occurs.distinct distinct
  cases introduces with
  | @imported b s ns here isHelper checked isName there =>
    have told : said m c (.node (.importDecl b) s ns) =
        [.helper x here.span .imported (.imported s)] := by
      rw [said_node]
      simp [outlineOf, importOutline, isHelper, checked, isName]
    rw [told]
    exact leavesHelper_helper _ _ _ _ _
  | @required b s ns o isHelper isName there =>
    have told : said m c (.node (.declarator b) s ns) =
        [.helper x (child ns 0).span c.varKind (.required s c.isExported)] ++
        said m c (child ns 1) := by
      rw [said_node]
      simp [outlineOf, declaratorOutline, isHelper, isName]
    rw [told]
    refine allows.append (leavesHelper_helper _ _ _ _ _) ?_
    rcases ns with _ | ⟨pattern, rest⟩
    · exact allows.nil
    · have inside : place ∈ spans pattern :=
        there ▸ mem_spans_of_occurs (x := x) .here (by rw [isName]; rfl)
      obtain ⟨-, alone⟩ := spans_distinct [] inner
      rcases child_mem_or rest 0 with mem | missing
      · exact said_of_clear allows
          (regular_child isRegular (List.mem_cons_of_mem _ mem))
          (clear_of_not_mem ((alone place inside).2 _ mem)) c
      · rw [show child (pattern :: rest) 1 = .none from missing]
        exact allows.nil

end Forth

end NullGuard.Scope
