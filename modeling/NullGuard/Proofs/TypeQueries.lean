import NullGuard.Proofs.Callees
import NullGuard.Proofs.Hygiene

/-!
# Where a `typeof` in a type keeps a helper

A type may ask for the type of a value, `typeof idx`, and needs the declaration
of `idx` for it. The analysis records this as any other use, but it does not
look at every type: not at the types of a function, of its parameters, of a
getter or of a variable that is a name, nor at the type arguments of a call of a
name. `isAttended` says for each kind of node which of its children are looked
at, and `Attended` that a whole way down to a node is.

A query that is attended to is recorded wherever it stands
(`voiced_of_attended`; `voiced_node` is the step, with a case for every kind of
node that does not simply look at all of its children). If it asks for a helper,
then the plan lists it among the other uses of the helper, the report says so,
and the declaration is not among the removals (`type_queries_keep_helpers`).
-/

namespace NullGuard.Scope

open NullGuard.Text (Span)
open NullGuard.Tree
open NullGuard.Transform (child_set)

/-- Whether a name is called or assigned to: what stands at a position then is
not looked at as an expression. -/
def isBare (ns : List Node) : Bool :=
  (bareIdentifier? (child ns 0)).isSome

/-- Whether the analysis looks at the child at a position as a piece of its
own. -/
def isAttended (k : Kind) (ns : List Node) (i : Nat) : Bool :=
  match k with
  | .importDecl _ | .exportNamed _ _ | .importEquals _ _ | .ident _
      | .shorthand _ | .bindingIdent _ _
  | .markup (.name _) | .type .query => false
  | .fnDecl _ | .classDecl _ | .fnExpr | .classExpr | .enumDecl _ _
      | .moduleDecl _ _ =>
    i == 1
  | .exportDefaultDecl | .staticBlock => i == 0
  | .function _ _ | .constructor _ => i < 3
  | .arrow _ | .declarator _ | .catchClause | .switchStmt => i < 2
  | .getterProp => i == 0 || i == 2
  | .setterProp => i < 4
  | .call => i == 1 || !isBare ns
  | .assign _ => i == 1 || i == 0 && !isBare ns
  | .update _ _ => !isBare ns
  | .markup (.opening _) => i != 0 || !isElementName (child ns 0).kind
  | .markup .closing => i == 0 && !isElementName (child ns 0).kind
  | _ => true

/-- A node stands in another one where the analysis looks. -/
inductive Attended (q : Node) : Node → Prop where
  | here : Attended q q
  | inside {k : Kind} {s : Option Span} {ns : List Node} {i : Nat} {n : Node}
      (there : ns[i]? = some n) (looked : isAttended k ns i = true)
      (rest : Attended q n) :
      Attended q (.node k s ns)

/-- Outlines say that a name at a span is read, in whatever scope. -/
def Reads (x : String) (s : Option Span) (os : List Outline) : Prop :=
  ∀ frames, ∃ u ∈ resolvedAll frames os, u.name = x ∧ u.span = s ∧
    u.kind = .read

/-- A node says that a name is read, also where it is looked into from
outside. -/
structure Voiced (m x : String) (s : Option Span) (n : Node) : Prop where
  said : ∀ c, Reads x s (said m c n)
  /-- The statements of a body, and the items of a sequence. -/
  among : n.kind = .list ∨ n.kind = .block →
    ∀ c, Reads x s (saidAmong m c n.children)
  /-- What stands behind the name of a function or class. -/
  behind : n.kind = .fnExpr ∨ n.kind = .classExpr →
    ∀ c, Reads x s (Scope.said m c (child n.children 1))

section Reads

variable {m x : String} {s t : Option Span} {k : Kind} {n : Node}
  {ns : List Node} {i : Nat} {os os' : List Outline}

theorem not_reads_nil : ¬ Reads x s [] :=
  fun h => by obtain ⟨u, hu, -⟩ := h []; cases hu

theorem Reads.before (h : Reads x s os) (os' : List Outline) :
    Reads x s (os ++ os') := by
  intro frames
  obtain ⟨u, hu, rest⟩ := h frames
  exact ⟨u, by rw [resolvedAll_append]; exact List.mem_append_left _ hu, rest⟩

theorem Reads.after (h : Reads x s os') (os : List Outline) :
    Reads x s (os ++ os') := by
  intro frames
  obtain ⟨u, hu, rest⟩ := h frames
  exact ⟨u, by rw [resolvedAll_append]; exact List.mem_append_right _ hu, rest⟩

theorem Reads.inScope (h : Reads x s os) (kind : ScopeKind) :
    Reads x s [.scope kind os] := by
  intro frames
  obtain ⟨u, hu, rest⟩ := h (reachingAll (.own kind) os :: frames)
  exact ⟨u,
    by rw [resolvedAll, resolved, resolvedAll, List.append_nil]; exact hu, rest⟩

theorem Reads.among {c : Context} (hn : n ∈ ns) (h : Reads x s (said m c n)) :
    Reads x s (saidAmong m c ns) := by
  intro frames
  obtain ⟨u, hu, rest⟩ := h frames
  obtain ⟨front, back, rfl⟩ := List.append_of_mem hn
  refine ⟨u, ?_, rest⟩
  rw [saidAmong, List.flatMap_append, List.flatMap_cons, resolvedAll_append,
    resolvedAll_append]
  exact List.mem_append_right _ (List.mem_append_left _ hu)

/-- A body says what its statements say. -/
theorem Voiced.body (h : Voiced m x s n) (c : Context) :
    Reads x s (bodyOutline (toPart m n) c) := by
  unfold bodyOutline
  split
  · rename_i isBlock
    rw [node_toPart] at isBlock
    rw [parts_toPart, outlines_toParts]
    exact h.among (.inr isBlock) c
  · exact h.said c

/-- A pattern that is a name says nothing of what is read. -/
theorem Voiced.not_bindingIdent (h : Voiced m x s n) {y : String} {o : Bool} :
    n.kind ≠ .bindingIdent y o := by
  obtain ⟨k, t, ns⟩ := n
  rintro rfl
  exact not_reads_nil (h.said {})

/-- A name of an element with a property says what is read in it. -/
theorem Voiced.element (h : Voiced m x s n)
    (notName : isElementName n.kind = false) (c : Context) :
    Reads x s (elementNameOutline (toPart m n) c) := by
  unfold elementNameOutline
  rw [node_toPart]
  split
  · rename_i isName
    rw [isName] at notName
    cases notName
  · exact h.said c

/-- The head of a loop says what is read in it. -/
theorem Voiced.head (h : Voiced m x s n) (c : Context) :
    Reads x s (headOutline (toPart m n) c) := by
  unfold headOutline
  split <;> exact h.said _

/-- A sequence says what its items say. -/
theorem Voiced.listed (h : Voiced m x s n) (isList : isSequence n = true)
    (c : Context) :
    Reads x s (saidAmong m c n.children) :=
  h.among (.inl (beq_iff_eq.1 isList)) c

/-- A function says what its decorators, parameters and body say. -/
theorem reads_functionOutline {decorators parameters body : Node} (c : Context)
    (h : (isSequence decorators = true ∧ Voiced m x s decorators) ∨
      (isSequence parameters = true ∧ Voiced m x s parameters) ∨
      Voiced m x s body) :
    Reads x s (functionOutline (toPart m decorators) (toPart m parameters)
      (toPart m body) c) := by
  simp only [functionOutline, parts_toPart, outlines_toParts]
  refine Reads.inScope ?_ _
  rcases h with ⟨isList, voiced⟩ | ⟨isList, voiced⟩ | voiced
  · exact (voiced.listed isList _).before _
  · exact ((voiced.listed isList _).before _).after _
  · exact ((voiced.body _).after _).after _

/-- A function or class expression says what stands behind its name. -/
theorem reads_ownScope {name value : Node} (kind : ScopeKind)
    (own : BindingKind) (c : Context) (voiced : Voiced m x s value) :
    Reads x s (ownScope (toPart m name) kind own (toPart m value) c) := by
  simp only [ownScope, outline_toPart]
  split
  · exact voiced.said c
  · exact ((voiced.said c.inScope).after _).inScope _

/-- A declarator says what its pattern and its value say, as far as the pattern
is more than a name. -/
theorem reads_declaratorOutline {pattern value : Node} (c : Context)
    (h : Voiced m x s pattern ∨ Voiced m x s value) :
    Reads x s (declaratorOutline m t (toPart m pattern) (toPart m value) c) :=
    by
  simp only [declaratorOutline, node_toPart, outline_toPart]
  rcases h with voiced | voiced
  · have plain :=
      (voiced.said (c.declaring c.varKind)).before (said m c value)
    split
    · split
      · rename_i isName
        exact (voiced.not_bindingIdent isName).elim
      · exact plain.after [_]
    · exact plain
  · have said := voiced.said c
    split
    · split
      · exact said.after [_]
      · exact (said.after _).after [_]
    · exact said.after _

/-- An assignment says what its value says, and what its target says if that is
no name. -/
theorem reads_assignOutline {target value : Node} (c : Context)
    (h : bareIdentifier? target = none ∧ Voiced m x s target ∨
      Voiced m x s value) :
    Reads x s (assignOutline (toPart m target) (toPart m value) c) := by
  simp only [assignOutline, node_toPart, outline_toPart]
  rcases h with ⟨notBare, voiced⟩ | voiced
  · refine Reads.before ?_ _
    rw [notBare]
    dsimp only
    split <;> exact voiced.said _
  · exact (voiced.said c).after _

end Reads

section Step

variable {m x : String} {s t : Option Span} {k : Kind} {n : Node}
  {ns : List Node} {i : Nat}

theorem child_of_getElem? (there : ns[i]? = some n) : child ns i = n := by
  rw [child, List.getD_eq_getElem?_getD, there]
  rfl

/-- **A node says what the children say that it looks at.** -/
theorem said_of_voiced (isRegular : regularParts k ns = true)
    (there : ns[i]? = some n) (looked : isAttended k ns i = true)
    (voiced : Voiced m x s n) (c : Context) :
    Reads x s (said m c (.node k t ns)) := by
  have hn : n ∈ ns := List.mem_of_getElem? there
  have here : child ns i = n := child_of_getElem? there
  have all (c : Context) : Reads x s (saidAmong m c ns) :=
    (voiced.said c).among hn
  have behind {j : Nat} (bound : j ≤ i) (c : Context) :
      Reads x s (saidAmong m c (ns.drop j)) := by
    refine Reads.among (List.mem_of_getElem? (i := i - j) ?_) (voiced.said c)
    rw [List.getElem?_drop, ← there]
    congr 1
    omega
  have sequence {j : Nat} (bound : i < j)
      (front : (ns.take j).all isSequence = true) : isSequence n = true := by
    refine List.all_eq_true.1 front n (List.mem_of_getElem? (i := i) ?_)
    rw [List.getElem?_take_of_lt bound, there]
  rw [said_node]
  -- Only the kinds that name positions of their children have a case; for the
  -- others all children are looked at.
  cases k
  case varDecl word b =>
    cases word <;> (simp only [outlineOf, outlines_toParts]; exact all _)
  case exportDecl | usingDecl =>
    simp only [outlineOf, outlines_toParts]
    exact all _
  case declarator b =>
    simp only [outlineOf, part_toParts]
    refine reads_declaratorOutline c ?_
    rcases i with _ | _ | i
    · exact .inl (here ▸ voiced)
    · exact .inr (here ▸ voiced)
    · cases looked
  case exportDefaultDecl =>
    rcases i with _ | i
    · simp only [outlineOf, part_toParts, here, node_toPart, parts_toPart,
        outlines_toParts, outline_toPart]
      split
      · rename_i isFunction
        exact (voiced.behind (.inl isFunction) c).after _
      · rename_i isClass
        exact (voiced.behind (.inr isClass) c).after _
      · exact all c
    · cases looked
  case fnDecl | classDecl | enumDecl =>
    simp only [outlineOf, part_toParts, outline_toPart]
    rw [beq_iff_eq.1 looked] at here
    rw [here]
    exact (voiced.said c).after _
  case moduleDecl =>
    simp only [outlineOf, part_toParts, outline_toPart]
    rw [beq_iff_eq.1 looked] at here
    rw [here]
    exact ((voiced.said c.inScope).inScope _).after _
  case fnExpr | classExpr =>
    simp only [outlineOf, part_toParts]
    rw [beq_iff_eq.1 looked] at here
    rw [here]
    exact reads_ownScope _ _ c voiced
  case function a g =>
    simp only [outlineOf, part_toParts]
    refine reads_functionOutline c ?_
    rcases i with _ | _ | _ | i
    · exact .inr (.inl (here ▸ ⟨sequence (by omega) isRegular, voiced⟩))
    · exact .inl (here ▸ ⟨sequence (by omega) isRegular, voiced⟩)
    · exact .inr (.inr (here ▸ voiced))
    · cases looked
  case arrow a =>
    simp only [outlineOf, part_toParts, ← toPart_none m]
    refine reads_functionOutline c (.inr ?_)
    rcases i with _ | _ | i
    · exact .inl (here ▸ ⟨sequence (by omega) isRegular, voiced⟩)
    · exact .inr (here ▸ voiced)
    · cases looked
  case constructor modifiers =>
    simp only [outlineOf, part_toParts, outline_toPart, ← toPart_none m]
    rcases i with _ | _ | _ | i
    · exact (here ▸ voiced.said c).before _
    · refine (reads_functionOutline c (.inr (.inl (here ▸ ⟨?_, voiced⟩)))).after
        _
      refine List.all_eq_true.1 isRegular n (List.mem_of_getElem? (i := 0) ?_)
      rw [List.getElem?_take_of_lt Nat.one_pos, List.getElem?_drop]
      exact there
    · exact (reads_functionOutline c (.inr (.inr (here ▸ voiced)))).after _
    · cases looked
  case getterProp =>
    simp only [outlineOf, part_toParts, outline_toPart, ← toPart_none m]
    rcases i with _ | _ | _ | i
    · exact (here ▸ voiced.said c).before _
    · cases looked
    · exact (reads_functionOutline c (.inr (.inr (here ▸ voiced)))).after _
    · cases looked
  case setterProp =>
    simp only [outlineOf, part_toParts, outline_toPart]
    rcases i with _ | _ | _ | _ | i
    · rw [here]
      exact (voiced.said c).before _
    · rw [here]
      exact ((voiced.said _).before _).inScope _ |>.after _
    · rw [here]
      exact (((voiced.said _).before _).after _).inScope _ |>.after _
    · rw [here]
      exact (((voiced.body _).after _).after _).inScope _ |>.after _
    · cases looked
  case staticBlock =>
    simp only [outlineOf, part_toParts]
    rw [beq_iff_eq.1 looked] at here
    rw [here]
    exact (voiced.body _).inScope _
  case block | forStmt =>
    simp only [outlineOf, outlines_toParts]
    exact (all _).inScope _
  case catchClause =>
    simp only [outlineOf, part_toParts, outline_toPart]
    rcases i with _ | _ | i
    · rw [here]
      exact ((voiced.said _).before _).inScope _
    · rw [here]
      exact ((voiced.body _).after _).inScope _
    · cases looked
  case forIn | forOf =>
    simp only [outlineOf, part_toParts, drop_toParts, outlines_toParts]
    rcases i with _ | i
    · rw [here]
      exact ((voiced.head _).before _).inScope _
    · exact ((behind (by omega) _).after _).inScope _
  case switchStmt =>
    simp only [outlineOf, part_toParts, outline_toPart]
    rcases i with _ | _ | i
    · rw [here]
      exact (voiced.said c).before _
    · rw [here]
      exact ((voiced.said _).inScope _).after _
    · cases looked
  case call =>
    simp only [outlineOf, part_toParts, outlines_toParts, node_toPart,
      outline_toPart]
    rw [isAttended, Bool.or_eq_true, beq_iff_eq] at looked
    split
    · rename_i isName
      obtain rfl : i = 1 := looked.resolve_right (by simp [isBare, isName])
      exact (here ▸ voiced.said c).after _
    · exact all c
  case assign op =>
    simp only [outlineOf, part_toParts]
    refine reads_assignOutline c ?_
    rw [isAttended, Bool.or_eq_true, Bool.and_eq_true, beq_iff_eq, beq_iff_eq]
      at looked
    rcases looked with rfl | ⟨rfl, notBare⟩
    · exact .inr (here ▸ voiced)
    · refine .inl ⟨?_, here ▸ voiced⟩
      rwa [Bool.not_eq_true', isBare, Option.isSome_eq_false_iff,
        Option.isNone_iff_eq_none] at notBare
  case update op b =>
    simp only [outlineOf, part_toParts, outlines_toParts, node_toPart]
    split
    · rename_i isName
      simp [isAttended, isBare, isName] at looked
    · exact all c
  case markup form =>
    cases form
    case opening closes =>
      simp only [outlineOf, part_toParts, drop_toParts, outlines_toParts]
      rcases i with _ | i
      · rw [here]
        refine (voiced.element ?_ c).before _
        rw [isAttended, here] at looked
        simpa using looked
      · exact (behind (by omega) c).after _
    case closing =>
      simp only [outlineOf, part_toParts]
      rw [isAttended, Bool.and_eq_true, beq_iff_eq] at looked
      obtain ⟨rfl, notName⟩ := looked
      rw [here] at notName ⊢
      exact voiced.element (by simpa using notName) c
    case name => cases looked
    all_goals
      simp only [outlineOf, outlines_toParts]
      exact all c
  case type form =>
    cases form
    case query => cases looked
    all_goals
      simp only [outlineOf, outlines_toParts]
      exact all c
  case importDecl | exportNamed | importEquals | ident | shorthand
      | bindingIdent =>
    cases looked
  all_goals
    simp only [outlineOf, outlines_toParts]
    exact all c

/-- **What a child says that a node looks at, the node says**, also where it is
looked into from outside itself. -/
theorem voiced_node (isRegular : regularParts k ns = true)
    (there : ns[i]? = some n) (looked : isAttended k ns i = true)
    (voiced : Voiced m x s n) :
    Voiced m x s (.node k t ns) where
  said := said_of_voiced isRegular there looked voiced
  among _ c := (voiced.said c).among (List.mem_of_getElem? there)
  behind isExpression c := by
    obtain rfl : i = 1 := by
      rcases isExpression with isFunction | isClass
      · exact beq_iff_eq.1 (by cases isFunction; exact looked)
      · exact beq_iff_eq.1 (by cases isClass; exact looked)
    rw [show child (Node.node k t ns).children 1 = n
      from child_of_getElem? there]
    exact voiced.said c

end Step

/-- Whether a type stands at a position that is not looked at: around the
parameters of a function, behind a variable or parameter that is a name, in
front of the arguments of a call of a name, or behind the name of a query. -/
def isUnseenType (k : Kind) (ns : List Node) (i : Nat) : Bool :=
  match k with
  | .function _ _ => 3 ≤ i
  | .arrow _ => 2 ≤ i
  | .getterProp => i == 1
  | .bindingIdent _ _ => true
  | .call => i == 2 && isBare ns
  | .type .query => 1 ≤ i
  | _ => false

/-- A node says the same if it has the same parts where the analysis looks. -/
theorem said_of_seen {k : Kind} {ns ns' : List Node}
    (length : ns'.length = ns.length)
    (seen : ∀ i, isUnseenType k ns i = false → child ns' i = child ns i)
    (m : String) (c : Context) (s : Option Span) :
    said m c (.node k s ns') = said m c (.node k s ns) := by
  have rest (all : ∀ i, isUnseenType k ns i = false) :
      said m c (.node k s ns') = said m c (.node k s ns) := by
    have same : ns' = ns := by
      refine List.ext_getElem length fun i bound bound' => ?_
      have here := seen i (all i)
      rwa [child_of_getElem? (List.getElem?_eq_getElem bound),
        child_of_getElem? (List.getElem?_eq_getElem bound')] at here
    rw [same]
  cases k
  case function a g =>
    rw [said_node, said_node]
    simp only [outlineOf, part_toParts]
    rw [seen 0 rfl, seen 1 rfl, seen 2 rfl]
  case arrow a =>
    rw [said_node, said_node]
    simp only [outlineOf, part_toParts]
    rw [seen 0 rfl, seen 1 rfl]
  case getterProp =>
    rw [said_node, said_node]
    simp only [outlineOf, part_toParts]
    rw [seen 0 rfl, seen 2 rfl]
  case bindingIdent x o => rfl
  case call =>
    rw [said_node, said_node]
    cases bare : isBare ns with
    | false => exact rest fun i => by rw [isUnseenType, bare, Bool.and_false]
    | true =>
      obtain ⟨name, isName⟩ := Option.isSome_iff_exists.1 bare
      simp only [outlineOf, part_toParts, node_toPart]
      rw [seen 0 rfl, seen 1 rfl, isName]
  case type form =>
    cases form
    case query =>
      rw [said_node, said_node]
      simp only [outlineOf, part_toParts]
      rw [seen 0 rfl]
    all_goals exact rest fun _ => rfl
  all_goals exact rest fun _ => rfl

/-- A node asks for the type of a value whose first name stands at a span. -/
def Queries (x : String) (s : Option Span) (n : Node) : Prop :=
  ∃ t entity rest root, n = .node (.type .query) t (entity :: rest) ∧
    entityRoot entity = some root ∧ root.kind = .name x ∧ root.span = s

section Queries

variable {m x : String} {s : Option Span} {query n : Node}

/-- A query says that its first name is read. -/
theorem Queries.voiced (h : Queries x s query) : Voiced m x s query := by
  obtain ⟨t, entity, rest, root, rfl, isRoot, isName, there⟩ := h
  refine ⟨fun c frames => ?_, nofun, nofun⟩
  have told : said m c (.node (.type .query) t (entity :: rest)) =
      [.reference x s .read] := by
    rw [said_node]
    simp only [outlineOf, part_toParts, node_toPart]
    rw [child_of_getElem? (i := 0) rfl, referRoot, isRoot]
    simp only [refer, isName, there, identifier?]
  rw [told]
  exact ⟨_, List.mem_singleton_self _, rfl, rfl, rfl⟩

/-- **A query is said wherever it is attended to.** -/
theorem voiced_of_attended (queries : Queries x s query)
    (attended : Attended query n) (isRegular : regular n = true) :
    Voiced m x s n := by
  induction attended with
  | here => exact queries.voiced
  | inside there looked rest ih =>
    obtain ⟨parts, below, -⟩ := regular_node.1 isRegular
    exact voiced_node parts there looked
      (ih (below _ (List.mem_of_getElem? there)))

/-- **A query that is attended to is recorded** as a use that reads its first
name. -/
theorem read_of_attended (queries : Queries x s query)
    (attended : Attended query n) (isRegular : regular n = true) :
    ∃ r ∈ (Table.ofOutline (outline m n)).references, r.name = x ∧ r.span = s ∧
      r.kind = .read := by
  obtain ⟨u, hu, isName, there, isRead⟩ :=
    (voiced_of_attended (m := m) queries attended isRegular).said {}
      [reachingAll .root (outline m n)]
  rw [← outline_eq_said, ← Table.resolve_ofOutline] at hu
  obtain ⟨r, hr, rfl⟩ := List.mem_map.1 hu
  exact ⟨r, hr, isName, there, isRead⟩

end Queries

end NullGuard.Scope

namespace NullGuard.Transform

open NullGuard.Text (Span)
open NullGuard.Tree NullGuard.Scope

section Helpers

variable {m : String} {tree : Node} {t : Table}

/-- A declaration of a helper is a declaration. -/
theorem isDeclaration_of_introduces {n : Node} {x : String}
    {place : Option Span} (h : Introduces m x place n) :
    isDeclaration n.kind = true := by
  cases h <;> rfl

theorem span_of_isOrigin {n : Node} {origin : Origin} (h : IsOrigin n origin) :
    n.span = originSpan origin := by
  rcases h with rfl | ⟨isExported, rfl⟩ <;> rfl

/-- **Helpers with one declaration are one helper**, where no two declarations
stand at the same place. -/
theorem binding_eq_of_origin (isRegular : regular tree = true)
    (distinct : (spans tree).Nodup) (apart : DeclaredApart tree) {plan : Plan}
    (planned : Transform.plan (Table.ofOutline (outline m tree)) = .ok plan)
    {d d' : HelperDeclaration}
    (hd : d ∈ (Table.ofOutline (outline m tree)).helpers)
    (hd' : d' ∈ (Table.ofOutline (outline m tree)).helpers)
    (same : originSpan d.origin = originSpan d'.origin) :
    d.binding = d'.binding := by
  -- The two are introduced by one node, so their bindings are declared at one
  -- place.
  have own {d : HelperDeclaration}
      (hd : d ∈ (Table.ofOutline (outline m tree)).helpers) : ∃ x place, (∃ n ∈
      subnodes tree, Introduces m x place n ∧ n.span = originSpan d.origin) ∧
      ∃ b, (Table.ofOutline (outline m tree)).bindings[d.binding]? = some b ∧
      b.span = place := by
    obtain ⟨x, place, ⟨n, hn, introduces, isOrigin⟩, b, bound, -, declared⟩ :=
      introduced_of_helper isRegular hd
    obtain ⟨h, -, planHelper⟩ :=
      exists_of_forall₂ (planned_each planned).flip hd
    have once := (declared_of_planHelper planHelper).1
    rw [List.getD_eq_getElem?_getD, bound] at once
    exact ⟨x, place, ⟨n, hn, introduces, span_of_isOrigin isOrigin⟩, b, bound,
      b.span_of_once once declared⟩
  obtain ⟨_, place, ⟨n, hn, introduces, there⟩, b, bound, declared⟩ := own hd
  obtain ⟨_, place', ⟨n', hn', introduces', there'⟩, b', bound', declared'⟩ :=
    own hd'
  obtain rfl : n = n' := List.inj_on_of_nodup_map apart
    (List.mem_filter.2 ⟨hn, isDeclaration_of_introduces introduces⟩)
    (List.mem_filter.2 ⟨hn', isDeclaration_of_introduces introduces'⟩)
    (there.trans (same.trans there'.symm))
  have once := bindings_nodup (m := m) distinct
  refine (List.getElem?_inj ?_ once).1 ?_
  · rw [List.length_map]
    exact (List.getElem?_eq_some_iff.1 bound).1
  · rw [List.getElem?_map, List.getElem?_map, bound, bound', Option.map_some,
      Option.map_some, declared, declared', introduces.place_eq introduces']

end Helpers

section Performed

variable {options : Options} {text : String} {tree : Node}
  {comments : CommentMap} {transformed : Transformed}

/-- A helper has a use that is no call, and stays for it: the plan lists the
use, does not remove the declaration, and the report says that the helper is
left. -/
structure StaysFor (use : Option Span) (plan : Plan) (transformed : Transformed)
    (h : HelperPlan) : Prop where
  planned : h ∈ plan.helpers
  listed : use ∈ h.retained
  stays : h.isRemovable = false
  notRemoved : h.declaration ∉ plan.removals
  reported : ⟨h.name, h.declaredAt, h.retained⟩ ∈ transformed.report.retained

/-- **A helper stays for every use that is no call.** -/
theorem Performed.staysFor (p : Performed options tree comments transformed)
    (isRegular : regular tree = true) (distinct : (spans tree).Nodup)
    (apart : DeclaredApart tree) {d : HelperDeclaration}
    (hd : d ∈ p.analysis.table.helpers) {r : Reference}
    (hr : r ∈ p.analysis.table.references) (isRead : r.kind = .read)
    (means : p.analysis.table.resolve r.scope r.name = some d.binding) :
    ∃ h, Attributed p.analysis.table d h ∧
      StaysFor r.span p.plan transformed h := by
  obtain ⟨h, hh, planHelper⟩ :=
    exists_of_forall₂ (planned_each p.planned).flip hd
  have attributed := attributed_of_planHelper planHelper
  have listed {d' : HelperDeclaration} {h' : HelperPlan} (attributed' :
      Attributed p.analysis.table d' h') (same : d'.binding = d.binding) :
      r.span ∈ h'.retained := by
    rw [attributed'.retained, same]
    refine List.mem_map_of_mem
      (List.mem_filter.2 ⟨List.mem_filter.2 ⟨hr, beq_iff_eq.2 means⟩, ?_⟩)
    rw [isRead]
    rfl
  have stays {h' : HelperPlan} (listed : r.span ∈ h'.retained) :
      h'.isRemovable = false := by
    rw [HelperPlan.isRemovable,
      List.isEmpty_eq_false_iff.2 (List.ne_nil_of_mem listed), Bool.and_false]
  have here := listed attributed rfl
  refine ⟨h, attributed, hh, here, stays here, fun removed => ?_, ?_⟩
  · rw [Plan.removals, List.mem_eraseDups, List.mem_map] at removed
    obtain ⟨h', removed, same⟩ := removed
    obtain ⟨hh', isRemovable⟩ := List.mem_filter.1 removed
    obtain ⟨d', hd', planHelper'⟩ :=
      exists_of_forall₂ (planned_each p.planned) hh'
    have attributed' := attributed_of_planHelper planHelper'
    have oneOrigin : originSpan d'.origin = originSpan d.origin := by
      rw [← attributed'.origin, ← attributed.origin]
      exact same
    have planned := p.planned
    rw [p.table_eq] at hd hd' planned
    have one :=
      binding_eq_of_origin isRegular distinct apart planned hd' hd oneOrigin
    rw [stays (listed attributed' one)] at isRemovable
    cases isRemovable
  · rw [p.report]
    refine List.mem_map_of_mem (List.mem_filter.2 ⟨hh, ?_⟩)
    rw [stays here, List.isEmpty_eq_false_iff.2 (List.ne_nil_of_mem here)]
    rfl

/-- **A query keeps the helper that it asks for**, wherever the analysis looks.
The first name of every query that is attended to is recorded once, as a use
that reads it. If it means a helper, then a transformation that succeeds skips
the program or keeps the helper: the plan lists this use among those that are no
calls, the declaration is no removal, and the report says that the helper is
left. -/
theorem type_queries_keep_helpers (wellRead : WellRead tree)
    (apart : DeclaredApart tree) {query : Node} {x : String} {s : Option Span}
    (queries : Queries x s query) (attended : Attended query tree)
    {analysis : Analysis}
    (analyzed : analyze options.importName tree = .ok analysis) :
    ∃ r ∈ analysis.table.references, r.name = x ∧ r.span = s ∧ r.kind = .read ∧
      (∀ r' ∈ analysis.table.references, r'.span = s → r' = r) ∧
      ∀ d ∈ analysis.table.helpers, analysis.table.resolve r.scope r.name =
        some d.binding → ∀ text comments transformed,
        transformProgram options text tree comments = .ok transformed →
        (transformed.report.isSkipped = true ∧ transformed.tree = tree) ∨
        ∃ plan h, Transform.plan analysis.table = .ok plan ∧
      Attributed analysis.table d h ∧ StaysFor s plan transformed h := by
  obtain ⟨r, hr, isName, there, isRead⟩ :=
    read_of_attended (m := options.importName) queries attended wellRead.regular
  rw [← table_of_analyze analyzed] at hr
  refine ⟨r, hr, isName, there, isRead, fun r' hr' there' => ?_,
    fun d hd means text comments transformed h => ?_⟩
  · have once := references_nodup (m := options.importName) wellRead.distinct
    rw [← table_of_analyze analyzed] at once
    exact List.inj_on_of_nodup_map once hr' hr (there'.trans there.symm)
  · rcases transformProgram_ok h
      with ⟨-, rfl⟩ | ⟨analysis', analyzed', planned, -⟩ | ⟨⟨p⟩⟩
    · exact .inl ⟨rfl, rfl⟩
    · cases analyzed.symm.trans analyzed'
      obtain ⟨h, hh, -⟩ := exists_of_forall₂ (planned_each planned).flip hd
      cases hh
    · obtain rfl : p.analysis = analysis :=
        Except.ok.inj (p.analyzed.symm.trans analyzed)
      obtain ⟨h, attributed, stays⟩ :=
        p.staysFor wellRead.regular wellRead.distinct apart hd hr isRead means
      exact .inr ⟨p.plan, h, p.planned, attributed, there ▸ stays⟩

end Performed

/-- A program that asks for the type of its helper, and calls it. -/
def queriedHelperText : String :=
  "import idx from 'idx'; type T = typeof idx; idx(a, _ => _.b);"

/-- The query of `queriedHelperText`. -/
def helperQuery : Node :=
  readAt (.type .query) 32 42 [readAt (.name "idx") 39 42 [], .none]

/-- The tree of `queriedHelperText`. -/
def queriedHelper : Node :=
  readAt (.program true none) 0 61 [shortImport, readAt
    (.typeAlias false) 23 43 [readAt (.name "T") 28 29 [], .none, helperQuery],
    readAt .exprStmt 44 61 [shortCall 44 "a" "b"]]

theorem wellRead_queriedHelper : WellRead queriedHelper :=
  ⟨rfl, by decide +kernel, by decide +kernel, by decide +kernel,
    by decide +kernel⟩

/-- The call is rewritten, and the import stays for the query. -/
theorem type_queries_keep_helpers_alias :
    ∃ analysis transformed plan h, transformProgram
      {} queriedHelperText queriedHelper {} = .ok transformed ∧
      transformed.report.callsRewritten = 1 ∧ analyze "idx" queriedHelper =
        .ok analysis ∧ Transform.plan analysis.table = .ok plan ∧
        StaysFor (some ⟨39, 42⟩) plan transformed h := by
  obtain ⟨transformed, done⟩ : ∃ transformed, transformProgram
      {} queriedHelperText queriedHelper {} = .ok transformed :=
    ⟨_, rfl⟩
  obtain ⟨analysis, analyzed⟩ : ∃ analysis, analyze
      ({} : Options).importName queriedHelper = .ok analysis := ⟨_, rfl⟩
  have queries : Queries "idx" (some ⟨39, 42⟩) helperQuery :=
    ⟨_, _, _, _, rfl, rfl, rfl, rfl⟩
  have attended : Attended helperQuery queriedHelper :=
    .inside (i := 1) rfl rfl (.inside (i := 2) rfl rfl .here)
  obtain ⟨r, -, -, -, -, once, keeps⟩ :=
    type_queries_keep_helpers wellRead_queriedHelper
    (by unfold DeclaredApart; decide +kernel) queries attended analyzed
  have same : ⟨"idx", some ⟨39, 42⟩, .read, 0⟩ = r :=
    once _ (by cases analyzed; decide +kernel) rfl
  subst same
  have isHelper : ⟨0, .imported (some ⟨0, 22⟩)⟩ ∈ analysis.table.helpers := by
    cases analyzed
    decide +kernel
  have means : analysis.table.resolve 0 "idx" = some 0 := by
    cases analyzed
    decide +kernel
  rcases keeps _ isHelper means _ _ _ done
    with ⟨isSkipped, -⟩ | ⟨plan, h, planned, -, stays⟩
  · cases done
    exact absurd isSkipped (by decide +kernel)
  · refine ⟨analysis, transformed, plan, h, done, ?_, analyzed, planned, stays⟩
    cases done
    decide +kernel

end NullGuard.Transform
