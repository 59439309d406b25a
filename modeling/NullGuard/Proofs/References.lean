import NullGuard.Proofs.Spans

/-!
# How often an identifier is noted

The analysis goes through a program once: whatever a node says, it declares or
uses every identifier in it at most once (`frugal`). This counts spans, so it
says the most where identifiers have spans of their own. There all bindings and
references in the table of a program have different spans (`listed_nodup`).
-/

namespace NullGuard.Transform

open NullGuard.Text (Span)
open NullGuard.Tree NullGuard.Scope

mutual

/-- The spans of the names that an outline declares or uses. -/
def names : Outline → List (Option Span)
  | .scope _ inside => namesAll inside
  | .declaration _ s _ | .helper _ s _ _ | .reference _ s _ => [s]
  | _ => []

/-- The spans of the names that several outlines declare or use. -/
def namesAll : List Outline → List (Option Span)
  | [] => []
  | o :: os => names o ++ namesAll os

end

/-- How often outlines declare or use the identifier at a span. -/
def noted (s : Option Span) (os : List Outline) : Nat :=
  (namesAll os).count s

section Noted

variable {s : Option Span} {m : String} {k : Kind} {n : Node} {ns : List Node}
  {os os' : List Outline}

@[simp] theorem noted_nil : noted s [] = 0 :=
  rfl

@[simp] theorem noted_append :
    noted s (os ++ os') = noted s os + noted s os' := by
  have all : namesAll (os ++ os') = namesAll os ++ namesAll os' := by
    induction os with
    | nil => rfl
    | cons o os ih =>
      rw [List.cons_append, namesAll, namesAll, ih, List.append_assoc]
  rw [noted, all, List.count_append]
  rfl

theorem noted_cons (o : Outline) (os : List Outline) :
    noted s (o :: os) = noted s [o] + noted s os := by
  rw [← List.singleton_append, noted_append]

@[simp] theorem noted_scope (k : ScopeKind) :
    noted s [.scope k os] = noted s os := by
  rw [noted, namesAll, namesAll, List.append_nil, names]
  rfl

@[simp] theorem noted_helper (x : String) (t : Option Span) (kind : BindingKind)
    (origin : Origin) (os : List Outline) :
    noted s (.helper x t kind origin :: os) = [t].count s + noted s os := by
  rw [noted, namesAll, names, List.count_append]
  rfl

@[simp] theorem noted_unrecognized (t : Option Span) (os : List Outline) :
    noted s (.unrecognized t :: os) = noted s os :=
  rfl

@[simp] theorem noted_malformed (e : Rejection) (os : List Outline) :
    noted s (.malformed e :: os) = noted s os :=
  rfl

theorem noted_reference (x : String) (t : Option Span) (kind : ReferenceKind) :
    noted s [.reference x t kind] = [t].count s :=
  rfl

/-- An identifier has its own span. -/
theorem count_span_le {x : String} (isName : identifier? n.kind = some x) :
    [n.span].count s ≤ times s [n] := by
  obtain ⟨k, t, ns⟩ := n
  rw [times_identifier (k := k) isName]
  exact Nat.le_add_right ..

theorem noted_declare (n : Node) (kind : BindingKind) :
    noted s (declare n kind) ≤ times s [n] := by
  unfold declare
  split
  · exact count_span_le ‹_›
  · exact Nat.zero_le _

theorem noted_refer (n : Node) (kind : ReferenceKind) :
    noted s (refer n kind) ≤ times s [n] := by
  unfold refer
  split
  · exact count_span_le ‹_›
  · exact Nat.zero_le _

theorem noted_referRoot (n : Node) : noted s (referRoot n) ≤ times s [n] := by
  unfold referRoot
  split
  · rename_i root isRoot
    refine Nat.le_trans (noted_refer root _) ?_
    fun_induction entityRoot n with
    | case1 t left rest ih =>
      have front := times_cons (s := s) left rest
      have below : times s (left :: rest) ≤ times s
          [.node (.type .qualified) t (left :: rest)] := times_children_le
      have := ih isRoot
      omega
    | case2 x t ns =>
      cases isRoot
      exact Nat.le_refl _
    | case3 => cases isRoot
  · exact Nat.zero_le _

theorem noted_bare {n x : Node} (isBare : bareIdentifier? n = some x)
    (kind : ReferenceKind) :
    noted s (refer x kind) ≤ times s [n] := by
  have same : x = n.stripParens := by
    unfold bareIdentifier? at isBare
    split at isBare
    · exact (Option.some.inj isBare).symm
    · cases isBare
  rw [← times_stripParens, ← same]
  exact noted_refer x kind

/-- The children from a position on are the one there and those behind it. -/
theorem times_drop (ns : List Node) (i : Nat) :
    times s (ns.drop i) = times s [child ns i] + times s (ns.drop (i + 1)) := by
  rcases Nat.lt_or_ge i ns.length with bound | beyond
  · rw [List.drop_eq_getElem_cons bound, times_cons, child,
      List.getD_eq_getElem?_getD, List.getElem?_eq_getElem bound,
      Option.getD_some]
  · rw [List.drop_eq_nil_of_le beyond, List.drop_eq_nil_of_le (Nat.le_succ_of_le
      beyond), child, List.getD_eq_getElem?_getD, List.getElem?_eq_none beyond]
    rfl

/-- A node and its children use the identifiers in them at most once. -/
def Frugal (s : Option Span) (m : String) (n : Node) : Prop :=
  (∀ c, noted s (said m c n) ≤ times s [n]) ∧ ∀ n' ∈ n.children,
    ∀ c, noted s (said m c n') ≤ times s [n']

theorem noted_flatMap {f : Node → List Outline}
    (each : ∀ n ∈ ns, noted s (f n) ≤ times s [n]) :
    noted s (ns.flatMap f) ≤ times s ns := by
  induction ns with
  | nil => exact Nat.le_refl _
  | cons n ns ih =>
    have first := each n List.mem_cons_self
    have rest := ih fun n' hn' => each n' (List.mem_cons_of_mem _ hn')
    rw [times_cons, List.flatMap_cons, noted_append]
    exact Nat.add_le_add first rest

theorem noted_among (each : ∀ n ∈ ns, ∀ c, noted s (said m c n) ≤ times s [n])
    (c : Context) :
    noted s (saidAmong m c ns) ≤ times s ns :=
  noted_flatMap fun n hn => each n hn c

/-- The children of a node have at most the spans of the whole. -/
theorem times_children (n : Node) : times s n.children ≤ times s [n] := by
  obtain ⟨k, t, ns⟩ := n
  exact times_children_le

/-- One of several nodes has at most their spans. -/
theorem times_mem_le (mem : n ∈ ns) : times s [n] ≤ times s ns := by
  obtain ⟨front, back, rfl⟩ := List.append_of_mem mem
  rw [times_append, times_cons n back]
  omega

theorem times_take_le (ns : List Node) (i : Nat) :
    times s (ns.take i) ≤ times s ns := by
  have all : times s ns = times s (ns.take i) + times s (ns.drop i) := by
    rw [← times_append, List.take_append_drop]
  omega

theorem times_child_le (n : Node) (i : Nat) :
    times s [child n.children i] ≤ times s [n] := by
  refine Nat.le_trans ?_ (times_children n)
  rcases child_mem_or n.children i with mem | none
  · exact times_mem_le mem
  · rw [none]
    exact Nat.zero_le _

/-- Four children have at most the spans of the whole. -/
theorem times_four_le (k : Kind) (t : Option Span) (ns : List Node) :
    times s [child ns 0] + times s [child ns 1] + times s [child ns 2] +
      times s [child ns 3] ≤ times s [.node k t ns] := by
  have inside : times s ns ≤ times s [.node k t ns] := times_children_le
  have first : times s ns = times s [child ns 0] + times s (ns.drop 1) :=
    times_drop ns 0
  have second : times s (ns.drop 1) =
    times s [child ns 1] + times s (ns.drop 2) := times_drop ns 1
  have third : times s (ns.drop 2) =
    times s [child ns 2] + times s (ns.drop 3) := times_drop ns 2
  have fourth : times s (ns.drop 3) =
    times s [child ns 3] + times s (ns.drop 4) := times_drop ns 3
  omega

/-- A child and those behind it have at most the spans of the whole. -/
theorem times_first_le (k : Kind) (t : Option Span) (ns : List Node) :
    times s [child ns 0] + times s (ns.drop 1) ≤ times s [.node k t ns] := by
  have inside : times s ns ≤ times s [.node k t ns] := times_children_le
  have first : times s ns = times s [child ns 0] + times s (ns.drop 1) :=
    times_drop ns 0
  omega

namespace Frugal

variable {c : Context}

theorem missing : Frugal s m .none :=
  ⟨fun _ => Nat.le_refl _, nofun⟩

theorem child (each : ∀ n ∈ ns, Frugal s m n) (i : Nat) :
    Frugal s m (child ns i) := by
  rcases child_mem_or ns i with mem | none
  · exact each _ mem
  · rw [none]
    exact missing

/-- What the parts of a list say. -/
theorem list (h : Frugal s m n) (c : Context) :
    noted s (outlines (toPart m n).parts c) ≤ times s [n] := by
  rw [parts_toPart, outlines_toParts]
  exact Nat.le_trans (noted_among h.2 c) (times_children n)

theorem body (h : Frugal s m n) (c : Context) :
    noted s (bodyOutline (toPart m n) c) ≤ times s [n] := by
  unfold bodyOutline
  split
  · exact h.list c
  · exact h.1 c

end Frugal

theorem noted_importedNames (n : Node) :
    noted s (importedNames n.children) ≤ times s [n] := by
  refine Nat.le_trans (noted_flatMap fun specifier _ => ?_) (times_children n)
  have front := times_take_le (s := s) specifier.children 1
  have inSpecifier := times_children (s := s) specifier
  exact Nat.le_trans (noted_flatMap fun here _ => noted_declare here _)
    (Nat.le_trans front inSpecifier)

/-- An import notes names of its specifiers only. -/
theorem noted_importOutline (b : Bool) (t : Option Span)
    (specifiers source : Node) :
    noted s (importOutline m b t specifiers source) ≤ times s [specifiers] := by
  have names := noted_importedNames (s := s) specifiers
  rcases importOutline_cases m b t specifiers source with
    ⟨-, told⟩ | ⟨-, ⟨here, x, checked, isName, told⟩ | told | ⟨_, -, told⟩⟩
  · rwa [told]
  · obtain ⟨q, hq, hhere⟩ := mem_of_checkImport checked
    have own := count_span_le (s := s) isName
    have inSpecifier := times_mem_le (s := s) hhere
    have inList := times_mem_le (s := s) hq
    have specifier := times_children (s := s) q
    have list := times_children (s := s) specifiers
    rw [told, noted_helper, noted_nil]
    omega
  · rw [told]
    exact Nat.zero_le _
  · rwa [told, noted_malformed]

/-- An export notes names of its specifiers only. -/
theorem noted_exportOutline (specifiers source : Node) :
    noted s (exportOutline specifiers source) ≤ times s [specifiers] := by
  unfold exportOutline
  split
  · refine Nat.le_trans (noted_flatMap fun specifier _ => ?_)
      (times_children specifiers)
    split
    · rename_i here rest _ same
      have front := times_child_le (s := s) specifier 0
      rw [same] at front
      exact Nat.le_trans (noted_refer here .read) front
    · exact Nat.zero_le _
  · exact Nat.zero_le _

section Outlines

variable {p q : Node} {c : Context}

/-- A declarator notes the names of its pattern and of its value. The helper is
noted in place of its pattern. -/
theorem noted_declaratorOutline (t : Option Span) (pattern : Frugal s m p)
    (value : Frugal s m q) :
    noted s (declaratorOutline m t (toPart m p) (toPart m q) c) ≤
      times s [p] + times s [q] := by
  have names := pattern.1 (c.declaring c.varKind)
  have start := value.1 c
  simp only [declaratorOutline, node_toPart, outline_toPart]
  split
  · split
    · rename_i x o isName
      have own : [p.span].count s ≤ times s [p] :=
        count_span_le (by rw [isName]; rfl)
      rw [noted_helper]
      omega
    · rw [noted_unrecognized, noted_append]
      omega
  · rw [noted_append]
    omega

/-- A declaration notes its name and what is behind it. -/
theorem noted_named (kind : BindingKind) {os : List Outline}
    (behind : noted s os ≤ times s [q]) :
    noted s (declare p kind ++ os) ≤ times s [p] + times s [q] := by
  have name := noted_declare (s := s) p kind
  rw [noted_append]
  omega

theorem noted_ownScope (scope : ScopeKind) (kind : BindingKind)
    (rest : Frugal s m q) :
    noted s (ownScope (toPart m p) scope kind (toPart m q) c) ≤
      times s [p] + times s [q] := by
  simp only [ownScope, node_toPart, outline_toPart]
  split
  · exact Nat.le_trans (rest.1 c) (Nat.le_add_left ..)
  · rw [noted_scope]
    exact noted_named kind (rest.1 c.inScope)

/-- A default export notes the name of its function or class, and what is behind
it. -/
theorem noted_defaultExport (h : Frugal s m p) (kind : BindingKind) :
    noted s (declare (child p.children 0) kind ++
      said m c (child p.children 1)) ≤ times s [p] := by
  have behind : noted s (said m c (child p.children 1)) ≤
      times s [child p.children 1] := by
    rcases child_mem_or p.children 1 with mem | none
    · exact h.2 _ mem c
    · rw [none]
      exact Nat.zero_le _
  have names := noted_named (p := child p.children 0) kind behind
  obtain ⟨k, t, ns⟩ := p
  have inside := times_four_le (s := s) k t ns
  exact Nat.le_trans names (by rw [Node.children] at *; omega)

/-- A function notes what its decorators, its parameters and its body note. -/
theorem noted_functionOutline {decorators parameters body : Part} {i j l : Nat}
    (first : noted s (outlines decorators.parts c.inScope) ≤ i)
    (second : noted s
      (outlines parameters.parts (c.inScope.declaring .param)) ≤ j)
    (third : noted s (bodyOutline body c.inScope) ≤ l) :
    noted s (functionOutline decorators parameters body c) ≤ i + j + l := by
  rw [functionOutline, noted_scope, noted_append, noted_append]
  omega

theorem noted_headOutline (h : Frugal s m p) :
    noted s (headOutline (toPart m p) c) ≤ times s [p] := by
  unfold headOutline
  split
  · exact h.1 c
  · exact h.1 c
  · exact h.1 c.writing

theorem noted_assignOutline (target : Frugal s m p) (value : Frugal s m q) :
    noted s (assignOutline (toPart m p) (toPart m q) c) ≤
      times s [p] + times s [q] := by
  have plain := target.1 c
  have pattern := target.1 c.writing
  have start := value.1 c
  simp only [assignOutline, node_toPart, outline_toPart, noted_append]
  split
  · rename_i x isBare
    have written := noted_bare (s := s) isBare .write
    omega
  · split <;> omega

theorem noted_elementNameOutline (h : Frugal s m p) :
    noted s (elementNameOutline (toPart m p) c) ≤ times s [p] := by
  have read := noted_refer (s := s) p .read
  unfold elementNameOutline
  rw [node_toPart, outline_toPart]
  split
  · split
    · split
      · exact Nat.zero_le _
      · exact read
    · exact read
  · exact h.1 c

end Outlines

/-- Functions, and the members of classes and objects that are functions. -/
theorem noted_ofFunction {t : Option Span} {c : Context}
    (each : ∀ n ∈ ns, Frugal s m n)
    (functions : (∃ a b, k = .function a b) ∨ (∃ a, k = .arrow a) ∨
      (∃ a, k = .constructor a) ∨ k = .getterProp ∨ k = .setterProp) :
    noted s (said m c (.node k t ns)) ≤ times s [.node k t ns] := by
  have part (i : Nat) : Frugal s m (child ns i) := .child each i
  have whole (i : Nat) := (part i).1 c
  have list (i : Nat) := (part i).list (c.inScope.declaring .param)
  have body (i : Nat) := (part i).body c.inScope
  have none (c : Context) :
      noted s (outlines Scope.Part.none.parts c) ≤ 0 := Nat.le_refl _
  have inside := times_four_le (s := s) k t ns
  rw [said_node]
  obtain ⟨a, b, rfl⟩ | ⟨a, rfl⟩ | ⟨a, rfl⟩ | rfl | rfl := functions
  · have all :=
      noted_functionOutline ((part 1).list c.inScope) (list 0) (body 2)
    simp only [outlineOf, part_toParts]
    omega
  · have all := noted_functionOutline (none _) (list 0) (body 1)
    simp only [outlineOf, part_toParts]
    omega
  · have key := whole 0
    have all := noted_functionOutline (none _) (list 1) (body 2)
    simp only [outlineOf, part_toParts, outline_toPart, noted_append]
    omega
  · have key := whole 0
    have all := noted_functionOutline (none _) (none _) (body 2)
    simp only [outlineOf, part_toParts, outline_toPart, noted_append]
    omega
  · have key := whole 0
    have this := (part 1).1 (c.inScope.declaring .param)
    have parameter := (part 2).1 (c.inScope.declaring .param)
    have statements := body 3
    simp only [outlineOf, part_toParts, outline_toPart, noted_scope,
      noted_append]
    omega

/-- Declarations, and the expressions that name themselves. -/
theorem noted_ofDeclaration {t : Option Span} {c : Context}
    (each : ∀ n ∈ ns, Frugal s m n)
    (declarations : (∃ b, k = .fnDecl b) ∨ (∃ b, k = .classDecl b) ∨
      (∃ a b, k = .enumDecl a b) ∨ (∃ a b, k = .moduleDecl a b) ∨
      k = .fnExpr ∨ k = .classExpr) :
    noted s (said m c (.node k t ns)) ≤ times s [.node k t ns] := by
  have rest : Frugal s m (child ns 1) := .child each 1
  have inside := times_four_le (s := s) k t ns
  have two : times s [child ns 0] + times s [child ns 1] ≤
      times s [.node k t ns] := by omega
  rw [said_node]
  obtain ⟨b, rfl⟩ | ⟨b, rfl⟩ | ⟨a, b, rfl⟩ | ⟨a, b, rfl⟩ | rfl | rfl :=
    declarations
  all_goals
    simp only [outlineOf, part_toParts, node_toPart, outline_toPart]
  · exact Nat.le_trans (noted_named .function (rest.1 c)) two
  · exact Nat.le_trans (noted_named .class (rest.1 c)) two
  · exact Nat.le_trans (noted_named .lexical (rest.1 c)) two
  · refine Nat.le_trans (noted_named .lexical ?_) two
    rw [noted_scope]
    exact rest.1 c.inScope
  · exact Nat.le_trans (noted_ownScope .namedFunction .function rest) two
  · exact Nat.le_trans (noted_ownScope .class .class rest) two

/-- What opens a scope for what is in it, functions apart. -/
theorem noted_ofScope {t : Option Span} {c : Context}
    (each : ∀ n ∈ ns, Frugal s m n)
    (scopes : k = .staticBlock ∨ k = .block ∨ k = .forStmt ∨ k = .catchClause ∨
      k = .forIn ∨ (∃ a, k = .forOf a) ∨ k = .switchStmt) :
    noted s (said m c (.node k t ns)) ≤ times s [.node k t ns] := by
  have part (i : Nat) : Frugal s m (child ns i) := .child each i
  have first := times_first_le (s := s) k t ns
  have inside := times_four_le (s := s) k t ns
  have all : noted s (saidAmong m c.inScope ns) ≤ times s [.node k t ns] :=
    Nat.le_trans (noted_among (fun n hn => (each n hn).1) _) times_children_le
  have loop : noted s (headOutline (toPart m (child ns 0)) c.inScope) +
      noted s (saidAmong m c.inScope (ns.drop 1)) ≤ times s [.node k t ns] := by
    have head := noted_headOutline (c := c.inScope) (part 0)
    have rest := noted_among
      (fun n hn => (each n (List.mem_of_mem_drop (i := 1) hn)).1) c.inScope
    omega
  rw [said_node]
  obtain rfl | rfl | rfl | rfl | rfl | ⟨a, rfl⟩ | rfl := scopes
  all_goals
    simp only [outlineOf, part_toParts, drop_toParts, outlines_toParts,
      outline_toPart, noted_scope, noted_append]
  · have statements := (part 0).body c.inScope
    omega
  · exact all
  · exact all
  · have parameter := (part 0).1 (c.inScope.declaring .lexical)
    have statements := (part 1).body c.inScope
    omega
  · exact loop
  · exact loop
  · have value := (part 0).1 c
    have cases := (part 1).1 c.inScope
    omega

/-- **A node uses every identifier in it at most once**, if its children do. -/
theorem frugal_node {t : Option Span} (each : ∀ n ∈ ns, Frugal s m n) :
    Frugal s m (.node k t ns) := by
  have part (i : Nat) : Frugal s m (child ns i) := .child each i
  have inside : times s ns ≤ times s [.node k t ns] := times_children_le
  have first := times_first_le (s := s) k t ns
  have four := times_four_le (s := s) k t ns
  have all (c : Context) : noted s (saidAmong m c ns) ≤ times s ns :=
    noted_among (fun n hn => (each n hn).1) c
  have itself {x : String} (isName : identifier? k = some x) :
      [t].count s ≤ times s [.node k t ns] :=
    count_span_le (n := .node k t ns) isName
  refine ⟨fun c => ?_, fun n hn => (each n hn).1⟩
  cases k
  case function | arrow | constructor | getterProp | setterProp =>
    exact noted_ofFunction each (by simp)
  case fnDecl | classDecl | enumDecl | moduleDecl | fnExpr | classExpr =>
    exact noted_ofDeclaration each (by simp)
  case staticBlock | block | forStmt | catchClause | forIn | forOf
    | switchStmt =>
    exact noted_ofScope each (by simp)
  all_goals rw [said_node]
  case importDecl b =>
    have names := noted_importOutline (s := s) (m := m) b t (child ns 0)
      (child ns 1)
    simp only [outlineOf, part_toParts, node_toPart]
    omega
  case exportNamed =>
    have names := noted_exportOutline (s := s) (child ns 0) (child ns 1)
    simp only [outlineOf, part_toParts, node_toPart]
    omega
  case varDecl word isDeclared =>
    cases word <;> simp only [outlineOf, outlines_toParts] <;>
      exact Nat.le_trans (all _) inside
  case declarator b =>
    have names := noted_declaratorOutline (c := c) t (part 0) (part 1)
    simp only [outlineOf, part_toParts]
    omega
  case exportDefaultDecl =>
    have names := noted_defaultExport (c := c) (part 0)
    have whole := all c
    simp only [outlineOf, part_toParts, node_toPart, parts_toPart,
      outlines_toParts, outline_toPart]
    split
    · have declared := names .function
      omega
    · have declared := names .class
      omega
    · omega
  case importEquals =>
    have names := noted_named (s := s) (p := child ns 0) .lexical
      (noted_referRoot (child ns 1))
    simp only [outlineOf, part_toParts, node_toPart]
    omega
  case bindingIdent x o =>
    rw [outlineOf]
    split
    · exact itself rfl
    · exact itself rfl
    · exact Nat.zero_le _
  case ident x | shorthand x => exact itself rfl
  case call =>
    have arguments := (part 1).1 c
    have whole := all c
    simp only [outlineOf, part_toParts, outlines_toParts, node_toPart,
      outline_toPart]
    split
    · rename_i x isBare
      have callee := noted_bare (s := s) isBare .callee
      rw [noted_append]
      omega
    · omega
  case assign =>
    have sides := noted_assignOutline (c := c) (part 0) (part 1)
    simp only [outlineOf, part_toParts]
    omega
  case update =>
    have whole := all c
    simp only [outlineOf, part_toParts, outlines_toParts, node_toPart]
    split
    · rename_i x isBare
      have written := noted_bare (s := s) isBare .write
      omega
    · omega
  case markup form =>
    have name := noted_elementNameOutline (c := c) (part 0)
    cases form
    case name x => exact itself rfl
    case opening =>
      have rest := noted_among
        (fun n hn => (each n (List.mem_of_mem_drop (i := 1) hn)).1) c
      simp only [outlineOf, part_toParts, drop_toParts, outlines_toParts,
        noted_append]
      omega
    case closing =>
      simp only [outlineOf, part_toParts]
      omega
    all_goals
      simp only [outlineOf, outlines_toParts]
      exact Nat.le_trans (all _) inside
  case type form =>
    cases form
    case query =>
      have root := noted_referRoot (s := s) (child ns 0)
      simp only [outlineOf, part_toParts, node_toPart]
      omega
    all_goals
      simp only [outlineOf, outlines_toParts]
      exact Nat.le_trans (all _) inside
  all_goals
    simp only [outlineOf, outlines_toParts]
    exact Nat.le_trans (all _) inside

/-- Every identifier of a program is used at most once. -/
theorem frugal (s : Option Span) (m : String) (n : Node) : Frugal s m n := by
  induction n using Node.induct with
  | step k t ns ih => exact frugal_node ih

/-- The spans of the bindings and references of a table. -/
def listed (t : Table) : List (Option Span) :=
  t.bindings.map Binding.span ++ t.references.map Reference.span

theorem listed_declare (t : Table) (here : List Nat) (x : String)
    (span : Option Span) (kind : BindingKind) :
    (listed (t.declare here x span kind).2).count s ≤ (listed t).count s +
      [span].count s := by
  cases found : t.bindingIn? x (t.targetScope here kind) with
  | some id =>
    rw [Table.declare_of_some found]
    have same : (t.bindings.modify id fun b =>
        { b with redeclarations := b.redeclarations ++ [span] }).map
        Binding.span = t.bindings.map Binding.span := by
      rw [List.modify_eq_set_getElem?]
      refine List.ext_getElem? fun i => ?_
      rw [← List.modify_eq_set_getElem?, List.getElem?_map, List.getElem?_map,
        List.getElem?_modify]
      cases t.bindings[i]? with
      | none => rfl
      | some b => by_cases here : id = i <;> simp [here]
    rw [listed, same]
    exact Nat.le_add_right ..
  | none =>
    rw [Table.declare_of_none found]
    simp only [listed, List.map_append, List.map_cons, List.map_nil,
      List.count_append]
    omega

/-- A walk lists every name of an outline at most once. -/
theorem listed_addAll (t : Table) (here : List Nat) (os : List Outline) :
    (listed (t.addAll here os)).count s ≤ (listed t).count s + noted s os := by
  induction os using outlines_induct generalizing t here with
  | nil => exact Nat.le_refl _
  | leaf o os isLeaf ih =>
    have one : (listed (t.add here o)).count s ≤ (listed t).count s +
        noted s [o] := by
      cases o with
      | scope k inside => cases isLeaf
      | declaration x span kind => exact listed_declare t here x span kind
      | helper x span kind origin => exact listed_declare t here x span kind
      | reference x span kind =>
        rw [noted_reference]
        simp only [Table.add, listed, List.map_append, List.map_cons,
          List.map_nil, List.count_append]
        omega
      | _ => exact Nat.le_add_right ..
    have rest := ih (t.add here o) here
    rw [Table.addAll, noted_cons]
    omega
  | scope k inside os inner ih =>
    have within := inner (t.enter here k) (t.scopes.length :: here)
    have rest :=
      ih ((t.enter here k).addAll (t.scopes.length :: here) inside) here
    have same : listed (t.enter here k) = listed t := rfl
    rw [Table.addAll, Table.add_scope, noted_cons, noted_scope]
    rw [same] at within
    omega

/-- The table of a program lists every span at most as often as identifiers have
it. -/
theorem listed_le_times (s : Option Span) (m : String) (n : Node) :
    (listed (Table.ofOutline (outline m n))).count s ≤ times s [n] := by
  have walk := listed_addAll (s := s) {} [0] (outline m n)
  have start : (listed {}).count s = 0 := rfl
  rw [start, Nat.zero_add] at walk
  exact Nat.le_trans walk ((frugal s m n).1 {})

/-- **Where no identifier stands twice, no span is declared or referred to
twice**, and nothing is that is not there. -/
theorem listed_nodup (distinct : (spans n).Nodup) :
    (listed (Table.ofOutline (outline m n))).Nodup ∧
    ∀ s ∈ listed (Table.ofOutline (outline m n)), s ∈ spans n := by
  have bound (s : Option Span) :
      (listed (Table.ofOutline (outline m n))).count s ≤ (spans n).count s := by
    have whole := listed_le_times s m n
    rwa [times, spansAmong_single] at whole
  refine ⟨List.nodup_iff_count_le_one.2 fun s => ?_, fun s hs => ?_⟩
  · exact Nat.le_trans (bound s) (List.nodup_iff_count_le_one.1 distinct s)
  · exact List.count_pos_iff.1
      (Nat.lt_of_lt_of_le (List.count_pos_iff.2 hs) (bound s))

/-- No span is referred to twice. -/
theorem references_nodup (distinct : (spans n).Nodup) :
    ((Table.ofOutline (outline m n)).references.map Reference.span).Nodup :=
  (listed_nodup distinct).1.of_append_right

/-- No span is the first one of two bindings. -/
theorem bindings_nodup (distinct : (spans n).Nodup) :
    ((Table.ofOutline (outline m n)).bindings.map Binding.span).Nodup :=
  (listed_nodup distinct).1.of_append_left

/-- Only identifiers of the program are referred to. -/
theorem span_mem_of_reference {r : Reference} (distinct : (spans n).Nodup)
    (hr : r ∈ (Table.ofOutline (outline m n)).references) : r.span ∈ spans n :=
  (listed_nodup distinct).2 _ (List.mem_append_right _ (List.mem_map_of_mem hr))

end Noted

end NullGuard.Transform
