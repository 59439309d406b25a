import NullGuard.Proofs.Redeclarations
import NullGuard.Proofs.References

/-!
# Declarations in the order of the text

The analysis visits a script in its own order, with the condition of a `do` loop
in front and decorators beside what they decorate. The declarations that it
comes by are in the order of the text all the same. What is visited out of order
are expressions, and no declaration comes out of an expression
(`reaching_expression`).

An outline is in order if in each of its frames every name is declared in front
of those that follow (`InOrder`). Two outlines that are in order are in order
one behind the other if what comes out of the first stands in front of what
comes out of the second (`InOrder.append`); inside of their scopes they have
nothing to do with each other. So a node says things in order if its children do
and those that let something out stand in the order of the text
(`inOrder_node`), and by induction a script does (`inOrder_outline`). Each
binding then lists its declarations in the order of the text
(`places_ascending`).
-/

namespace NullGuard.Scope

open NullGuard.Text (Span)
open NullGuard.Tree
open NullGuard.Transform

/-- Spans that start in front of those behind them. -/
def Ascending (spans : List (Option Span)) : Prop :=
  spans.Pairwise fun s s' => startOf s < startOf s'

/-- Where the names are declared that come out of outlines. -/
def comesOut (os : List Outline) : List (Option Span) :=
  (reachingAll .root os).map Declared.span

/-- What comes out of some outlines stands in front of what comes out of
others. -/
def Precedes (os os' : List Outline) : Prop :=
  ∀ s ∈ comesOut os, ∀ s' ∈ comesOut os', startOf s < startOf s'

/-- In each frame names are declared in the order of the text. -/
structure InOrder (os : List Outline) : Prop where
  out : Ascending (comesOut os)
  within : ∀ f ∈ framesAll os, Ascending (f.map Declared.span)

/-- Outlines in order of which nothing comes out. -/
structure Contained (os : List Outline) : Prop where
  inOrder : InOrder os
  nothing : comesOut os = []

section Outlines

variable {o : Outline} {os os' os'' : List Outline}

/-- A reach that lets out more further in does so behind a scope. -/
theorem Reach.admits_through {r r' : Reach}
    (wider : ∀ k, r.admits k = true → r'.admits k = true) (scope : ScopeKind)
    (k : BindingKind) (h : (r.through scope).admits k = true) :
    (r'.through scope).admits k = true := by
  cases k with
  | var =>
    obtain ⟨vars, passes⟩ := Bool.and_eq_true_iff.1 h
    exact Bool.and_eq_true_iff.2 ⟨wider .var vars, passes⟩
  | imported => exact wider .imported h
  | _ => cases h

/-- A narrower reach lets out less, in the same order. -/
theorem reachingAll_sublist {r r' : Reach}
    (wider : ∀ k, r.admits k = true → r'.admits k = true) (os : List Outline) :
    (reachingAll r os).Sublist (reachingAll r' os) := by
  induction os using outlines_induct generalizing r r' with
  | nil => exact .refl _
  | leaf o os isLeaf ih =>
    refine List.Sublist.append ?_ (ih wider)
    cases o with
    | scope k inside => cases isLeaf
    | declaration x s kind | helper x s kind origin =>
      rw [reaching, reaching]
      cases admits : r.admits kind with
      | true => rw [wider kind admits]
      | false => exact List.nil_sublist _
    | _ => exact .refl _
  | scope k inside os inner ih =>
    exact (inner (Reach.admits_through wider k)).append (ih wider)

/-- Whatever a reach lets out comes out. -/
theorem sublist_comesOut (r : Reach) (os : List Outline) :
    ((reachingAll r os).map Declared.span).Sublist (comesOut os) :=
  (reachingAll_sublist (fun k _ => by cases k <;> rfl) os).map _

@[simp] theorem comesOut_append (os os' : List Outline) :
    comesOut (os ++ os') = comesOut os ++ comesOut os' := by
  rw [comesOut, reachingAll_append, List.map_append]
  rfl

theorem sublist_comesOut_scope (k : ScopeKind) (os : List Outline) :
    (comesOut [.scope k os]).Sublist (comesOut os) := by
  rw [comesOut, reachingAll, reachingAll, List.append_nil, reaching]
  exact sublist_comesOut _ os

theorem mem_comesOut_flatMap {α : Type} {l : List α} {f : α → List Outline}
    {s : Option Span} :
    s ∈ comesOut (l.flatMap f) ↔ ∃ a ∈ l, s ∈ comesOut (f a) := by
  induction l with
  | nil => exact iff_of_false nofun nofun
  | cons a l ih =>
    simp only [List.flatMap_cons, comesOut_append, List.mem_append, ih,
      List.mem_cons, exists_eq_or_imp]

theorem framesAll_append (os os' : List Outline) :
    framesAll (os ++ os') = framesAll os ++ framesAll os' := by
  induction os with
  | nil => rfl
  | cons o os ih =>
    rw [List.cons_append, framesAll, ih, framesAll, List.append_assoc]

theorem Precedes.append_right (h : Precedes os os') (h' : Precedes os os'') :
    Precedes os (os' ++ os'') := by
  intro s hs s' hs'
  rw [comesOut_append, List.mem_append] at hs'
  exact hs'.elim (h s hs s') (h' s hs s')

theorem inOrder_nil : InOrder [] :=
  ⟨List.Pairwise.nil, nofun⟩

theorem inOrder_leaf (isLeaf : o.isLeaf = true) : InOrder [o] := by
  cases o with
  | scope k inside => cases isLeaf
  | declaration x s kind | helper x s kind origin =>
    exact ⟨by cases kind <;> exact List.pairwise_singleton _ _, nofun⟩
  | _ => exact ⟨List.Pairwise.nil, nofun⟩

/-- **Outlines in order stay so one behind the other** if what comes out of them
is. -/
theorem InOrder.append (h : InOrder os) (h' : InOrder os')
    (precedes : Precedes os os') : InOrder (os ++ os') := by
  constructor
  · rw [comesOut_append]
    exact List.pairwise_append.2 ⟨h.out, h'.out, precedes⟩
  · intro f hf
    rw [framesAll_append, List.mem_append] at hf
    exact hf.elim (h.within f) (h'.within f)

theorem Contained.append (h : Contained os) (h' : InOrder os') :
    InOrder (os ++ os') := by
  refine h.inOrder.append h' fun s hs => ?_
  rw [h.nothing] at hs
  cases hs

theorem InOrder.append_contained (h : InOrder os) (h' : Contained os') :
    InOrder (os ++ os') := by
  refine h.append h'.inOrder fun s _ s' hs' => ?_
  rw [h'.nothing] at hs'
  cases hs'

/-- **A scope keeps the order**: what comes out of it and what falls into it are
parts of what comes out of its inside. -/
theorem InOrder.scope (h : InOrder os) (k : ScopeKind) :
    InOrder [.scope k os] := by
  constructor
  · exact h.out.sublist (sublist_comesOut_scope k os)
  · intro f hf
    rw [framesAll, framesAll, List.append_nil, frames, List.mem_cons] at hf
    rcases hf with rfl | hf
    · exact h.out.sublist (sublist_comesOut _ os)
    · exact h.within f hf

theorem inOrder_declare (n : Node) (kind : BindingKind) :
    InOrder (declare n kind) := by
  unfold declare
  split
  · exact inOrder_leaf rfl
  · exact inOrder_nil

/-- A use declares nothing. -/
theorem contained_refer (n : Node) (kind : ReferenceKind) :
    Contained (refer n kind) := by
  unfold refer
  split
  · exact ⟨inOrder_leaf rfl, rfl⟩
  · exact ⟨inOrder_nil, rfl⟩

/-- What comes out of outlines is declared in them. -/
theorem noted_of_comesOut {s : Option Span} (hs : s ∈ comesOut os) :
    0 < noted s os := by
  induction os using outlines_induct with
  | nil => cases hs
  | leaf o os isLeaf ih =>
    rw [← List.singleton_append, comesOut_append, List.mem_append] at hs
    rw [noted_cons]
    rcases hs with hs | hs
    · refine Nat.lt_of_lt_of_le (List.count_pos_iff.2 ?_) (Nat.le_add_right _ _)
      cases o with
      | scope k inside => cases isLeaf
      | declaration x t kind | helper x t kind origin => cases kind <;> exact hs
      | _ => cases hs
    · exact Nat.lt_of_lt_of_le (ih hs) (Nat.le_add_left _ _)
  | scope k inside os inner ih =>
    rw [← List.singleton_append, comesOut_append, List.mem_append] at hs
    rw [noted_cons, noted_scope]
    rcases hs with hs | hs
    · exact Nat.lt_of_lt_of_le (inner
        ((sublist_comesOut_scope k inside).subset hs)) (Nat.le_add_right _ _)
    · exact Nat.lt_of_lt_of_le (ih hs) (Nat.le_add_left _ _)

end Outlines

/-- Whether the identifiers of a node stand in front of those of another. -/
def standsBefore (a b : Node) : Bool :=
  (spans a).all fun s => (spans b).all fun s' => decide (startOf s < startOf s')

/-- Whether a node stands in front of another, or one of the two is an
operand. -/
def comesFirst (a b : Node) : Bool :=
  isOperand a || isOperand b || standsBefore a b

/-- Whether the children of a node, save operands, stand in the order of the
text. What follows the name of a declared function or class, and what decorates
a function, are operands. -/
def orderedAt (k : Kind) (ns : List Node) : Bool :=
  decide (ns.Pairwise fun a b => comesFirst a b = true) &&
    match k with
    | .fnDecl _ | .classDecl _ | .function _ _ => isOperand (child ns 1)
    | _ => true

/-- Whether the nodes of a script stand in the order of the text, as they do in
every script that was read. -/
def isOrdered (n : Node) : Bool :=
  (subnodes n).all fun m => orderedAt m.kind m.children

/-- Outlines in order that let out names of a node only, and nothing if it is an
operand. -/
structure OutOf (n : Node) (os : List Outline) : Prop where
  inOrder : InOrder os
  own : ∀ s ∈ comesOut os, s ∈ spans n
  nothing : isOperand n = true → comesOut os = []

/-- A script, or a piece of one, that stands inside of a program and is in the
order of the text. -/
structure OrderedPiece (n : Node) : Prop where
  inside : PlainInside n
  script : isScript n = true
  ordered : isOrdered n = true

section Nodes

variable {m : String} {k : Kind} {s : Option Span} {n a b : Node}
  {ns : List Node} {c : Context} {os os' : List Outline}

theorem isOrdered_node :
    isOrdered (.node k s ns) = true ↔ orderedAt k ns = true ∧ ∀ n ∈ ns,
      isOrdered n = true :=
  all_subnodes_node (p := orderedAt)

theorem pairwise_of_orderedAt (here : orderedAt k ns = true) :
    ns.Pairwise fun a b => comesFirst a b = true :=
  of_decide_eq_true (Bool.and_eq_true_iff.1 here).1

theorem orderedPiece_none : OrderedPiece .none :=
  ⟨⟨rfl, rfl, rfl, rfl⟩, rfl, rfl⟩

theorem OrderedPiece.mem (h : OrderedPiece (.node k s ns)) (hn : n ∈ ns) :
    OrderedPiece n :=
  ⟨h.inside.child hn, (isScript_node.1 h.script).2 n hn,
    (isOrdered_node.1 h.ordered).2 n hn⟩

theorem OrderedPiece.child (h : OrderedPiece (.node k s ns)) (i : Nat) :
    OrderedPiece (child ns i) := by
  rcases child_mem_or ns i with mem | missing
  · exact h.mem mem
  · rw [missing]
    exact orderedPiece_none

/-- Children at two positions are in order. -/
theorem comesFirst_child
    (ordered : ns.Pairwise fun a b => comesFirst a b = true) {i j : Nat}
    (before : i < j) :
    comesFirst (child ns i) (child ns j) = true := by
  rcases Nat.lt_or_ge j ns.length with bound | beyond
  · have there {i : Nat} (bound : i < ns.length) : child ns i = ns[i] := by
      rw [child, List.getD_eq_getElem?_getD, List.getElem?_eq_getElem bound,
        Option.getD_some]
    rw [there bound, there (Nat.lt_trans before bound)]
    exact List.pairwise_iff_getElem.1 ordered i j
      (Nat.lt_trans before bound) bound before
  · have missing : child ns j = .none := by
      rw [child, List.getD_eq_getElem?_getD, List.getElem?_eq_none beyond,
        Option.getD_none]
    have silent : isOperand Node.none = true := rfl
    rw [missing, comesFirst, silent, Bool.or_true]
    rfl

/-- The first child is in order with those behind it. -/
theorem comesFirst_behind
    (ordered : ns.Pairwise fun a b => comesFirst a b = true)
    (hn : n ∈ ns.drop 1) :
    comesFirst (child ns 0) n = true := by
  cases ns with
  | nil => cases hn
  | cons n' ns => exact List.rel_of_pairwise_cons ordered hn

theorem OutOf.contained (h : OutOf n os) (operand : isOperand n = true) :
    Contained os :=
  ⟨h.inOrder, h.nothing operand⟩

/-- What comes out of a node in front comes out in front. -/
theorem OutOf.precedes (h : OutOf a os) (h' : OutOf b os')
    (first : comesFirst a b = true) : Precedes os os' := by
  rw [comesFirst, Bool.or_eq_true, Bool.or_eq_true] at first
  intro s hs s' hs'
  rcases first with (operand | operand) | before
  · rw [h.nothing operand] at hs
    cases hs
  · rw [h'.nothing operand] at hs'
    cases hs'
  · exact of_decide_eq_true (List.all_eq_true.1
      (List.all_eq_true.1 before s (h.own s hs)) s' (h'.own s' hs'))

theorem OutOf.append (h : OutOf a os) (h' : OutOf b os')
    (first : comesFirst a b = true) : InOrder (os ++ os') :=
  h.inOrder.append h'.inOrder (h.precedes h' first)

theorem OutOf.scope (h : OutOf n os) (k : ScopeKind) :
    OutOf n [.scope k os] where
  inOrder := h.inOrder.scope k
  own s hs := h.own s ((sublist_comesOut_scope k os).subset hs)
  nothing operand :=
    List.sublist_nil.1 (h.nothing operand ▸ sublist_comesOut_scope k os)

/-- What several nodes say one after the other is in order if they are. -/
theorem inOrder_flatMap {f : Node → List Outline}
    (each : ∀ n ∈ ns, OutOf n (f n))
    (ordered : ns.Pairwise fun a b => comesFirst a b = true) :
    InOrder (ns.flatMap f) := by
  induction ns with
  | nil => exact inOrder_nil
  | cons n ns ih =>
    obtain ⟨first, rest⟩ := List.pairwise_cons.1 ordered
    have here := each n List.mem_cons_self
    have behind n' (hn' : n' ∈ ns) := each n' (List.mem_cons_of_mem _ hn')
    rw [List.flatMap_cons]
    refine here.inOrder.append (ih behind rest) fun s hs s' hs' => ?_
    obtain ⟨n', hn', hs'⟩ := mem_comesOut_flatMap.1 hs'
    exact here.precedes (behind n' hn') (first n' hn') s hs s' hs'

theorem own_of_noted (le : ∀ s, noted s os ≤ times s [n]) :
    ∀ s ∈ comesOut os, s ∈ spans n := by
  intro s hs
  have there := times_pos.1 (Nat.lt_of_lt_of_le (noted_of_comesOut hs) (le s))
  rwa [spansAmong_single] at there

/-- What a node says is its own, and nothing comes out of an operand, so only
the order is left to see. -/
theorem outOf_said (h : OrderedPiece n) (hc : Inside c)
    (inOrder : InOrder (said m c n)) : OutOf n (said m c n) where
  inOrder := inOrder
  own := own_of_noted fun s => (frugal s m n).1 c
  nothing operand := by
    rw [comesOut, reaching_expression h.inside hc (.inl operand), List.map_nil]

/-- A node and its children say things in order, wherever they stand. -/
def Orderly (m : String) (n : Node) : Prop :=
  (∀ c, Inside c → OutOf n (said m c n)) ∧ ∀ n' ∈ n.children, ∀ c, Inside c →
    OutOf n' (said m c n')

theorem orderly_none : Orderly m .none :=
  ⟨fun _ _ => ⟨inOrder_nil, nofun, fun _ => rfl⟩, nofun⟩

theorem orderly_child (each : ∀ n ∈ ns, Orderly m n) (i : Nat) :
    Orderly m (child ns i) := by
  rcases child_mem_or ns i with mem | missing
  · exact each _ mem
  · rw [missing]
    exact orderly_none

/-- The statements of a body are in order, be it a block or an expression. -/
theorem outOf_body (h : OrderedPiece n) (orderly : Orderly m n)
    (hc : Inside c) :
    OutOf n (bodyOutline (toPart m n) c) := by
  unfold bodyOutline
  split
  · rename_i isBlock
    rw [node_toPart] at isBlock
    rw [parts_toPart, outlines_toParts]
    obtain ⟨k, s, ns⟩ := n
    cases isBlock
    refine ⟨inOrder_flatMap (fun n hn => orderly.2 n hn c hc)
      (pairwise_of_orderedAt (isOrdered_node.1 h.ordered).1),
      own_of_noted fun s => ?_, fun operand => by cases operand⟩
    exact Nat.le_trans (noted_among (fun n _ => (frugal s m n).1) c)
      times_children_le
  · exact orderly.1 c hc

/-- The name of an element declares nothing, if it declares nothing as an
expression. -/
theorem contained_elementName (own : Contained (said m c n)) :
    Contained (elementNameOutline (toPart m n) c) := by
  unfold elementNameOutline
  rw [node_toPart, outline_toPart]
  split
  · split
    · split
      · exact ⟨inOrder_nil, rfl⟩
      · exact contained_refer _ _
    · exact contained_refer _ _
  · exact own

/-- A list of names for the outside says them in order, as it declares none. -/
theorem inOrder_exportOutline (specifiers source : Node) :
    InOrder (exportOutline specifiers source) := by
  unfold exportOutline
  split
  · induction specifiers.children with
    | nil => exact inOrder_nil
    | cons q qs ih =>
      rw [List.flatMap_cons]
      split
      · exact (contained_refer _ _).append ih
      · exact ih
  · exact inOrder_nil

/-- A declarator is in order if its pattern is, as its value declares
nothing. -/
theorem inOrder_declaratorOutline {pattern value : Node}
    (names : InOrder (said m (c.declaring c.varKind) pattern))
    (contained : Contained (said m c value)) :
    InOrder
      (declaratorOutline m s (toPart m pattern) (toPart m value) c) := by
  have plain := names.append_contained contained
  simp only [declaratorOutline, node_toPart, outline_toPart]
  split
  · split
    · exact (inOrder_leaf rfl).append_contained contained
    · exact Contained.append ⟨inOrder_leaf rfl, rfl⟩ plain
  · exact plain

/-- An assignment is in order if its target is, as its value declares
nothing. -/
theorem inOrder_assignOutline {target value : Node}
    (read : InOrder (said m c target))
    (written : InOrder (said m c.writing target))
    (contained : Contained (said m c value)) :
    InOrder (assignOutline (toPart m target) (toPart m value) c) := by
  simp only [assignOutline_eq, node_toPart, outline_toPart]
  refine InOrder.append_contained ?_ contained
  split
  · exact (contained_refer _ _).inOrder
  · rw [targetContext]
    split
    · exact written
    · exact read

/-- What stands behind the name of a function or class declares nothing outside
of it. -/
theorem contained_behindName (here : OrderedPiece n) (orderly : Orderly m n)
    (hc : Inside c) (isOpen : n.kind = .fnExpr ∨ n.kind = .classExpr) :
    Contained (said m c (child n.children 1)) := by
  have value : OutOf (child n.children 1) (said m c (child n.children 1)) := by
    rcases child_mem_or n.children 1 with mem | missing
    · exact orderly.2 _ mem c hc
    · rw [missing]
      exact orderly_none.1 c hc
  refine value.contained ?_
  obtain ⟨k, s, ns⟩ := n
  have sorted := (scripted_of_isScript here.script).sorted
  rcases isOpen with isOpen | isOpen
  all_goals
    cases isOpen
    exact isOperand_child sorted 1

/-- The head of a loop is in order, be it a declaration or a target. -/
theorem outOf_head (read : OutOf n (said m c n))
    (written : OutOf n (said m c.writing n)) :
    OutOf n (headOutline (toPart m n) c) := by
  rw [headOutline_eq]
  split
  · exact read
  · exact written

/-- **A node says things in order** if its children and theirs do. -/
theorem inOrder_node (here : OrderedPiece (.node k s ns))
    (each : ∀ n ∈ ns, Orderly m n) (hc : Inside c) :
    InOrder (said m c (.node k s ns)) := by
  obtain ⟨ordered, -⟩ := isOrdered_node.1 here.ordered
  have inText := pairwise_of_orderedAt ordered
  have scripted := scripted_of_isScript here.script
  have sorted := scripted.sorted
  have parts := (regular_node.1 here.inside.regular).1
  have passing : Passing Inside := passing_allowing fun _ => id
  have inner : Inside c.inScope := passing.inScope hc
  have declaring : Inside (c.inScope.declaring .param) :=
    passing.declaring (by decide) inner
  have whole (i : Nat) {c : Context} (hc : Inside c) :
      OutOf (child ns i) (said m c (child ns i)) :=
    (orderly_child each i).1 c hc
  have body (i : Nat) {c : Context} (hc : Inside c) :
      OutOf (child ns i) (bodyOutline (toPart m (child ns i)) c) :=
    outOf_body (here.child i) (orderly_child each i) hc
  have first {i j : Nat} (before : i < j) := comesFirst_child inText before
  have all {c : Context} (hc : Inside c) : InOrder (saidAmong m c ns) :=
    inOrder_flatMap (fun n hn => (each n hn).1 c hc) inText
  have behind (i : Nat) {c : Context} (hc : Inside c) :
      InOrder (saidAmong m c (ns.drop i)) :=
    inOrder_flatMap (fun n hn => (each n (List.mem_of_mem_drop hn)).1 c hc)
      (inText.sublist (List.drop_sublist i ns))
  have items {j i : Nat} (bound : i < j)
      (lists : (ns.take j).all isSequence = true) :=
    saidAmong_items (m := m) fun q hq => List.all_eq_true.1 lists q
      (List.mem_of_getElem? ((List.getElem?_take_of_lt bound).trans hq))
  have named {i : Nat} (operand : isOperand (child ns i) = true)
      (kind : BindingKind) {c : Context} (hc : Inside c) :
      InOrder (declare (child ns 0) kind ++ said m c (child ns i)) :=
    (inOrder_declare _ _).append_contained ((whole i hc).contained operand)
  rw [said_node]
  cases k
  case importDecl => cases here.inside.noImport
  case varDecl word isDeclared =>
    cases word <;> simp only [outlineOf, outlines_toParts] <;>
      exact all (passing.declarators (by decide) hc)
  case usingDecl =>
    simp only [outlineOf, outlines_toParts]
    exact all (passing.declarators (by decide) hc)
  case exportDecl =>
    simp only [outlineOf, outlines_toParts]
    exact all (passing.exported hc)
  case declarator b =>
    simp only [outlineOf, part_toParts]
    exact inOrder_declaratorOutline (whole 0 (passing.own hc)).inOrder
      ((whole 1 hc).contained sorted)
  case exportDefaultDecl =>
    have behindName :=
      contained_behindName (here.child 0) (orderly_child each 0) hc
    simp only [outlineOf, part_toParts, node_toPart, parts_toPart,
      outlines_toParts, outline_toPart]
    split
    · exact (inOrder_declare _ _).append_contained (behindName (.inl ‹_›))
    · exact (inOrder_declare _ _).append_contained (behindName (.inr ‹_›))
    · exact all hc
  case exportNamed =>
    simp only [outlineOf, part_toParts, node_toPart]
    exact inOrder_exportOutline _ _
  case fnDecl | classDecl =>
    simp only [outlineOf, part_toParts, node_toPart, outline_toPart]
    exact named (Bool.and_eq_true_iff.1 ordered).2 _ hc
  case fnExpr | classExpr =>
    simp only [outlineOf, part_toParts, ownScope, node_toPart, outline_toPart]
    split
    · exact (whole 1 hc).inOrder
    · exact (named (isOperand_child sorted 1) _ inner).scope _
  case bindingIdent =>
    simp only [outlineOf]
    split
    · exact inOrder_leaf rfl
    · exact inOrder_leaf rfl
    · exact inOrder_nil
  case function =>
    have decorators := whole 1 inner
    have parameters := whole 0 declaring
    simp only [outlineOf, part_toParts, functionOutline,
      parts_toPart, outlines_toParts, items (i := 0) (by omega) parts,
      items (i := 1) (by omega) parts]
    exact ((decorators.contained (Bool.and_eq_true_iff.1 ordered).2).append
      (parameters.append (body 2 inner) (first (by omega)))).scope _
  case arrow =>
    have parameters := whole 0 declaring
    simp only [outlineOf, part_toParts, functionOutline, parts_toPart,
      outlines_toParts, items (i := 0) (by omega) parts]
    exact (parameters.append (body 1 inner) (first (by omega))).scope _
  case constructor =>
    have key := whole 0 hc
    have parameters := whole 1 declaring
    have list : saidAmong m (c.inScope.declaring .param) (child ns 1).children =
        said m (c.inScope.declaring .param) (child ns 1) :=
      saidAmong_items (fun q hq => List.all_eq_true.1 parts q
      (List.mem_of_getElem? ((List.getElem?_take_of_lt Nat.one_pos).trans
      (List.getElem?_drop.trans hq)))) _
    simp only [outlineOf, part_toParts, functionOutline, parts_toPart,
      outlines_toParts, outline_toPart, list]
    exact (key.contained sorted).append
      ((parameters.append (body 2 inner) (first (by omega))).scope _)
  case getterProp =>
    have key := whole 0 hc
    simp only [outlineOf, part_toParts, functionOutline, outline_toPart]
    exact (key.contained sorted).append ((body 2 inner).inOrder.scope _)
  case setterProp =>
    have key := whole 0 hc
    have receiver := whole 1 declaring
    have parameter := whole 2 declaring
    have statements := body 3 inner
    have rest := parameter.append statements (first (by omega))
    have front := (receiver.precedes parameter (first (by omega))).append_right
      (receiver.precedes statements (first (by omega)))
    simp only [outlineOf, part_toParts, outline_toPart]
    exact (key.contained sorted).append
      ((receiver.inOrder.append rest front).scope _)
  case staticBlock =>
    simp only [outlineOf, part_toParts]
    exact (body 0 inner).inOrder.scope _
  case block | forStmt =>
    simp only [outlineOf, outlines_toParts]
    exact (all inner).scope _
  case catchClause =>
    have caught : Inside (c.inScope.declaring .lexical) :=
      passing.declaring (by decide) inner
    have parameter := whole 0 caught
    simp only [outlineOf, part_toParts, outline_toPart]
    exact (parameter.append (body 1 inner) (first (by omega))).scope _
  case forIn | forOf =>
    have head := outOf_head (whole 0 inner) (whole 0 (passing.writing inner))
    simp only [outlineOf, part_toParts, drop_toParts, outlines_toParts]
    refine (head.inOrder.append (behind 1 inner) fun s hs s' hs' => ?_).scope _
    obtain ⟨n, hn, hs'⟩ := mem_comesOut_flatMap.1 hs'
    have behind := (each n (List.mem_of_mem_drop hn)).1 _ inner
    exact head.precedes behind (comesFirst_behind inText hn) s hs s' hs'
  case switchStmt =>
    simp only [outlineOf, part_toParts, outline_toPart]
    exact (whole 0 hc).append ((whole 1 inner).scope _) (first (by omega))
  case ident | shorthand => exact inOrder_leaf rfl
  case call =>
    simp only [outlineOf, part_toParts, outlines_toParts, node_toPart,
      outline_toPart]
    split
    · exact (contained_refer _ _).append (whole 1 hc).inOrder
    · exact all hc
  case assign =>
    have operand := isOperand_of_isExpression (Bool.and_eq_true_iff.1 sorted).2
    simp only [outlineOf, part_toParts]
    exact inOrder_assignOutline (whole 0 hc).inOrder
      (whole 0 (passing.writing hc)).inOrder ((whole 1 hc).contained operand)
  case update =>
    simp only [outlineOf, part_toParts, outlines_toParts, node_toPart]
    split
    · exact (contained_refer _ _).inOrder
    · exact all hc
  case markup form =>
    have name :=
      contained_elementName ((whole 0 hc).contained (isOperand_child sorted 0))
    cases form
    case name => exact inOrder_leaf rfl
    case opening =>
      simp only [outlineOf, part_toParts, drop_toParts, outlines_toParts]
      exact name.append (behind 1 hc)
    case closing =>
      simp only [outlineOf, part_toParts]
      exact name.inOrder
    all_goals
      simp only [outlineOf, outlines_toParts]
      exact all hc
  case type => cases scripted.untyped
  case enumDecl | moduleDecl | importEquals => cases scripted.untyped
  all_goals
    simp only [outlineOf, outlines_toParts]
    exact all hc

/-- What stands inside of a program says things in order. -/
theorem orderly (h : OrderedPiece n) : Orderly m n := by
  induction n using Node.induct with
  | step k s ns ih =>
    have each n (hn : n ∈ ns) : Orderly m n := ih n hn (h.mem hn)
    exact ⟨fun c hc => outOf_said h hc (inOrder_node h each hc),
      fun n hn => (each n hn).1⟩

/-- An import declares its names in order. -/
theorem outOf_import {b : Bool}
    (isRegular : regular (.node (.importDecl b) s ns) = true)
    (ordered : isOrdered (.node (.importDecl b) s ns) = true) :
    OutOf (.node (.importDecl b) s ns)
      (said m c (.node (.importDecl b) s ns)) := by
  have specifiers : ∀ q ∈ (child ns 0).children, isImportSpecifier q = true :=
    by
    have parts : ((ns.take 1).all fun n => isSequence n &&
        n.children.all isImportSpecifier) = true :=
      (regular_node.1 isRegular).1
    have lists : ((ns.take 1).all fun n => n.children.all isImportSpecifier) =
        true :=
      List.all_eq_true.2 fun n hn =>
        (Bool.and_eq_true_iff.1 (List.all_eq_true.1 parts n hn)).2
    exact List.all_eq_true.1 (all_take_child
      (p := fun n => n.children.all isImportSpecifier) rfl Nat.one_pos lists)
  have inText : (child ns 0).children.Pairwise fun a b =>
      comesFirst a b = true := by
    rcases child_mem_or ns 0 with mem | missing
    · have below := (isOrdered_node.1 ordered).2 _ mem
      cases there : child ns 0 with
      | node k' s' ns' =>
        exact pairwise_of_orderedAt (isOrdered_node.1 (there ▸ below)).1
    · rw [missing]
      exact List.Pairwise.nil
  have names : InOrder (importedNames (child ns 0).children) := by
    refine inOrder_flatMap
      (fun q hq => ⟨?_, own_of_noted fun s => ?_, fun operand => ?_⟩) inText
    · cases q.children with
      | nil => exact inOrder_nil
      | cons here rest =>
        rw [List.take_succ_cons, List.take_zero, List.flatMap_cons,
          List.flatMap_nil, List.append_nil]
        exact inOrder_declare here _
    · exact Nat.le_trans (noted_flatMap fun here _ => noted_declare here _)
        (Nat.le_trans (times_take_le _ 1) (times_children q))
    · have isSpecifier := specifiers q hq
      obtain ⟨k, s, ns⟩ := q
      cases k
      case importDefault | importNamed | importNamespace => cases operand
      all_goals cases isSpecifier
  refine ⟨?_, own_of_noted fun s => (frugal s m _).1 c,
    fun operand => by cases operand⟩
  rw [said_node]
  simp only [outlineOf, part_toParts, node_toPart]
  rcases importOutline_cases m b s (child ns 0) (child ns 1) with
    ⟨-, told⟩ | ⟨-, ⟨here, x, -, -, told⟩ | told | ⟨e, -, told⟩⟩ <;> rw [told]
  · exact names
  · exact inOrder_leaf rfl
  · exact inOrder_nil
  · exact Contained.append ⟨inOrder_leaf rfl, rfl⟩ names

/-- **A script declares names in the order of the text**, in each of its
frames. -/
theorem inOrder_outline (program : isProgram n.kind = true)
    (script : isScript n = true) (isRegular : regular n = true)
    (ordered : isOrdered n = true) (m : String) : InOrder (outline m n) := by
  obtain ⟨k, s, ns⟩ := n
  obtain ⟨-, scripts⟩ := isScript_node.1 script
  obtain ⟨-, regulars, inner⟩ := regular_node.1 isRegular
  obtain ⟨here, below⟩ := isOrdered_node.1 ordered
  have each n (hn : n ∈ ns) : OutOf n (said m {} n) := by
    cases isItem : isImport n.kind with
    | true =>
      have isRegular := regulars n hn
      have ordered := below n hn
      obtain ⟨k, s, ns⟩ := n
      cases k
      case importDecl => exact outOf_import isRegular ordered
      all_goals cases isItem
    | false =>
      have plain := (Bool.and_eq_true_iff.1 (scripts n hn)).1
      have piece : OrderedPiece n :=
        ⟨⟨plain, regulars n hn, inner n hn, isItem⟩, scripts n hn, below n hn⟩
      exact (orderly piece).1 {} ⟨by decide, nofun⟩
  rw [outline_eq_said, said_node]
  cases k
  case program =>
    simp only [outlineOf, outlines_toParts]
    exact inOrder_flatMap each (pairwise_of_orderedAt here)
  all_goals cases program

/-- **A binding of a script lists its declarations in the order of the
text.** -/
theorem places_ascending (program : isProgram n.kind = true)
    (script : isScript n = true) (isRegular : regular n = true)
    (ordered : isOrdered n = true) {b : Binding}
    (hb : b ∈ (Table.ofOutline (outline m n)).bindings) :
    Ascending b.places := by
  have inOrder := inOrder_outline program script isRegular ordered m
  obtain ⟨f, hf, same⟩ := Table.places_of_binding hb
  have frame : Ascending (f.map Declared.span) := by
    rcases List.mem_cons.1 hf with rfl | hf
    · exact inOrder.out
    · exact inOrder.within f hf
  rw [same]
  exact frame.sublist (List.filter_sublist.map _)

end Nodes

end NullGuard.Scope
