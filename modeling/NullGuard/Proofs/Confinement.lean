import NullGuard.Proofs.Outlines

/-!
# What holds of everything a program says

A property of outlines that is kept by putting together (`Closed`) holds of what
a node says if it holds of what its parts say and of the names close to it
(`said_closed`).

Two things come out of it for a part of a program that some names are confined
to.

* `said_of_clear`: where none of the names occurs, everything said is about
  other names.
* `said_of_housed`: a closed property that holds at the *home* of the names
  holds all the way out, because around the home there are other names only.
-/

namespace NullGuard.Scope

open NullGuard.Text (Span)
open NullGuard.Tree

/-- A property of outlines that is kept by putting them together, and allows a
name to be used in any way if it allows that it is read. -/
structure Closed (G : List Outline → Prop) : Prop where
  nil : G []
  append {os os' : List Outline} : G os → G os' → G (os ++ os')
  scope {os : List Outline} (k : ScopeKind) : G os → G [.scope k os]
  reference {x : String} {s : Option Span} (k : ReferenceKind) :
      G [.reference x s .read] → G [.reference x s k]
  unrecognized (s : Option Span) : G [.unrecognized s]
  malformed (e : Transform.Rejection) : G [.malformed e]

/-- A property allows the declaration of the name that a node is, if it is
one. -/
def Declarable (G : List Outline → Prop) (n : Node) : Prop :=
  ∀ x, identifier? n.kind = some x → ∀ k,
    G [.declaration x n.span k] ∧ ∀ origin, G [.helper x n.span k origin]

/-- A property allows the use of the name that a node is, if it is one. -/
def Referable (G : List Outline → Prop) (n : Node) : Prop :=
  ∀ x, identifier? n.kind = some x → G [.reference x n.span .read]

namespace Closed

variable {G : List Outline → Prop}

/-- A closed property is a relation that only looks at one side. -/
theorem composed (h : Closed G) : Composed fun os _ => G os :=
  ⟨h.nil, h.append, h.scope⟩

theorem declare (h : Closed G) {n : Node} (ok : Declarable G n)
    (k : BindingKind) : G (Scope.declare n k) := by
  unfold Scope.declare
  split
  · rename_i x isName
    exact (ok x isName k).1
  · exact h.nil

theorem refer (h : Closed G) {n : Node} (ok : Referable G n)
    (k : ReferenceKind) : G (Scope.refer n k) := by
  unfold Scope.refer
  split
  · rename_i x isName
    exact h.reference k (ok x isName)
  · exact h.nil

/-- The use of a bare identifier, whatever kind of use it is. -/
theorem bare (h : Closed G) {m : String} {c : Context} {n x : Node}
    (isBare : bareIdentifier? n = some x) (ok : G (said m c n))
    (k : ReferenceKind) : G (Scope.refer x k) := by
  rw [said_of_bareIdentifier? isBare] at ok
  unfold Scope.refer at ok ⊢
  split at ok
  · exact h.reference k ok
  · exact h.nil

theorem flatMap (h : Closed G) {α : Type} {l : List α} {f : α → List Outline}
    (each : ∀ a ∈ l, G (f a)) : G (l.flatMap f) := by
  induction l with
  | nil => exact h.nil
  | cons a l ih =>
    rw [List.flatMap_cons]
    exact h.append (each a List.mem_cons_self)
      (ih fun b hb => each b (List.mem_cons_of_mem _ hb))

theorem saidAmong (h : Closed G) {m : String} {c : Context} {ns : List Node}
    (each : ∀ n ∈ ns, G (said m c n)) : G (saidAmong m c ns) :=
  h.flatMap each

end Closed

/-- The nodes whose names a node may declare. -/
inductive Declares (n : Node) : Node → Prop where
  | own : Declares n n
  | child {c : Node} (naming : namesChild n.kind = true) (hc : c ∈ n.children) :
      Declares n c
  | inner {p c : Node} (hp : p ∈ n.children) (isOpen : isOpen p.kind = true)
      (notList : p.kind ≠ .list ∧ p.kind ≠ .block) (hc : c ∈ p.children) :
      Declares n c
  | specifier {p q c : Node} (hp : p ∈ n.children) (isList : p.kind = .list)
      (hq : q ∈ p.children) (isSpecifier : isImportSpecifier q = true)
      (hc : c ∈ q.children) : Declares n c

/-- The nodes whose names a node may use. -/
inductive Refers (n : Node) : Node → Prop where
  | own : Refers n n
  | element {c : Node} {x : String} (hc : c ∈ n.children)
      (isName : c.kind = .markup (.name x)) : Refers n c
  | specifier {p q c : Node} {b : Bool}
      (isExport : ∃ t u, n.kind = .exportNamed t u) (hp : p ∈ n.children)
      (isList : p.kind = .list) (hq : q ∈ p.children)
      (isSpecifier : q.kind = .exportSpecifier b) (hc : c ∈ q.children) :
      Refers n c
  | root {p c : Node} (hp : p ∈ n.children) (isRoot : entityRoot p = some c) :
      Refers n c

section Step

variable {G : List Outline → Prop} {m : String} {k : Kind} {s : Option Span}
  {ns : List Node}

/-- What has to be known about the children and the close names of a node. -/
structure Prepared (G : List Outline → Prop) (m : String) (k : Kind)
    (s : Option Span) (ns : List Node) : Prop where
  regular : regularParts k ns = true
  whole : ∀ n ∈ ns, ∀ c, G (said m c n)
  inner : ∀ n ∈ ns, isOpen n.kind = true → ∀ n' ∈ n.children,
    ∀ c, G (said m c n')
  declared : ∀ n, Declares (.node k s ns) n → Declarable G n
  referred : ∀ n, Refers (.node k s ns) n → Referable G n

namespace Prepared

variable (closed : Closed G) (h : Prepared G m k s ns)

include closed h

theorem child (i : Nat) (c : Context) : G (said m c (child ns i)) := by
  rcases child_mem_or ns i with mem | missing
  · exact h.whole _ mem c
  · rw [missing]
    exact closed.nil

theorem all (c : Context) : G (saidAmong m c ns) :=
  closed.saidAmong fun n hn => h.whole n hn c

/-- What the children say in every place they can be in. -/
theorem pairs :
    List.Forall₂ (Pair (fun os _ => G os) (fun _ => True) m) ns ns := by
  refine List.forall₂_same.2 fun n hn =>
    ⟨fun c _ => h.whole n hn c, fun c _ => ?_, fun isList c _ => ?_⟩
  · unfold bodyOutline
    split
    · rename_i isBlock
      rw [node_toPart] at isBlock
      rw [parts_toPart, outlines_toParts]
      exact closed.saidAmong fun n' hn' => h.inner n hn
        (by rw [isBlock]; rfl) n' hn' c
    · exact h.whole n hn c
  · exact closed.saidAmong fun n' hn' => h.inner n hn
      (by rw [isList]; rfl) n' hn' c

theorem body (i : Nat) (c : Context) :
    G (bodyOutline (toPart m (Scope.child ns i)) c) :=
  (pair_child closed.composed (h.pairs closed) i).body c trivial

/-- A child that is a sequence, if it is there. -/
theorem sequence {i : Nat} (isList : ∀ n, ns[i]? = some n → isSequence n = true)
    (c : Context) :
    G (saidAmong m c (Scope.child ns i).children) :=
  related_sequence closed.composed (h.pairs closed) isList c trivial

/-- A sequence among the first ones. -/
theorem front {n i : Nat} (bound : i < n)
    (all : (ns.take n).all isSequence = true) (c : Context) :
    G (saidAmong m c (Scope.child ns i).children) :=
  h.sequence closed (fun q hq => List.all_eq_true.1 all q
    (List.mem_of_getElem? ((List.getElem?_take_of_lt bound).trans hq))) c

theorem declareChild (naming : namesChild k = true) (i : Nat)
    (kind : BindingKind) :
    G (Scope.declare (Scope.child ns i) kind) := by
  rcases child_mem_or ns i with mem | missing
  · exact closed.declare (h.declared _ (.child naming mem)) kind
  · rw [missing]
    exact closed.nil

theorem declareInner {i : Nat}
    (isOpen : Scope.isOpen (Scope.child ns i).kind = true)
    (notList : (Scope.child ns i).kind ≠ .list ∧
      (Scope.child ns i).kind ≠ .block) (j : Nat) (kind : BindingKind) :
    G (Scope.declare (Scope.child (Scope.child ns i).children j) kind) := by
  rcases child_mem_or ns i with mem | missing
  · rcases child_mem_or (Scope.child ns i).children j with inside | gone
    · exact closed.declare
        (h.declared _ (.inner mem isOpen notList inside)) kind
    · rw [gone]
      exact closed.nil
  · rw [missing]
    exact closed.nil

theorem innerChild {i : Nat}
    (isOpen : Scope.isOpen (Scope.child ns i).kind = true) (j : Nat)
    (c : Context) :
    G (said m c (Scope.child (Scope.child ns i).children j)) := by
  rcases child_mem_or ns i with mem | missing
  · rcases child_mem_or (Scope.child ns i).children j with inside | gone
    · exact h.inner _ mem isOpen _ inside c
    · rw [gone]
      exact closed.nil
  · rw [missing]
    exact closed.nil

theorem referRoot (i : Nat) : G (Scope.referRoot (Scope.child ns i)) := by
  unfold Scope.referRoot
  split
  · rename_i root isRoot
    rcases child_mem_or ns i with mem | missing
    · exact closed.refer (h.referred _ (.root mem isRoot)) _
    · rw [missing] at isRoot
      cases isRoot
  · exact closed.nil

theorem imported (typeOnly : Bool) (isImport : k = .importDecl typeOnly) :
    G (importOutline m typeOnly s (Scope.child ns 0) (Scope.child ns 1)) := by
  have here : ∀ q ∈ (Scope.child ns 0).children, ∀ c ∈ q.children,
      Declarable G c := by
    intro q hq c hc
    have regular := h.regular
    rw [isImport] at regular
    cases ns with
    | nil => cases hq
    | cons n rest =>
      have list := List.all_eq_true.1 regular n List.mem_cons_self
      rw [Bool.and_eq_true] at list
      exact h.declared _ (.specifier List.mem_cons_self (eq_of_beq list.1) hq
        (List.all_eq_true.1 list.2 q hq) hc)
  have all : G (importedNames (Scope.child ns 0).children) :=
    closed.flatMap fun q hq => closed.flatMap fun c hc =>
      closed.declare (here q hq c (List.mem_of_mem_take hc)) _
  rcases importOutline_cases m typeOnly s (Scope.child ns 0) (Scope.child ns 1)
    with
    ⟨-, told⟩ | ⟨-, ⟨c, x, checked, isName, told⟩ | told | ⟨e, -, told⟩⟩ <;>
      rw [told]
  · exact all
  · obtain ⟨q, hq, hc⟩ := mem_of_checkImport checked
    exact (here q hq c hc x isName _).2 _
  · exact closed.nil
  · exact closed.append (closed.malformed _) all

theorem exported (t u : Bool) (isExport : k = .exportNamed t u) :
    G (exportOutline (Scope.child ns 0) (Scope.child ns 1)) := by
  unfold exportOutline
  split
  · refine closed.flatMap fun q hq => ?_
    split
    · rename_i b c rest isSpecifier isFirst
      have list : (Scope.child ns 0).kind = .list := by
        have regular := h.regular
        rw [isExport] at regular
        cases ns with
        | nil => cases hq
        | cons n rest =>
          exact eq_of_beq (List.all_eq_true.1 regular n List.mem_cons_self)
      rcases child_mem_or ns 0 with mem | missing
      · exact closed.refer (h.referred _ (.specifier ⟨t, u, isExport⟩ mem list
          hq isSpecifier (by rw [isFirst]; exact List.mem_cons_self))) _
      · rw [missing] at list
        cases list
    · exact closed.nil
  · exact closed.nil

theorem declarator (naming : namesChild k = true) (c : Context) :
    G (declaratorOutline m s (toPart m (Scope.child ns 0))
      (toPart m (Scope.child ns 1)) c) := by
  have value := h.child closed 1 c
  have plain := closed.append (h.child closed 0 (c.declaring c.varKind)) value
  unfold declaratorOutline
  dsimp only
  split
  · split
    · rename_i x _ isName
      rw [node_toPart] at isName ⊢
      rcases child_mem_or ns 0 with mem | missing
      · have ok :=
          (h.declared _ (.child naming mem) x (by rw [isName]; rfl) c.varKind).2
        exact closed.append (ok _) value
      · rw [missing] at isName
        cases isName
    · exact closed.append (closed.unrecognized s) plain
  · exact plain

theorem assigned (c : Context) :
    G (assignOutline (toPart m (Scope.child ns 0))
      (toPart m (Scope.child ns 1)) c) := by
  unfold assignOutline
  refine closed.append ?_ (h.child closed 1 c)
  split
  · rename_i x isBare
    rw [node_toPart] at isBare
    exact closed.bare isBare (h.child closed 0 c) _
  · split <;> exact h.child closed 0 _

end Prepared

/-- **What a node says has every closed property** that its parts and its close
names allow. -/
theorem said_closed (closed : Closed G) (h : Prepared G m k s ns)
    (c : Context) :
    G (said m c (.node k s ns)) := by
  cases special : isSpecial k with
  | false =>
    exact said_related closed.composed passing_all special h.regular
      (h.pairs closed) (.refl k _) (fun naming n hn kind _ =>
      closed.declare (h.declared n (.child naming hn)) kind) c trivial
  | true =>
    have ownDeclared := h.declared _ .own
    have ownReferred := h.referred _ .own
    rw [said_node]
    cases k
    case importDecl typeOnly =>
      simp only [outlineOf, part_toParts, node_toPart]
      exact h.imported closed typeOnly rfl
    case exportNamed t u =>
      simp only [outlineOf, part_toParts, node_toPart]
      exact h.exported closed t u rfl
    case declarator =>
      simp only [outlineOf, part_toParts]
      exact h.declarator closed rfl c
    case exportDefaultDecl =>
      simp only [outlineOf, part_toParts, node_toPart, parts_toPart,
        outlines_toParts, outline_toPart]
      split
      · rename_i kind
        have opened : isOpen (child ns 0).kind = true := by rw [kind]; rfl
        exact closed.append (h.declareInner closed opened
          (by constructor <;> simp [kind]) 0 _) (h.innerChild closed opened 1 c)
      · rename_i kind
        have opened : isOpen (child ns 0).kind = true := by rw [kind]; rfl
        exact closed.append (h.declareInner closed opened
          (by constructor <;> simp [kind]) 0 _) (h.innerChild closed opened 1 c)
      · exact h.all closed c
    case importEquals =>
      simp only [outlineOf, part_toParts, node_toPart]
      exact closed.append (h.declareChild closed rfl 0 _) (h.referRoot closed 1)
    case bindingIdent x _ =>
      simp only [outlineOf]
      split
      · exact (ownDeclared x rfl _).1
      · exact closed.reference _ (ownReferred x rfl)
      · exact closed.nil
    case ident x | shorthand x =>
      exact ownReferred x rfl
    case call =>
      simp only [outlineOf, part_toParts, outlines_toParts, node_toPart,
        outline_toPart]
      split
      · rename_i x isBare
        exact closed.append (closed.bare isBare (h.child closed 0 c) _)
          (h.child closed 1 c)
      · exact h.all closed c
    case assign =>
      simp only [outlineOf, part_toParts]
      exact h.assigned closed c
    case update =>
      simp only [outlineOf, part_toParts, outlines_toParts, node_toPart]
      split
      · rename_i x isBare
        exact closed.bare isBare (h.child closed 0 c) _
      · exact h.all closed c
    case markup form =>
      cases form
      case name x => exact ownReferred x rfl
      all_goals cases special
    case type form =>
      cases form
      case query =>
        simp only [outlineOf, part_toParts, node_toPart]
        exact h.referRoot closed 0
      all_goals cases special
    all_goals cases special

end Step

section Confined

variable {G : List Outline → Prop} {q : String × Option Span → Prop}
  {m : String}

/-- None of certain names occurs in a node. -/
def Clear (q : String × Option Span → Prop) (n : Node) : Prop :=
  ∀ p ∈ mentions n, ¬ q p

/-- A property allows declarations and uses of all other names. -/
structure AllowsOthers (q : String × Option Span → Prop)
    (G : List Outline → Prop) : Prop extends Closed G where
  declaration {x : String} {s : Option Span} (other : ¬ q (x, s))
      (k : BindingKind) : G [.declaration x s k]
  helper {x : String} {s : Option Span} (other : ¬ q (x, s)) (k : BindingKind)
      (origin : Origin) : G [.helper x s k origin]
  use {x : String} {s : Option Span} (other : ¬ q (x, s)) :
      G [.reference x s .read]

/-- A node is not itself one of certain names. -/
def Other (q : String × Option Span → Prop) (n : Node) : Prop :=
  ∀ x, identifier? n.kind = some x → ¬ q (x, n.span)

theorem Clear.other {n : Node} (h : Clear q n) : Other q n :=
  fun _ isName => h _ (mem_mentions_self isName)

theorem Clear.child {n c : Node} (h : Clear q n) (hc : c ∈ n.children) :
    Clear q c :=
  fun p hp => h p (mem_mentions_of_child hc hp)

/-- The first name of a dotted name is one of its names. -/
theorem Clear.root {n c : Node} (h : Clear q n)
    (isRoot : entityRoot n = some c) : Clear q c := by
  fun_induction entityRoot n with
  | case1 s left rest ih => exact ih (h.child List.mem_cons_self) isRoot
  | case2 x s ns =>
    cases isRoot
    exact h
  | case3 => cases isRoot

theorem AllowsOthers.declarable (h : AllowsOthers q G) {n : Node}
    (other : Other q n) : Declarable G n :=
  fun x isName k => ⟨h.declaration (other x isName) k,
    h.helper (other x isName) k⟩

theorem AllowsOthers.referable (h : AllowsOthers q G) {n : Node}
    (other : Other q n) : Referable G n :=
  fun x isName => h.use (other x isName)

theorem Declares.clear {n c : Node} (h : Declares n c) (clear : Clear q n) :
    Clear q c := by
  cases h with
  | own => exact clear
  | child _ hc => exact clear.child hc
  | inner hp _ _ hc => exact (clear.child hp).child hc
  | specifier hp _ hq _ hc => exact ((clear.child hp).child hq).child hc

theorem Refers.clear {n c : Node} (h : Refers n c) (clear : Clear q n) :
    Clear q c := by
  cases h with
  | own => exact clear
  | element hc _ => exact clear.child hc
  | specifier _ hp _ hq _ hc => exact ((clear.child hp).child hq).child hc
  | root hp isRoot => exact (clear.child hp).root isRoot

/-- **Where none of the names occurs**, everything that is said is about other
names. -/
theorem said_of_clear (allows : AllowsOthers q G) {n : Node}
    (isRegular : regular n = true) (clear : Clear q n) (c : Context) :
    G (said m c n) := by
  have both : (∀ c, G (said m c n)) ∧ ∀ n' ∈ n.children,
      ∀ c, G (said m c n') := by
    induction n using Node.induct with
    | step k s ns ih =>
      obtain ⟨here, below, -⟩ := regular_node.1 isRegular
      have each n hn := ih n hn (below n hn) (clear.child hn)
      refine ⟨said_closed allows.toClosed
        ⟨here, fun n hn => (each n hn).1, fun n hn _ => (each n hn).2,
        fun n hn => allows.declarable (hn.clear clear).other, fun n hn =>
        allows.referable (hn.clear clear).other⟩, fun n hn => (each n hn).1⟩
  exact both.1 c

/-- Where none of the names occurs, everything is ready for what a node says. -/
theorem prepared_of_clear (allows : AllowsOthers q G) {k : Kind}
    {s : Option Span} {ns : List Node}
    (isRegular : regular (.node k s ns) = true)
    (clear : Clear q (.node k s ns)) : Prepared G m k s ns := by
  obtain ⟨here, below, -⟩ := regular_node.1 isRegular
  refine ⟨here, fun n hn => said_of_clear allows (below n hn) (clear.child hn),
    ?_, fun n hn => allows.declarable (hn.clear clear).other,
    fun n hn => allows.referable (hn.clear clear).other⟩
  rintro ⟨k', s', ns'⟩ hn - n' hn'
  exact said_of_clear allows (regular_child (below _ hn) hn')
    ((clear.child hn).child hn')

/-- A node that can be the home of names: only the node itself says something
about what is in it. -/
structure IsHome (n : Node) : Prop where
  unnamed : identifier? n.kind = none
  closed : isOpen n.kind = false
  plain : n.kind ≠ .type .qualified
  imports : isImportSpecifier n = false
  exports : ∀ b, n.kind ≠ .exportSpecifier b

/-- Certain names occur only within one home. -/
inductive Housed (q : String × Option Span → Prop) (Home : Node → Prop) :
    Node → Prop where
  | home {n : Node} (isHome : IsHome n) (home : Home n) : Housed q Home n
  | inside {k : Kind} {s : Option Span} {before after : List Node} {n : Node}
      (other : Other q (.node k s (before ++ n :: after)))
      (clearBefore : ∀ n ∈ before, Clear q n)
      (clearAfter : ∀ n ∈ after, Clear q n) (within : Housed q Home n) :
      Housed q Home (.node k s (before ++ n :: after))

namespace Housed

variable {Home : Node → Prop} {n : Node}

theorem other (h : Housed q Home n) : Other q n := by
  cases h with
  | home isHome _ =>
    intro x isName
    rw [isHome.unnamed] at isName
    cases isName
  | inside other _ _ _ => exact other

/-- Each child is around the home or free of the names. -/
theorem children_inside {before after : List Node}
    (clearBefore : ∀ n ∈ before, Clear q n)
    (clearAfter : ∀ n ∈ after, Clear q n) (within : Housed q Home n) {c : Node}
    (hc : c ∈ before ++ n :: after) :
    Clear q c ∨ c = n ∧ Housed q Home c := by
  rcases List.mem_append.1 hc with hc | hc
  · exact .inl (clearBefore c hc)
  · rcases List.mem_cons.1 hc with rfl | hc
    · exact .inr ⟨rfl, within⟩
    · exact .inl (clearAfter c hc)

/-- In a node that is no home itself, the children are free of the names or
around the home. -/
theorem outside (h : Housed q Home n) (noHome : ¬ IsHome n) {c : Node}
    (hc : c ∈ n.children) :
    Clear q c ∨ Housed q Home c := by
  cases h with
  | home isHome _ => exact absurd isHome noHome
  | inside _ clearBefore clearAfter within =>
    exact (children_inside clearBefore clearAfter within hc).imp id And.right

/-- Where a node is looked into from outside, the home is not that node. -/
theorem opened (h : Housed q Home n) (isOpen : isOpen n.kind = true) {c : Node}
    (hc : c ∈ n.children) :
    Clear q c ∨ Housed q Home c :=
  h.outside (fun isHome => by cases isHome.closed.symm.trans isOpen) hc

/-- The names in a specifier are said something about from further out, so the
home is not there. -/
theorem specifier (h : Housed q Home n)
    (isSpecifier : isImportSpecifier n = true ∨
      ∃ b, n.kind = .exportSpecifier b) {c : Node} (hc : c ∈ n.children) :
    Other q c := by
  have noHome : ¬ IsHome n := by
    intro isHome
    rcases isSpecifier with isImport | ⟨b, isExport⟩
    · cases isHome.imports.symm.trans isImport
    · exact isHome.exports b isExport
  rcases h.outside noHome hc with clear | housed
  · exact clear.other
  · exact housed.other

theorem other_root (h : Housed q Home n) {c : Node}
    (isRoot : entityRoot n = some c) : Other q c := by
  induction h with
  | @home n isHome _ =>
    obtain ⟨k, s, ns⟩ := n
    unfold entityRoot at isRoot
    split at isRoot
    · rename_i qualified
      cases qualified
      exact absurd rfl isHome.plain
    · rename_i named
      cases named
      cases isHome.unnamed
    · cases isRoot
  | @inside k s before after n other clearBefore clearAfter within ih =>
    generalize whole : Node.node k s (before ++ n :: after) = w at isRoot other
    unfold entityRoot at isRoot
    split at isRoot
    · rename_i left rest
      cases before with
      | nil =>
        cases whole
        exact ih isRoot
      | cons first before =>
        cases whole
        exact ((clearBefore _ List.mem_cons_self).root isRoot).other
    · cases isRoot
      exact other
    · cases isRoot

theorem other_child_inside {before after : List Node} {c : Node}
    (hc : c ∈ before ++ n :: after) (clearBefore : ∀ n ∈ before, Clear q n)
    (clearAfter : ∀ n ∈ after, Clear q n) (within : Housed q Home n) :
    Other q c := by
  rcases children_inside clearBefore clearAfter within hc
    with clear | ⟨-, housed⟩
  · exact clear.other
  · exact housed.other

theorem other_inner_inside {before after : List Node} {p q' c : Node}
    (hp : p ∈ before ++ n :: after) (isList : p.kind = .list)
    (hq : q' ∈ p.children)
    (isSpecifier : isImportSpecifier q' = true ∨
      ∃ b, q'.kind = .exportSpecifier b) (hc : c ∈ q'.children)
    (clearBefore : ∀ n ∈ before, Clear q n)
    (clearAfter : ∀ n ∈ after, Clear q n) (within : Housed q Home n) :
    Other q c := by
  rcases children_inside clearBefore clearAfter within hp
    with clear | ⟨-, housed⟩
  · exact ((clear.child hq).child hc).other
  · rcases housed.opened (by rw [isList]; rfl) hq with clear | housed
    · exact (clear.child hc).other
    · exact housed.specifier isSpecifier hc

theorem other_declared {k : Kind} {s : Option Span} {before after : List Node}
    {c : Node} (h : Declares (.node k s (before ++ n :: after)) c)
    (other : Other q (.node k s (before ++ n :: after)))
    (clearBefore : ∀ n ∈ before, Clear q n)
    (clearAfter : ∀ n ∈ after, Clear q n) (within : Housed q Home n) :
    Other q c := by
  cases h with
  | own => exact other
  | child _ hc => exact other_child_inside hc clearBefore clearAfter within
  | inner hp isOpen _ hc =>
    rcases children_inside clearBefore clearAfter within hp
      with clear | ⟨-, housed⟩
    · exact (clear.child hc).other
    · rcases housed.opened isOpen hc with clear | housed
      · exact clear.other
      · exact housed.other
  | specifier hp isList hq isSpecifier hc =>
    exact other_inner_inside hp isList hq
      (.inl isSpecifier) hc clearBefore clearAfter within

theorem other_referred {k : Kind} {s : Option Span} {before after : List Node}
    {c : Node} (h : Refers (.node k s (before ++ n :: after)) c)
    (other : Other q (.node k s (before ++ n :: after)))
    (clearBefore : ∀ n ∈ before, Clear q n)
    (clearAfter : ∀ n ∈ after, Clear q n) (within : Housed q Home n) :
    Other q c := by
  cases h with
  | own => exact other
  | element hc _ => exact other_child_inside hc clearBefore clearAfter within
  | specifier _ hp isList hq isSpecifier hc =>
    exact other_inner_inside hp isList hq
      (.inr ⟨_, isSpecifier⟩) hc clearBefore clearAfter within
  | root hp isRoot =>
    rcases children_inside clearBefore clearAfter within hp
      with clear | ⟨-, housed⟩
    · exact (clear.root isRoot).other
    · exact housed.other_root isRoot

end Housed

/-- **What holds at the home of some names holds all the way out.** -/
theorem said_of_housed {Home : Node → Prop} (allows : AllowsOthers q G)
    (atHome : ∀ n, Home n → regular n = true → ∀ c, G (said m c n)) {n : Node}
    (isRegular : regular n = true) (housed : Housed q Home n) (c : Context) :
    G (said m c n) := by
  have both : (∀ c, G (said m c n)) ∧
      (isOpen n.kind = true → ∀ n' ∈ n.children, ∀ c, G (said m c n')) := by
    induction housed with
    | @home n isHome home =>
      exact ⟨atHome n home isRegular,
        fun isOpen => by cases isHome.closed.symm.trans isOpen⟩
    | @inside k s before after n other clearBefore clearAfter within ih =>
      obtain ⟨here, below, -⟩ := regular_node.1 isRegular
      have each (p) (hp : p ∈ before ++ n :: after) : (∀ c, G (said m c p)) ∧
          (isOpen p.kind = true → ∀ n' ∈ p.children, ∀ c, G (said m c n')) := by
        rcases Housed.children_inside clearBefore clearAfter within hp with
          clear | ⟨rfl, -⟩
        · refine ⟨said_of_clear allows (below p hp) clear, fun _ n' hn' => ?_⟩
          obtain ⟨pk, ps, pns⟩ := p
          exact said_of_clear allows (regular_child (below _ hp) hn')
            (clear.child hn')
        · exact ih (below p hp)
      exact ⟨said_closed allows.toClosed ⟨here, fun p hp => (each p hp).1,
        fun p hp => (each p hp).2, fun p hp => allows.declarable
        (Housed.other_declared hp other clearBefore clearAfter within),
        fun p hp => allows.referable (Housed.other_referred hp other clearBefore
        clearAfter within)⟩, fun _ p hp => (each p hp).1⟩
  exact both.1 c

end Confined

end NullGuard.Scope
