import Mathlib.Data.List.Forall2
import NullGuard.Proofs.Resolution

/-!
# What the nodes of a program say about names

The outline of a node is put together from the outlines of its parts, from
scopes around them, and from the declarations and uses of a few names close to
the node. `said_related` is this step, for two nodes of one kind whose children
say related things: then so do the nodes. It has a case for every kind of node
but those that look at more than the shape of their children (`isSpecial`), and
what is special about the kinds is said there and nowhere else.

`said_stable` is the step for one node and a property that only looks at what
helpers are and at what is called.
-/

namespace NullGuard.Scope

open NullGuard.Text (Span)
open NullGuard.Tree

mutual

/-- The identifiers in a piece of a program, whatever they stand for, with their
spans. -/
def mentions : Node → List (String × Option Span)
  | .node k s ns =>
    (identifier? k).toList.map (fun x => (x, s)) ++ mentionsAmong ns

/-- The identifiers in several pieces, with their spans. -/
def mentionsAmong : List Node → List (String × Option Span)
  | [] => []
  | n :: ns => mentions n ++ mentionsAmong ns

end

theorem mem_mentionsAmong {p : String × Option Span} {ns : List Node} :
    p ∈ mentionsAmong ns ↔ ∃ n ∈ ns, p ∈ mentions n := by
  induction ns with
  | nil => exact iff_of_false nofun nofun
  | cons n ns ih =>
    simp only [mentionsAmong, List.mem_append, ih, List.mem_cons,
      exists_eq_or_imp]

theorem mem_mentions {p : String × Option Span} {k : Kind} {s : Option Span}
    {ns : List Node} :
    p ∈ mentions (.node k s ns) ↔ (identifier? k = some p.1 ∧ p.2 = s) ∨
      ∃ n ∈ ns, p ∈ mentions n := by
  rw [mentions, List.mem_append, mem_mentionsAmong]
  refine or_congr ?_ Iff.rfl
  cases identifier? k with
  | none => exact iff_of_false nofun nofun
  | some x =>
    obtain ⟨y, t⟩ := p
    simp only [Option.toList_some, List.map_cons, List.map_nil,
      List.mem_singleton, Prod.mk.injEq, Option.some.injEq, eq_comm]

/-- The spans of the identifiers in a node. -/
def spans (n : Node) : List (Option Span) :=
  (mentions n).map Prod.snd

theorem mem_spans {n : Node} {s : Option Span} :
    s ∈ spans n ↔ ∃ x, (x, s) ∈ mentions n := by
  simp [spans]

/-- The name that a node is, is one of its names. -/
theorem mem_mentions_self {n : Node} {x : String}
    (h : identifier? n.kind = some x) : (x, n.span) ∈ mentions n := by
  obtain ⟨k, s, ns⟩ := n
  exact mem_mentions.2 (.inl ⟨h, rfl⟩)

/-- The names of a part are names of the whole. -/
theorem mem_mentions_of_child {p : String × Option Span} {n m : Node}
    (hm : m ∈ n.children) (h : p ∈ mentions m) : p ∈ mentions n := by
  obtain ⟨k, s, ns⟩ := n
  exact mem_mentions.2 (.inr ⟨m, hm, h⟩)

/-- What a node says about names in a context, where `m` is the helper's
module. -/
def said (m : String) (c : Context) (n : Node) : List Outline :=
  (toPart m n).outline c

/-- What several nodes say, one after the other. -/
def saidAmong (m : String) (c : Context) (ns : List Node) : List Outline :=
  ns.flatMap (said m c)

/-- The child at a position. -/
def child (ns : List Node) (i : Nat) : Node :=
  ns.getD i .none

theorem outline_eq_said (m : String) (n : Node) : outline m n = said m {} n :=
  rfl

theorem said_node (m : String) (c : Context) (k : Kind) (s : Option Span)
    (ns : List Node) :
    said m c (.node k s ns) = outlineOf m k s (toParts m ns) c :=
  rfl

@[simp] theorem node_toPart (m : String) (n : Node) :
    (toPart m n).node = n := by
  cases n
  rfl

@[simp] theorem parts_toPart (m : String) (n : Node) :
    (toPart m n).parts = toParts m n.children := by
  cases n
  rfl

@[simp] theorem outline_toPart (m : String) (c : Context) (n : Node) :
    (toPart m n).outline c = said m c n :=
  rfl

theorem toParts_eq_map (m : String) (ns : List Node) :
    toParts m ns = ns.map (toPart m) := by
  induction ns with
  | nil => rfl
  | cons n ns ih => rw [toParts, ih, List.map_cons]

/-- A missing node is a missing part. -/
theorem toPart_none (m : String) : toPart m .none = .none :=
  rfl

@[simp] theorem part_toParts (m : String) (ns : List Node) (i : Nat) :
    part (toParts m ns) i = toPart m (child ns i) := by
  rw [part, toParts_eq_map, child, ← toPart_none m, List.getD_eq_getElem?_getD,
    List.getElem?_map, Option.getD_map, List.getD_eq_getElem?_getD]

@[simp] theorem outlines_toParts (m : String) (c : Context) (ns : List Node) :
    outlines (toParts m ns) c = saidAmong m c ns := by
  rw [outlines, toParts_eq_map, List.flatMap_map]
  rfl

@[simp] theorem drop_toParts (m : String) (ns : List Node) (i : Nat) :
    (toParts m ns).drop i = toParts m (ns.drop i) := by
  rw [toParts_eq_map, toParts_eq_map, List.map_drop]

/-- Parentheses say what is in them. -/
theorem said_stripParens (m : String) (c : Context) (n : Node) :
    said m c n.stripParens = said m c n := by
  fun_induction Node.stripParens n with
  | case1 s inner ih =>
    rw [ih, said_node]
    exact (List.append_nil _).symm
  | case2 => rfl

/-- A bare identifier says that it is used. -/
theorem said_of_bareIdentifier? {n x : Node} (h : bareIdentifier? n = some x)
    (m : String) (c : Context) :
    said m c n = refer x .read := by
  rw [← said_stripParens]
  unfold bareIdentifier? at h
  split at h
  · rename_i name isIdent
    cases h
    cases stripped : n.stripParens with
    | node k s ns =>
      rw [stripped] at isIdent
      cases isIdent
      rfl
  · cases h

/-- The names that the specifiers of an import declare. -/
def importedNames (specifiers : List Node) : List Outline :=
  specifiers.flatMap fun specifier => (specifier.children.take 1).flatMap
    fun here => declare here .imported

/-- An import says the names of its specifiers, the name of the helper, or what
is wrong with it. -/
theorem importOutline_cases (m : String) (typeOnly : Bool) (s : Option Span)
    (specifiers source : Node) :
    (namesModule m source = false ∧ importOutline m typeOnly s
      specifiers source = importedNames specifiers.children) ∨
      namesModule m source = true ∧
      ((∃ here x, checkImport typeOnly s specifiers.children = .ok here ∧
        identifier? here.kind = some x ∧ importOutline m typeOnly s
        specifiers source = [.helper x here.span .imported (.imported s)]) ∨
        importOutline m typeOnly s specifiers source = [] ∨
        ∃ e, checkImport typeOnly s specifiers.children = .error e ∧
        importOutline m typeOnly s specifiers source = .malformed e ::
          importedNames specifiers.children) := by
  have names (f : Node → List Outline) (same : ∀ q, f q =
      (q.children.take 1).flatMap fun here => declare here .imported) :
      specifiers.children.flatMap f = importedNames specifiers.children := by
    rw [importedNames, funext same]
  unfold importOutline
  dsimp only
  rw [names]
  case same =>
    intro q
    cases q.children with
    | nil => rfl
    | cons here rest => exact (List.append_nil _).symm
  cases isHelper : namesModule m source with
  | false => exact .inl ⟨rfl, rfl⟩
  | true =>
    refine .inr ⟨rfl, ?_⟩
    cases checked : checkImport typeOnly s specifiers.children with
    | error e => exact .inr (.inr ⟨e, rfl, rfl⟩)
    | ok here =>
      cases isName : identifier? here.kind with
      | none => exact .inr (.inl (by simp [isName]))
      | some x => exact .inl ⟨here, x, rfl, isName, by simp [isName]⟩

/-- The name that an import of the helper declares stands in one of its
specifiers. -/
theorem mem_of_checkImport {typeOnly : Bool} {s : Option Span}
    {specifiers : List Node} {here : Node}
    (checked : checkImport typeOnly s specifiers = .ok here) :
    ∃ q ∈ specifiers, here ∈ q.children := by
  unfold checkImport at checked
  split at checked
  · cases checked
  · rename_i q
    split at checked
    · rename_i given
      split at checked
      · cases checked
      · cases checked
        refine ⟨q, List.mem_cons_self, ?_⟩
        unfold defaultSpecifier? at given
        split at given
        · cases given
          exact List.mem_cons_self
        · split at given
          · cases given
            exact List.mem_cons_self
          · cases given
        · cases given
    · cases checked
  · cases checked

/-- Whether a node is a sequence. -/
def isSequence (n : Node) : Bool :=
  n.kind == .list

/-- Whether the parts of a node are looked at from outside of it. -/
def isOpen : Kind → Bool
  | .list | .block | .fnExpr | .classExpr => true
  | _ => false

/-- Whether a node is a specifier of an import. -/
def isImportSpecifier (n : Node) : Bool :=
  match n.kind with
  | .importDefault | .importNamed _ | .importNamespace => true
  | _ => false

/-- Whether a node is a function with its parameters and body. -/
def isFunction (n : Node) : Bool :=
  match n.kind with
  | .function _ _ => true
  | _ => false

/-- Whether a node is a program. -/
def isProgram : Kind → Bool
  | .program _ _ => true
  | _ => false

/-- Whether the children that are looked into are what they have to be. -/
def regularParts (k : Kind) (ns : List Node) : Bool :=
  match k with
  | .function _ _ => (ns.take 2).all isSequence
  | .arrow _ | .exportNamed _ _ => (ns.take 1).all isSequence
  | .importDecl _ =>
    (ns.take 1).all fun n => isSequence n && n.children.all isImportSpecifier
  | .constructor _ | .switchCase => ((ns.drop 1).take 1).all isSequence
  | .method _ _ => ((ns.drop 1).take 1).all isFunction
  | _ => true

/-- Whether a node of a kind can have some children. -/
def regularAt (k : Kind) (ns : List Node) : Bool :=
  regularParts k ns && ns.all fun n => !isProgram n.kind

mutual

/-- Whether parameters, decorators, specifiers and the statements of cases are
sequences and methods are functions wherever they stand, and no program stands
inside of a node, as it is in every program that was read. -/
def regular : Node → Bool
  | .node k _ ns => regularAt k ns && regularAmong ns

/-- Whether several nodes are regular. -/
def regularAmong : List Node → Bool
  | [] => true
  | n :: ns => regular n && regularAmong ns

end

theorem regularAmong_iff {ns : List Node} :
    regularAmong ns = true ↔ ∀ n ∈ ns, regular n = true := by
  induction ns with
  | nil => exact iff_of_true rfl nofun
  | cons n ns ih =>
    rw [regularAmong, Bool.and_eq_true, ih, List.forall_mem_cons]

theorem regular_node {k : Kind} {s : Option Span} {ns : List Node} :
    regular (.node k s ns) = true ↔ regularParts k ns = true ∧
      (∀ n ∈ ns, regular n = true) ∧ ∀ n ∈ ns, isProgram n.kind = false := by
  rw [regular, regularAt, Bool.and_eq_true, Bool.and_eq_true, regularAmong_iff,
    List.all_eq_true]
  simp only [Bool.not_eq_true']
  rw [and_assoc, and_comm (a := ∀ n ∈ ns, regular n = true)]

theorem regular_child {k : Kind} {s : Option Span} {ns : List Node}
    (h : regular (.node k s ns) = true) {n : Node} (hn : n ∈ ns) :
    regular n = true :=
  (regular_node.1 h).2.1 n hn

/-- Whether a node may declare the name that one of its children is. -/
def namesChild : Kind → Bool
  | .declarator _ | .fnDecl _ | .classDecl _ | .fnExpr | .classExpr
      | .enumDecl _ _ | .moduleDecl _ _
  | .importEquals _ _ => true
  | _ => false

/-- A child at a position is one of the children, or there is none. -/
theorem child_mem_or (ns : List Node) (i : Nat) :
    child ns i ∈ ns ∨ child ns i = .none := by
  rw [child, List.getD_eq_getElem?_getD]
  cases h : ns[i]? with
  | none => exact .inr rfl
  | some n => exact .inl (List.mem_of_getElem? h)

/-- A relation of outlines that is kept by putting them together. -/
structure Composed (R : List Outline → List Outline → Prop) : Prop where
  nil : R [] []
  append {os₁ os₂ os₁' os₂' : List Outline} :
      R os₁ os₁' → R os₂ os₂' → R (os₁ ++ os₂) (os₁' ++ os₂')
  scope {os os' : List Outline} (k : ScopeKind) :
      R os os' → R [.scope k os] [.scope k os']

/-- Whether a node declares variables. -/
def isVariables : Kind → Bool
  | .varDecl _ _ | .usingDecl _ => true
  | _ => false

/-- Whether a node is a name of an element. -/
def isElementName : Kind → Bool
  | .markup (.name _) => true
  | _ => false

theorem isElementName_iff {k : Kind} :
    isElementName k = true ↔ ∃ x, k = .markup (.name x) := by
  unfold isElementName
  split
  · exact iff_of_true rfl ⟨_, rfl⟩
  · rename_i other
    exact iff_of_false nofun fun ⟨x, isName⟩ => other x isName

/-- Whether a node is a tag. -/
def isTag : Kind → Bool
  | .markup (.opening _) | .markup .closing => true
  | _ => false

/-- Whether a node is a loop that goes through something. -/
def isPass : Kind → Bool
  | .forIn | .forOf _ => true
  | _ => false

/-- Two nodes are the same as far as the node around them looks at what they
are. -/
structure Alike (n n' : Node) : Prop where
  name : identifier? n'.kind = identifier? n.kind
  span : identifier? n.kind ≠ none → n'.span = n.span
  missing : n'.isNone = n.isNone
  element : isElementName n'.kind = isElementName n.kind

theorem Alike.refl (n : Node) : Alike n n :=
  ⟨rfl, fun _ => rfl, rfl, rfl⟩

/-- Nodes that are alike declare the same name. -/
theorem Alike.declare {n n' : Node} (h : Alike n n') (kind : BindingKind) :
    Scope.declare n' kind = Scope.declare n kind := by
  unfold Scope.declare
  rw [h.name]
  split
  · rename_i x isName
    rw [h.span (by rw [isName]; nofun)]
  · rfl

/-- The first parts of two nodes of one kind are alike where something depends
on what they are. -/
structure SameFirst (k : Kind) (n n' : Node) : Prop where
  alike : (namesChild k || isTag k) = true → Alike n n'
  declares : isPass k = true → isVariables n'.kind = isVariables n.kind

theorem SameFirst.refl (k : Kind) (n : Node) : SameFirst k n n :=
  ⟨fun _ => .refl n, fun _ => rfl⟩

/-- A property of contexts that holds where the parts of a node stand if it
holds where the node stands. -/
structure Passing (C : Context → Prop) : Prop where
  inScope {c : Context} : C c → C c.inScope
  declaring {c : Context} {kind : BindingKind} :
      kind ≠ .imported → C c → C (c.declaring kind)
  own {c : Context} : C c → C (c.declaring c.varKind)
  writing {c : Context} : C c → C c.writing
  declarators {c : Context} {kind : BindingKind} :
      kind ≠ .imported → C c → C { c with varKind := kind }
  exported {c : Context} : C c → C { c with isExported := true }

theorem passing_all : Passing fun _ => True :=
  ⟨fun _ => trivial, fun _ _ => trivial, fun _ => trivial, fun _ => trivial,
    fun _ _ => trivial, fun _ => trivial⟩

/-- Two nodes in one place say related things, as nodes, as bodies and as
sequences. -/
structure Pair (R : List Outline → List Outline → Prop) (C : Context → Prop)
    (m : String) (n n' : Node) : Prop where
  said : ∀ c, C c → R (said m c n) (said m c n')
  body : ∀ c, C c → R (bodyOutline (toPart m n) c) (bodyOutline (toPart m n') c)
  among : n.kind = .list → ∀ c, C c →
    R (saidAmong m c n.children) (saidAmong m c n'.children)

/-- Whether what a node says depends on more than the shape of its children. -/
def isSpecial : Kind → Bool
  | .importDecl _ | .exportNamed _ _ | .exportDefaultDecl | .declarator _
      | .importEquals _ _ | .ident _
  | .bindingIdent _ _ | .shorthand _ | .markup (.name _) | .call | .assign _
      | .update _ _ | .type .query =>
    true
  | _ => false

section Related

variable {R : List Outline → List Outline → Prop} {C : Context → Prop}
  {m : String} {k : Kind} {s : Option Span} {ns ns' : List Node}

theorem pair_none (composed : Composed R) : Pair R C m .none .none :=
  ⟨fun _ _ => composed.nil, fun _ _ => composed.nil, nofun⟩

/-- The children at a position are a pair. -/
theorem pair_child (composed : Composed R)
    (pairs : List.Forall₂ (Pair R C m) ns ns') (i : Nat) :
    Pair R C m (child ns i) (child ns' i) := by
  induction pairs generalizing i with
  | nil => exact pair_none composed
  | cons head tail ih =>
    cases i with
    | zero => exact head
    | succ i => exact ih i

theorem related_among (composed : Composed R)
    (pairs : List.Forall₂ (Pair R C m) ns ns') (c : Context) (hc : C c) :
    R (saidAmong m c ns) (saidAmong m c ns') := by
  induction pairs with
  | nil => exact composed.nil
  | cons head tail ih => exact composed.append (head.said c hc) ih

/-- A child that is a sequence, if it is there. -/
theorem related_sequence (composed : Composed R)
    (pairs : List.Forall₂ (Pair R C m) ns ns') {i : Nat}
    (isList : ∀ n, ns[i]? = some n → isSequence n = true) (c : Context)
    (hc : C c) :
    R (saidAmong m c (child ns i).children)
      (saidAmong m c (child ns' i).children) := by
  cases there : ns[i]? with
  | none =>
    have missing : child ns i = .none := by
      rw [child, List.getD_eq_getElem?_getD, there]; rfl
    have missing' : child ns' i = .none := by
      rw [child, List.getD_eq_getElem?_getD, List.getElem?_eq_none]
      · rfl
      · rw [← pairs.length_eq]
        exact List.getElem?_eq_none_iff.1 there
    rw [missing, missing']
    exact composed.nil
  | some n =>
    have same : child ns i = n := by
      rw [child, List.getD_eq_getElem?_getD, there]; rfl
    exact (pair_child composed pairs i).among
      (same ▸ eq_of_beq (isList n there)) c hc

/-- The names that first children are, are declared alike. -/
theorem related_declare (composed : Composed R)
    (alike : Alike (child ns 0) (child ns' 0))
    (declared : ∀ n ∈ ns, ∀ kind, kind ≠ .imported →
      R (declare n kind) (declare n kind)) (kind : BindingKind)
    (other : kind ≠ .imported) :
    R (declare (child ns 0) kind) (declare (child ns' 0) kind) := by
  rw [alike.declare]
  rcases child_mem_or ns 0 with mem | missing
  · exact declared _ mem kind other
  · rw [missing]
    exact composed.nil

theorem related_ownScope (composed : Composed R)
    (pairs : List.Forall₂ (Pair R C m) ns ns') (passing : Passing C)
    (alike : Alike (child ns 0) (child ns' 0))
    (declared : ∀ n ∈ ns, ∀ kind, kind ≠ .imported →
      R (declare n kind) (declare n kind)) (scope : ScopeKind)
    (kind : BindingKind) (other : kind ≠ .imported) (c : Context) (hc : C c) :
    R (ownScope (toPart m (child ns 0)) scope kind (toPart m (child ns 1)) c)
      (ownScope (toPart m (child ns' 0)) scope kind
      (toPart m (child ns' 1)) c) := by
  have rest := (pair_child composed pairs 1).said
  unfold ownScope
  rw [node_toPart, node_toPart, alike.missing]
  split
  · exact rest c hc
  · exact composed.scope _ (composed.append (related_declare composed alike
      declared kind other) (rest _ (passing.inScope hc)))

theorem related_elementName (composed : Composed R)
    (pairs : List.Forall₂ (Pair R C m) ns ns')
    (alike : Alike (child ns 0) (child ns' 0)) (c : Context) (hc : C c) :
    R (elementNameOutline (toPart m (child ns 0)) c)
      (elementNameOutline (toPart m (child ns' 0)) c) := by
  have pair := pair_child composed pairs 0
  -- An element name that counts says the same in its own place.
  have own (n : Node) (x : String) (isName : n.kind = .markup (.name x)) :
      said m c n = [.reference x n.span .read] := by
    obtain ⟨k, s, ns⟩ := n
    cases isName
    rfl
  generalize child ns 0 = n at pair alike
  generalize child ns' 0 = n' at pair alike
  unfold elementNameOutline
  rw [node_toPart, node_toPart]
  cases element : isElementName n.kind with
  | true =>
    obtain ⟨x, isName⟩ := isElementName_iff.1 element
    obtain ⟨y, isName'⟩ := isElementName_iff.1 (alike.element.trans element)
    obtain rfl : y = x := by
      have names := alike.name
      rw [isName, isName'] at names
      exact Option.some.inj names
    have said := pair.said c hc
    rw [own n y isName, own n' y isName'] at said
    have refer (n : Node) (isName : n.kind = .markup (.name y)) :
        refer n .read = [.reference y n.span .read] := by
      rw [Scope.refer, isName]
      rfl
    simp only [isName, isName', refer n isName, refer n' isName']
    split
    · split
      · exact composed.nil
      · exact said
    · exact said
  | false =>
    have other (n : Node) (element : isElementName n.kind = false)
        (x : String) : n.kind ≠ .markup (.name x) := by
      intro isName
      rw [isName] at element
      cases element
    split
    · exact absurd ‹_› (other n element _)
    · split
      · exact absurd ‹_› (other n' (alike.element.trans element) _)
      · exact pair.said c hc

/-- The head of a loop says what it says where names are assigned to, unless it
declares variables. -/
theorem headOutline_eq (m : String) (n : Node) (c : Context) :
    headOutline (toPart m n) c = if isVariables n.kind then said m c n
      else said m c.writing n := by
  unfold headOutline
  rw [node_toPart]
  cases n.kind <;> rfl

theorem related_head (composed : Composed R)
    (pairs : List.Forall₂ (Pair R C m) ns ns') (passing : Passing C)
    (declares : isVariables (child ns' 0).kind = isVariables (child ns 0).kind)
    (c : Context) (hc : C c) :
    R (headOutline (toPart m (child ns 0)) c)
      (headOutline (toPart m (child ns' 0)) c) := by
  have pair := pair_child composed pairs 0
  rw [headOutline_eq, headOutline_eq, declares]
  cases isVariables (child ns 0).kind with
  | true => exact pair.said c hc
  | false => exact pair.said c.writing (passing.writing hc)

/-- **What two nodes of one kind say is related**, if their children are, in all
contexts of some sort. -/
theorem said_related (composed : Composed R) (passing : Passing C)
    (ordinary : isSpecial k = false) (regular : regularParts k ns = true)
    (pairs : List.Forall₂ (Pair R C m) ns ns')
    (first : SameFirst k (child ns 0) (child ns' 0))
    (declared : namesChild k = true → ∀ n ∈ ns, ∀ kind, kind ≠ .imported →
      R (declare n kind) (declare n kind)) (c : Context) (hc : C c) :
    R (said m c (.node k s ns)) (said m c (.node k s ns')) := by
  have whole i c := (pair_child composed pairs i).said c
  have body i c := (pair_child composed pairs i).body c
  have all (c : Context) (hc : C c) := related_among composed pairs c hc
  have front {j i : Nat} (bound : i < j) (lists : (ns.take j).all isSequence =
      true) (c : Context) (hc : C c) : R (saidAmong m c (child ns i).children)
      (saidAmong m c (child ns' i).children) :=
    related_sequence composed pairs (fun q hq => List.all_eq_true.1 lists q
      (List.mem_of_getElem? ((List.getElem?_take_of_lt bound).trans hq))) c hc
  have behind (i : Nat) (c : Context) (hc : C c) :
      R (saidAmong m c (ns.drop i)) (saidAmong m c (ns'.drop i)) :=
    related_among composed (List.forall₂_drop i pairs) c hc
  have inner : C c.inScope := passing.inScope hc
  have parameter : C (c.inScope.declaring .param) :=
    passing.declaring (by decide) inner
  rw [said_node, said_node]
  cases k
  case importDecl | exportNamed | exportDefaultDecl | declarator | importEquals
    | ident | bindingIdent | shorthand
    | call | assign | update => cases ordinary
  case varDecl word isDeclared =>
    cases word <;> simp only [outlineOf, outlines_toParts] <;>
      exact all _ (passing.declarators (by decide) hc)
  case usingDecl =>
    simp only [outlineOf, outlines_toParts]
    exact all _ (passing.declarators (by decide) hc)
  case exportDecl =>
    simp only [outlineOf, outlines_toParts]
    exact all _ (passing.exported hc)
  case fnDecl | classDecl | enumDecl =>
    simp only [outlineOf, part_toParts, node_toPart, outline_toPart]
    exact composed.append (related_declare composed (first.alike rfl)
      (declared rfl) _ (by decide)) (whole 1 c hc)
  case fnExpr | classExpr =>
    simp only [outlineOf, part_toParts]
    exact related_ownScope composed pairs passing (first.alike rfl)
      (declared rfl) _ _ (by decide) c hc
  case moduleDecl =>
    simp only [outlineOf, part_toParts, node_toPart, outline_toPart]
    exact composed.append (related_declare composed (first.alike rfl)
      (declared rfl) _ (by decide)) (composed.scope _ (whole 1 _ inner))
  case function =>
    simp only [outlineOf, part_toParts, functionOutline, parts_toPart,
      outlines_toParts]
    exact composed.scope _ (composed.append (front (by omega) regular _ inner)
      (composed.append (front (by omega) regular _ parameter) (body 2 _ inner)))
  case arrow =>
    simp only [outlineOf, part_toParts, functionOutline, parts_toPart,
      outlines_toParts]
    exact composed.scope _ (composed.append composed.nil
      (composed.append (front (by omega) regular _ parameter) (body 1 _ inner)))
  case constructor =>
    simp only [outlineOf, part_toParts, functionOutline, outline_toPart,
      parts_toPart, outlines_toParts]
    refine composed.append (whole 0 c hc) (composed.scope _
      (composed.append composed.nil (composed.append ?_ (body 2 _ inner))))
    refine related_sequence composed pairs
      (fun q hq => List.all_eq_true.1 regular q ?_) _ parameter
    exact List.mem_of_getElem? ((List.getElem?_take_of_lt Nat.one_pos).trans
      (List.getElem?_drop.trans hq))
  case getterProp =>
    simp only [outlineOf, part_toParts, functionOutline, outline_toPart]
    exact composed.append (whole 0 c hc) (composed.scope _ (composed.append
      composed.nil (composed.append composed.nil (body 2 _ inner))))
  case setterProp =>
    simp only [outlineOf, part_toParts, outline_toPart]
    exact composed.append (whole 0 c hc)
      (composed.scope _ (composed.append (whole 1 _ parameter)
      (composed.append (whole 2 _ parameter) (body 3 _ inner))))
  case staticBlock =>
    simp only [outlineOf, part_toParts]
    exact composed.scope _ (body 0 _ inner)
  case block | forStmt =>
    simp only [outlineOf, outlines_toParts]
    exact composed.scope _ (all _ inner)
  case catchClause =>
    simp only [outlineOf, part_toParts, outline_toPart]
    exact composed.scope _ (composed.append
      (whole 0 _ (passing.declaring (by decide) inner)) (body 1 _ inner))
  case forIn | forOf =>
    simp only [outlineOf, part_toParts, drop_toParts, outlines_toParts]
    exact composed.scope _ (composed.append (related_head composed pairs passing
      (first.declares rfl) _ inner) (behind 1 _ inner))
  case switchStmt =>
    simp only [outlineOf, part_toParts, outline_toPart]
    exact composed.append (whole 0 c hc) (composed.scope _ (whole 1 _ inner))
  case markup form =>
    cases form
    case name => cases ordinary
    case opening =>
      simp only [outlineOf, part_toParts, drop_toParts, outlines_toParts]
      exact composed.append (related_elementName composed pairs
        (first.alike rfl) c hc) (behind 1 c hc)
    case closing =>
      simp only [outlineOf, part_toParts]
      exact related_elementName composed pairs (first.alike rfl) c hc
    all_goals
      simp only [outlineOf, outlines_toParts]
      exact all c hc
  case type form =>
    cases form
    case query => cases ordinary
    all_goals
      simp only [outlineOf, outlines_toParts]
      exact all c hc
  all_goals
    simp only [outlineOf, outlines_toParts]
    exact all _ hc

end Related

/-- Contexts that only let names be declared in ways that are allowed. -/
structure Allowing (A : BindingKind → Prop) (c : Context) : Prop where
  varKind : A c.varKind
  mode : ∀ kind, c.mode = .declare kind → A kind

/-- A property of outlines that is kept by putting them together and allows
uses, save of what is called, and the declarations that are allowed, save of
helpers. -/
structure Stable (A : BindingKind → Prop) (G : List Outline → Prop) : Prop where
  usual : ∀ k, k ≠ .imported → A k
  nil : G []
  append {os os' : List Outline} : G os → G os' → G (os ++ os')
  scope {os : List Outline} (k : ScopeKind) : G os → G [.scope k os]
  declaration (x : String) (s : Option Span) {k : BindingKind}
      (allowed : A k) : G [.declaration x s k]
  use (x : String) (s : Option Span) {k : ReferenceKind}
      (other : k ≠ .callee) : G [.reference x s k]

/-- What a node says of itself about imports, helpers and calls has a
property. -/
structure Settled (A : BindingKind → Prop) (G : List Outline → Prop)
    (m : String) (k : Kind) (s : Option Span) (ns : List Node) : Prop where
  regular : regularParts k ns = true
  whole : ∀ n ∈ ns, ∀ c, Allowing A c → G (said m c n)
  inner : ∀ n ∈ ns, isOpen n.kind = true → ∀ n' ∈ n.children,
    ∀ c, Allowing A c → G (said m c n')
  called : k = .call → ∀ x, bareIdentifier? (child ns 0) = some x →
    G (refer x .callee)
  named : ∀ b, k = .importDecl b → G (importedNames (child ns 0).children)
  imported : ∀ b here x, k = .importDecl b → namesModule m (child ns 1) = true →
    checkImport b s (child ns 0).children = .ok here → identifier? here.kind =
    some x → G [.helper x here.span .imported (.imported s)]
  malformed : ∀ b e, k = .importDecl b → namesModule m (child ns 1) = true →
    checkImport b s (child ns 0).children = .error e → G [.malformed e]
  unrecognized : ∀ b, k = .declarator b → isHelperRequire m (child ns 1) =
    true → G [.unrecognized s]
  required : ∀ b x o kind isExported, k = .declarator b → isHelperRequire m
    (child ns 1) = true → (child ns 0).kind = .bindingIdent x o → A kind →
    G [.helper x (child ns 0).span kind (.required s isExported)]

section Stable

variable {A : BindingKind → Prop} {G : List Outline → Prop} {m : String}
  {k : Kind} {s : Option Span} {ns : List Node}

theorem allowing_all (c : Context) : Allowing (fun _ => True) c :=
  ⟨trivial, fun _ _ => trivial⟩

theorem passing_allowing (usual : ∀ k, k ≠ .imported → A k) :
    Passing (Allowing A) where
  inScope h := ⟨h.varKind, fun _ same => by cases same⟩
  declaring other h :=
    ⟨h.varKind, fun _ same => by cases same; exact usual _ other⟩
  own h := ⟨h.varKind, fun _ same => by cases same; exact h.varKind⟩
  writing h := ⟨h.varKind, fun _ same => by cases same⟩
  declarators other h := ⟨usual _ other, h.mode⟩
  exported h := ⟨h.varKind, h.mode⟩

theorem Stable.declare (h : Stable A G) (n : Node) {kind : BindingKind}
    (allowed : A kind) : G (declare n kind) := by
  unfold Scope.declare
  split
  · exact h.declaration _ _ allowed
  · exact h.nil

theorem Stable.refer (h : Stable A G) (n : Node) {kind : ReferenceKind}
    (other : kind ≠ .callee) : G (refer n kind) := by
  unfold Scope.refer
  split
  · exact h.use _ _ other
  · exact h.nil

theorem Stable.flatMap (h : Stable A G) {α : Type} {l : List α}
    {f : α → List Outline} (each : ∀ a ∈ l, G (f a)) : G (l.flatMap f) := by
  induction l with
  | nil => exact h.nil
  | cons a l ih =>
    rw [List.flatMap_cons]
    exact h.append (each a List.mem_cons_self)
      (ih fun b hb => each b (List.mem_cons_of_mem _ hb))

/-- The names that an import declares are all allowed where imports are. -/
theorem Stable.named (h : Stable A G) (allowed : A .imported)
    (specifiers : List Node) :
    G (importedNames specifiers) :=
  h.flatMap fun _ _ => h.flatMap fun here _ => h.declare here allowed

theorem Stable.referRoot (h : Stable A G) (n : Node) : G (referRoot n) := by
  unfold Scope.referRoot
  split
  · exact h.refer _ nofun
  · exact h.nil

theorem Settled.child (stable : Stable A G) (h : Settled A G m k s ns) (i : Nat)
    (c : Context) (hc : Allowing A c) :
    G (said m c (child ns i)) := by
  rcases child_mem_or ns i with mem | missing
  · exact h.whole _ mem c hc
  · rw [missing]
    exact stable.nil

/-- **What a node says has every stable property** that its parts have and that
allows the helper it declares and the name it calls. -/
theorem said_stable (stable : Stable A G) (h : Settled A G m k s ns)
    (c : Context) (hc : Allowing A c) :
    G (said m c (.node k s ns)) := by
  have passing := passing_allowing stable.usual
  have all (c : Context) (hc : Allowing A c) : G (saidAmong m c ns) :=
    stable.flatMap fun n hn => h.whole n hn c hc
  cases special : isSpecial k with
  | false =>
    have composed : Composed fun os _ => G os :=
      ⟨stable.nil, stable.append, stable.scope⟩
    refine said_related composed passing special h.regular
      (List.forall₂_same.2 fun n hn => ?_) (.refl k _)
      (fun _ n _ kind other => stable.declare n (stable.usual kind other)) c hc
    refine ⟨h.whole n hn, fun c hc => ?_, fun isList c hc => ?_⟩
    · unfold bodyOutline
      split
      · rename_i isBlock
        rw [node_toPart] at isBlock
        rw [parts_toPart, outlines_toParts]
        exact stable.flatMap fun n' hn' => h.inner n hn
          (by rw [isBlock]; rfl) n' hn' c hc
      · exact h.whole n hn c hc
    · exact stable.flatMap fun n' hn' => h.inner n hn
        (by rw [isList]; rfl) n' hn' c hc
  | true =>
    rw [said_node]
    cases k
    case importDecl b =>
      simp only [outlineOf, part_toParts, node_toPart]
      rcases importOutline_cases m b s (Scope.child ns 0) (Scope.child ns 1)
        with
        ⟨-, told⟩ | ⟨isHelper, ⟨here, x, isOk, isName, told⟩ | told | ⟨e,
          isError, told⟩⟩ <;> rw [told]
      · exact h.named b rfl
      · exact h.imported b here x rfl isHelper isOk isName
      · exact stable.nil
      · exact stable.append (h.malformed b e rfl isHelper isError)
          (h.named b rfl)
    case exportNamed =>
      simp only [outlineOf, part_toParts, node_toPart, exportOutline]
      split
      · refine stable.flatMap fun q _ => ?_
        split
        · exact stable.refer _ nofun
        · exact stable.nil
      · exact stable.nil
    case declarator b =>
      simp only [outlineOf, part_toParts, declaratorOutline, node_toPart,
        outline_toPart]
      have value := h.child stable 1 c hc
      have plain := stable.append
        (h.child stable 0 (c.declaring c.varKind) (passing.own hc)) value
      split
      · rename_i isHelper
        split
        · rename_i x o isName
          exact stable.append
            (h.required b x o _ _ rfl isHelper isName hc.varKind) value
        · exact stable.append (h.unrecognized b rfl isHelper) plain
      · exact plain
    case exportDefaultDecl =>
      simp only [outlineOf, part_toParts, node_toPart, parts_toPart,
        outlines_toParts, outline_toPart]
      have inside (isOpen : isOpen (Scope.child ns 0).kind = true) :
          G (said m c (Scope.child (Scope.child ns 0).children 1)) := by
        rcases child_mem_or (Scope.child ns 0).children 1 with mem | missing
        · rcases child_mem_or ns 0 with mem' | missing'
          · exact h.inner _ mem' isOpen _ mem c hc
          · rw [missing'] at isOpen
            cases isOpen
        · rw [missing]
          exact stable.nil
      split
      · rename_i kind
        exact stable.append (stable.declare _ (stable.usual _ (by decide)))
          (inside (by rw [kind]; rfl))
      · rename_i kind
        exact stable.append (stable.declare _ (stable.usual _ (by decide)))
          (inside (by rw [kind]; rfl))
      · exact all c hc
    case importEquals =>
      simp only [outlineOf, part_toParts, node_toPart]
      exact stable.append (stable.declare _ (stable.usual _ (by decide)))
        (stable.referRoot _)
    case bindingIdent =>
      simp only [outlineOf]
      split
      · rename_i kind isDeclared
        exact stable.declaration _ _ (hc.mode kind isDeclared)
      · exact stable.use _ _ (by decide)
      · exact stable.nil
    case ident | shorthand => exact stable.use _ _ (by decide)
    case call =>
      simp only [outlineOf, part_toParts, outlines_toParts, node_toPart,
        outline_toPart]
      split
      · exact stable.append (h.called rfl _ ‹_›) (h.child stable 1 c hc)
      · exact all c hc
    case assign =>
      simp only [outlineOf, part_toParts, assignOutline, node_toPart,
        outline_toPart]
      refine stable.append ?_ (h.child stable 1 c hc)
      split
      · exact stable.refer _ (by decide)
      · split
        · exact h.child stable 0 _ (passing.writing hc)
        · exact h.child stable 0 _ (passing.writing hc)
        · exact h.child stable 0 _ hc
    case update =>
      simp only [outlineOf, part_toParts, outlines_toParts, node_toPart]
      split
      · exact stable.refer _ (by decide)
      · exact all c hc
    case markup form =>
      cases form
      case name => exact stable.use _ _ (by decide)
      all_goals cases special
    case type form =>
      cases form
      case query =>
        simp only [outlineOf, part_toParts, node_toPart]
        exact stable.referRoot _
      all_goals cases special
    all_goals cases special

end Stable

/-- A node stands somewhere in another. -/
inductive Occurs (n : Node) : Node → Prop where
  | here : Occurs n n
  | inside {k : Kind} {s : Option Span} {ns : List Node} {c : Node}
      (hc : c ∈ ns) (h : Occurs n c) : Occurs n (.node k s ns)

theorem Occurs.trans {a b c : Node} (h : Occurs a b) (h' : Occurs b c) :
    Occurs a c := by
  induction h' with
  | here => exact h
  | inside hc _ ih => exact .inside hc ih

theorem Occurs.stripParens (n : Node) : Occurs n.stripParens n := by
  fun_induction Node.stripParens n with
  | case1 s inner ih => exact .inside List.mem_cons_self ih
  | case2 => exact .here

theorem Occurs.regular {n n' : Node} (h : Occurs n n')
    (isRegular : regular n' = true) : Scope.regular n = true := by
  induction h with
  | here => exact isRegular
  | inside hc _ ih => exact ih (regular_child isRegular hc)

/-- The names of a part are names of the whole. -/
theorem Occurs.mentions {n n' : Node} (h : Occurs n n')
    {p : String × Option Span} (hp : p ∈ mentions n) :
    p ∈ Scope.mentions n' := by
  induction h with
  | here => exact hp
  | inside hc _ ih => exact mem_mentions_of_child hc ih

mutual

/-- A node and all nodes inside of it. -/
def subnodes : Node → List Node
  | .node k s ns => .node k s ns :: subnodesAmong ns

/-- Several nodes and all nodes inside of them. -/
def subnodesAmong : List Node → List Node
  | [] => []
  | n :: ns => subnodes n ++ subnodesAmong ns

end

theorem mem_subnodesAmong {m : Node} {ns : List Node} :
    m ∈ subnodesAmong ns ↔ ∃ n ∈ ns, m ∈ subnodes n := by
  induction ns with
  | nil => exact iff_of_false nofun nofun
  | cons n ns ih =>
    simp only [subnodesAmong, List.mem_append, ih, List.mem_cons,
      exists_eq_or_imp]

theorem subnodesAmong_append (ns ms : List Node) :
    subnodesAmong (ns ++ ms) = subnodesAmong ns ++ subnodesAmong ms := by
  induction ns with
  | nil => rfl
  | cons n ns ih =>
    rw [List.cons_append, subnodesAmong, ih, subnodesAmong, List.append_assoc]

/-- Something is so at every node inside of a node if it is so at the node and
inside of its children. -/
theorem all_subnodes_node {p : Kind → List Node → Bool} {k : Kind}
    {s : Option Span} {ns : List Node} :
    ((subnodes (.node k s ns)).all fun m => p m.kind m.children) = true ↔
      p k ns = true ∧
      ∀ n ∈ ns, ((subnodes n).all fun m => p m.kind m.children) = true := by
  simp only [subnodes, List.all_cons, Bool.and_eq_true, Node.kind_node,
    Node.children_node, List.all_eq_true, mem_subnodesAmong]
  refine and_congr_right fun _ => ⟨fun h n hn m hm => h m ⟨n, hn, hm⟩, ?_⟩
  rintro h m ⟨n, hn, hm⟩
  exact h n hn m hm

/-- The nodes inside of a node are those that stand in it. -/
theorem mem_subnodes {m n : Node} : m ∈ subnodes n ↔ Occurs m n := by
  induction n using Node.induct with
  | step k s ns ih =>
    rw [subnodes, List.mem_cons, mem_subnodesAmong]
    constructor
    · rintro (rfl | ⟨c, hc, inside⟩)
      · exact .here
      · exact .inside hc ((ih c hc).1 inside)
    · intro h
      cases h with
      | here => exact .inl rfl
      | inside hc h => exact .inr ⟨_, hc, (ih _ hc).2 h⟩

end NullGuard.Scope
