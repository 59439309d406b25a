import NullGuard.Proofs.Occurrences

/-!
# The scopes around an identifier

Which scopes stand around an identifier can be read off the nodes around it.
Some kinds of nodes open a scope (`opens`). Most children of such a node are
in its scope, but the key of a method is in front of it (`isOutside`), and a
block that is the body of a function has no scope besides that of the function
(`joins`). A scope is named by the way to the node that opens it, so it does
not matter in which order the scopes are come to. `surrounded` goes through a
program with these three rules and lists its scopes and the identifiers that do
something, each with the scopes around it.

The outline of a program has scopes of its own making. `covers_outline` says
that they are the same: in a script one can assign a node to every scope of the
outline so that the outline has the scopes and identifiers of the program, each
as often as the program, and each with the same scopes around it. The proof
goes from the parts of a node to the node. In the middle of a program the
outline of a pattern is ahead of the list by the names that the node around the
pattern accounts for (`pending`).
-/

namespace NullGuard.Scope

open NullGuard.Text (Span)
open NullGuard.Tree

/-- A scope of a program: what it belongs to, and the way from the program to
the node that opens it, as positions among children with the last one first. -/
structure Place where
  kind : ScopeKind
  way : List Nat
deriving DecidableEq, Repr, Inhabited

/-- The program itself. -/
def Place.program : Place :=
  ⟨.program, []⟩

/-- The scope that a node of a program without types opens. -/
def opens (k : Kind) (ns : List Node) : Option ScopeKind :=
  match k with
  | .function _ _ | .arrow _ | .constructor _ | .getterProp | .setterProp =>
    some .function
  | .staticBlock => some .staticBlock
  | .block | .forStmt | .forIn | .forOf _ | .switchStmt => some .block
  | .catchClause => some .catch
  | .fnExpr => if (child ns 0).isNone then none else some .namedFunction
  | .classExpr => if (child ns 0).isNone then none else some .class
  | _ => none

/-- Whether a child stands in front of the scope that its parent opens: the key
of a method, and the value that a `switch` looks at. -/
def isOutside (k : Kind) (i : Nat) : Bool :=
  match k with
  | .constructor _ | .getterProp | .setterProp | .switchStmt => i == 0
  | _ => false

/-- Whether a child opens no scope where it stands, although others of its kind
do: a block that is the body of a function, of a static block or of a `catch`,
and a function or a class that is exported as the default. -/
def joins (k : Kind) (i : Nat) (inner : Kind) : Bool :=
  match k with
  | .function _ _ | .constructor _ | .getterProp => i == 2 && inner == .block
  | .arrow _ | .catchClause => i == 1 && inner == .block
  | .setterProp => i == 3 && inner == .block
  | .staticBlock => i == 0 && inner == .block
  | .exportDefaultDecl => inner == .fnExpr || inner == .classExpr
  | _ => false

/-- Something in a program, and the scopes around it, innermost first. It is an
identifier that does something, or else the innermost of the scopes itself. -/
structure Surrounded where
  what : Option Occurrence
  around : List Place
deriving DecidableEq, Repr

/-- Identifiers that have the same scopes around them. -/
def standing (around : List Place) (os : List Occurrence) : List Surrounded :=
  os.map fun o => ⟨some o, around⟩

/-- The scopes around what is in a node, where the node may open one. -/
def scopesWithin (opened : Option ScopeKind) (way : List Nat)
    (around : List Place) : List Place :=
  match opened with
  | some kind => ⟨kind, way⟩ :: around
  | none => around

/-- The scope that a node may open. -/
def opening (opened : Option ScopeKind) (way : List Nat) (around : List Place) :
    List Surrounded :=
  match opened with
  | some kind => [⟨none, ⟨kind, way⟩ :: around⟩]
  | none => []

mutual

/-- The scopes in a piece of a program and the identifiers in it that do
something, where `way` leads to the piece and `around` are the scopes around it.
It opens a scope only if that is its `own`. -/
def surrounded (own : Bool) (way : List Nat) (around : List Place) :
    Node → List Surrounded
  | .node k s ns =>
    let opened := if own then opens k ns else none
    opening opened way around ++
      (standing (scopesWithin opened way around) (given k s ns) ++
        surroundedAmong k way around (scopesWithin opened way around) 0 ns)

/-- The scopes and identifiers in the children of a node, from a position on,
where the scopes `outer` are around the node and `inner` are those in it. -/
def surroundedAmong (k : Kind) (way : List Nat) (outer inner : List Place)
    (i : Nat) : List Node → List Surrounded
  | [] => []
  | n :: ns =>
    surrounded (!joins k i n.kind) (i :: way)
        (if isOutside k i then outer else inner) n ++
      surroundedAmong k way outer inner (i + 1) ns

end

/-- The scopes of a program and the identifiers in it that do something. -/
def surroundings (n : Node) : List Surrounded :=
  ⟨none, [.program]⟩ :: surrounded true [] [.program] n

/-- The scope that is opened, if it is one. -/
def Surrounded.opened? (d : Surrounded) : Option Place :=
  match d.what with
  | none => d.around.head?
  | some _ => none

/-- The scopes of a program. -/
def scopesOf (n : Node) : List Place :=
  (surroundings n).filterMap Surrounded.opened?

/-- Outlines give the scopes and identifiers of a program if each of their
scopes is named by some way. -/
inductive Laid : List Place → List Outline → List Surrounded → Prop
  | nil {around : List Place} : Laid around [] []
  | leaf {around : List Place} {o : Outline} {os : List Outline}
      {ds : List Surrounded} (isLeaf : o.isLeaf = true)
      (rest : Laid around os ds) :
      Laid around (o :: os) (standing around (recorded o) ++ ds)
  | scope {around : List Place} {kind : ScopeKind} {inside os : List Outline}
      {ds es : List Surrounded} (way : List Nat)
      (inner : Laid (⟨kind, way⟩ :: around) inside ds)
      (rest : Laid around os es) :
      Laid around (.scope kind inside :: os)
        (⟨none, ⟨kind, way⟩ :: around⟩ :: (ds ++ es))

/-- Outlines give some scopes and identifiers in some order. -/
def Covers (around : List Place) (os : List Outline) (ds : List Surrounded) :
    Prop :=
  ∃ es, Laid around os es ∧ es.Perm ds

/-- What a node says about names covers the scopes and identifiers in it, and
the identifiers that the node around it says something about. -/
def Covered (m : String) (n : Node) : Prop :=
  ∀ c way around, Fits c n → Covers around (said m c n)
    (surrounded true way around n ++ standing around (pending c n))

/-- The children of nodes of a kind are all in the scope of the node, and open
scopes as nodes of their kinds do. -/
structure Uniform (k : Kind) : Prop where
  apart : ∀ i inner, joins k i inner = false
  behind : ∀ i, isOutside k i = false

section Lists

variable {k : Kind} {s : Option Span} {n : Node} {ns : List Node} {own : Bool}
  {way : List Nat} {around outer inner : List Place} {kind : ScopeKind}

@[simp] theorem standing_nil (around : List Place) : standing around [] = [] :=
  rfl

@[simp] theorem standing_append (around : List Place)
    (os os' : List Occurrence) :
    standing around (os ++ os') = standing around os ++ standing around os' :=
  List.map_append

theorem surrounded_closed (closed : opens k ns = none) :
    surrounded own way around (.node k s ns) = standing around (given k s ns) ++
      surroundedAmong k way around around 0 ns := by
  cases own
  · rfl
  · rw [surrounded, if_pos rfl, closed]
    rfl

theorem surrounded_open (opened : opens k ns = some kind) :
    surrounded true way around (.node k s ns) =
      [⟨none, ⟨kind, way⟩ :: around⟩] ++
        (standing (⟨kind, way⟩ :: around) (given k s ns) ++
          surroundedAmong k way around (⟨kind, way⟩ :: around) 0 ns) := by
  rw [surrounded, if_pos rfl, opened]
  rfl

/-- The scopes and identifiers in the child at a position of a node. -/
def surroundedAt (k : Kind) (way : List Nat) (outer inner : List Place)
    (ns : List Node) (i : Nat) : List Surrounded :=
  surrounded (!joins k i (child ns i).kind) (i :: way)
    (if isOutside k i then outer else inner) (child ns i)

theorem surroundedAmong_drop (ns : List Node) (i : Nat) :
    surroundedAmong k way outer inner i (ns.drop i) =
      surroundedAt k way outer inner ns i ++
        surroundedAmong k way outer inner (i + 1) (ns.drop (i + 1)) := by
  rcases Nat.lt_or_ge i ns.length with bound | beyond
  · have here : child ns i = ns[i] := by
      rw [child, List.getD_eq_getElem?_getD, List.getElem?_eq_getElem bound,
        Option.getD_some]
    rw [List.drop_eq_getElem_cons bound, surroundedAmong, surroundedAt, here]
  · have missing : child ns i = .none := by
      rw [child, List.getD_eq_getElem?_getD, List.getElem?_eq_none beyond,
        Option.getD_none]
    have nothing (own : Bool) (way : List Nat) (around : List Place) :
        surrounded own way around .none = [] := by
      cases own <;> rfl
    rw [List.drop_eq_nil_of_le beyond, List.drop_eq_nil_of_le (by omega),
      surroundedAt, missing, nothing]
    rfl

/-- Where no node opens a scope or says anything, there is nothing. -/
theorem surrounded_silent {p : Kind → Bool}
    (all : ((subnodes n).all fun m => p m.kind) = true)
    (silent : ∀ k s ns, p k = true → given k s ns = [] ∧ opens k ns = none)
    (own : Bool) (way : List Nat) (around : List Place) :
    surrounded own way around n = [] := by
  induction n using Node.induct generalizing own way around with
  | step k s ns ih =>
    obtain ⟨here, below⟩ :=
      (all_subnodes_node (p := fun k (_ : List Node) => p k)).1 all
    obtain ⟨nothing, closed⟩ := silent k s ns here
    have among (i : Nat) : surroundedAmong k way around around i ns = [] := by
      clear nothing closed all
      induction ns generalizing i with
      | nil => rfl
      | cons n ns among =>
        rw [surroundedAmong,
          ih n List.mem_cons_self (below n List.mem_cons_self), List.nil_append]
        exact among (fun n hn => ih n (List.mem_cons_of_mem _ hn))
          (fun n hn => below n (List.mem_cons_of_mem _ hn)) (i + 1)
    rw [surrounded_closed closed, nothing, among]
    rfl

theorem surrounded_inert (inert : isInert n = true) :
    surrounded own way around n = [] := by
  refine surrounded_silent inert (fun k s ns isPart => ?_) own way around
  cases k
  all_goals first
    | exact ⟨rfl, rfl⟩
    | cases isPart

theorem surrounded_attributes (attributes : isAttributes n = true) :
    surrounded own way around n = [] := by
  refine surrounded_silent attributes (fun k s ns isPart => ?_) own way around
  cases k
  all_goals first
    | exact ⟨rfl, rfl⟩
    | cases isPart

theorem surrounded_missing (missing : isMissing n = true) :
    surrounded own way around n = [] := by
  unfold isMissing at missing
  split at missing
  · cases own <;> rfl
  · cases missing

theorem surroundedAmong_missing (missing : ns.all isMissing = true) (i : Nat) :
    surroundedAmong k way outer inner i ns = [] := by
  induction ns generalizing i with
  | nil => rfl
  | cons n ns ih =>
    obtain ⟨first, rest⟩ := Bool.and_eq_true_iff.1 missing
    rw [surroundedAmong, surrounded_missing first, ih rest]
    rfl

/-- Where nothing stands behind the first children, these have all there is. -/
theorem surroundedAmong_first (j : Nat)
    (ends : (ns.drop j).all isMissing = true) :
    surroundedAmong k way outer inner 0 ns =
      (List.range j).flatMap (surroundedAt k way outer inner ns) := by
  have split (j : Nat) : surroundedAmong k way outer inner 0 ns =
      (List.range j).flatMap (surroundedAt k way outer inner ns) ++
        surroundedAmong k way outer inner j (ns.drop j) := by
    induction j with
    | zero => rfl
    | succ j ih =>
      rw [List.range_succ, List.flatMap_append, List.append_assoc,
        List.flatMap_singleton, ← surroundedAmong_drop, ih]
  rw [split j, surroundedAmong_missing ends, List.append_nil]

/-- There is nothing in specifiers, sources and attributes. -/
theorem surroundedAmong_specifiers (inert : (ns.take 2).all isInert = true)
    (attributes : isAttributes (child ns 2) = true)
    (ends : (ns.drop 3).all isMissing = true) :
    surroundedAmong k way outer inner 0 ns = [] := by
  rw [surroundedAmong_first 3 ends, List.flatMap_eq_nil_iff]
  intro i hi
  have bound := List.mem_range.1 hi
  rcases Nat.lt_or_ge i 2 with front | third
  · exact surrounded_inert (all_take_child rfl front inert)
  · obtain rfl : i = 2 := by omega
    exact surrounded_attributes attributes

/-- A word says nothing of itself. -/
theorem surrounded_word (script : isScript n = true) (word : isWord n = true) :
    surrounded own way around n = [] := by
  obtain ⟨k, s, ns⟩ := n
  have ends := (scripted_of_isScript script).ends
  unfold isWord at word
  split at word
  · rename_i x isName
    cases isName
    have nothing : ns.all isMissing = true := ends
    rw [surrounded_closed rfl, surroundedAmong_missing nothing]
    rfl
  · exact surrounded_missing word

/-- The identifiers in a node are those that do something by the grammar. -/
theorem filterMap_what_surrounded (own : Bool) (way : List Nat)
    (around : List Place) :
    (surrounded own way around n).filterMap Surrounded.what =
      occurrences n := by
  induction n using Node.induct generalizing own way around with
  | step k s ns ih =>
    have names (os : List Occurrence) (around : List Place) :
        (standing around os).filterMap Surrounded.what = os := by
      rw [standing, List.filterMap_map]
      exact List.filterMap_some
    have noName (opened : Option ScopeKind) :
        (opening opened way around).filterMap Surrounded.what = [] := by
      cases opened <;> rfl
    have among (outer inner : List Place) (i : Nat) :
        (surroundedAmong k way outer inner i ns).filterMap Surrounded.what =
          occurrencesAmong ns := by
      induction ns generalizing i with
      | nil => rfl
      | cons n ns among =>
        rw [surroundedAmong, List.filterMap_append, ih n List.mem_cons_self,
          among (fun n hn => ih n (List.mem_cons_of_mem _ hn)),
          occurrencesAmong, occurrencesAmong, List.flatMap_cons]
    rw [surrounded, List.filterMap_append, List.filterMap_append, noName, names,
      among, occurrences_node, List.nil_append]

theorem filterMap_opened_standing (around : List Place) (os : List Occurrence) :
    (standing around os).filterMap Surrounded.opened? = [] := by
  rw [standing, List.filterMap_map]
  exact List.filterMap_eq_nil_iff.2 fun _ _ => rfl

theorem filterMap_opened_scope (p : Place) (around : List Place)
    (ds es : List Surrounded) :
    (⟨none, p :: around⟩ :: (ds ++ es)).filterMap Surrounded.opened? =
      p :: (ds.filterMap Surrounded.opened? ++
        es.filterMap Surrounded.opened?) := by
  rw [← List.filterMap_append]
  rfl

/-- The scopes in the children of a node are named by ways that come through the
node and one of the children, and no scope is named twice. -/
theorem ways_surroundedAmong (k : Kind) (way : List Nat)
    (outer inner : List Place)
    (each : ∀ n ∈ ns, ∀ (own : Bool) (way : List Nat) (around : List Place),
      (∀ p ∈ (surrounded own way around n).filterMap Surrounded.opened?,
        way <:+ p.way) ∧
      ((surrounded own way around n).filterMap Surrounded.opened?).Nodup)
    (i : Nat) :
    (∀ p ∈ (surroundedAmong k way outer inner i ns).filterMap
        Surrounded.opened?, ∃ j, i ≤ j ∧ (j :: way) <:+ p.way) ∧
      ((surroundedAmong k way outer inner i ns).filterMap
        Surrounded.opened?).Nodup := by
  induction ns generalizing i with
  | nil => exact ⟨nofun, List.nodup_nil⟩
  | cons n ns ih =>
    obtain ⟨here, distinct⟩ := each n List.mem_cons_self (!joins k i n.kind)
      (i :: way) (if isOutside k i then outer else inner)
    obtain ⟨there, distinct'⟩ :=
      ih (fun n hn => each n (List.mem_cons_of_mem _ hn)) (i + 1)
    rw [surroundedAmong, List.filterMap_append, List.nodup_append]
    refine ⟨fun p hp => ?_, distinct, distinct', fun p hp q hq same => ?_⟩
    · rcases List.mem_append.1 hp with first | rest
      · exact ⟨i, Nat.le_refl i, here p first⟩
      · obtain ⟨j, behind, through⟩ := there p rest
        exact ⟨j, Nat.le_of_succ_le behind, through⟩
    · obtain ⟨j, behind, through⟩ := there q hq
      rw [← same] at through
      have parallel := (List.suffix_of_suffix_length_le (here p hp) through
        (Nat.le_refl _)).eq_of_length rfl
      have := (List.cons.inj parallel).1
      omega

/-- What is named by a way through a child of a node is not the node. -/
theorem way_ne_of_child {p : Place} {j : Nat} (through : (j :: way) <:+ p.way) :
    p.way ≠ way := by
  intro same
  have := through.length_le
  rw [same, List.length_cons] at this
  omega

/-- A scope in a node is named by a way that comes through the node, and no
scope is named twice. -/
theorem ways_surrounded (own : Bool) (way : List Nat) (around : List Place) :
    (∀ p ∈ (surrounded own way around n).filterMap Surrounded.opened?,
        way <:+ p.way) ∧
      ((surrounded own way around n).filterMap Surrounded.opened?).Nodup := by
  induction n using Node.induct generalizing own way around with
  | step k s ns ih =>
    rw [surrounded, List.filterMap_append, List.filterMap_append,
      filterMap_opened_standing, List.nil_append]
    generalize (if own then opens k ns else none) = opened
    obtain ⟨through, distinct⟩ := ways_surroundedAmong k way around
      (scopesWithin opened way around) ih 0
    have below (p : Place)
        (hp : p ∈ (surroundedAmong k way around (scopesWithin opened way around)
          0 ns).filterMap Surrounded.opened?) : way <:+ p.way :=
      let ⟨j, _, suffix⟩ := through p hp
      (List.suffix_cons j way).trans suffix
    cases opened with
    | none => exact ⟨below, distinct⟩
    | some kind =>
      refine ⟨List.forall_mem_cons.2 ⟨List.suffix_refl way, below⟩,
        List.nodup_cons.2 ⟨fun again => ?_, distinct⟩⟩
      obtain ⟨j, -, suffix⟩ := through _ again
      exact way_ne_of_child suffix rfl

/-- **No scope of a program is named twice.** -/
theorem nodup_scopesOf (program : isProgram n.kind = true) :
    (scopesOf n).Nodup := by
  obtain ⟨k, s, ns⟩ := n
  have closed : opens k ns = none := by
    cases k
    all_goals first
      | rfl
      | cases program
  obtain ⟨through, distinct⟩ := ways_surroundedAmong k [] [.program]
    [.program] (fun n (_ : n ∈ ns) => ways_surrounded) 0
  have below : scopesOf (.node k s ns) =
      .program :: (surroundedAmong k [] [.program] [.program] 0 ns).filterMap
        Surrounded.opened? := by
    rw [scopesOf, surroundings, surrounded_closed closed, List.filterMap_cons,
      List.filterMap_append, filterMap_opened_standing]
    rfl
  rw [below, List.nodup_cons]
  refine ⟨fun again => ?_, distinct⟩
  obtain ⟨j, -, suffix⟩ := through _ again
  exact way_ne_of_child suffix rfl

end Lists

section Covering

variable {m : String} {k : Kind} {s : Option Span} {n : Node} {ns : List Node}
  {c : Context} {around : List Place} {os os' : List Outline}
  {ds es : List Surrounded} {kind : ScopeKind}

theorem Laid.append (h : Laid around os ds) (h' : Laid around os' es) :
    Laid around (os ++ os') (ds ++ es) := by
  induction h with
  | nil => exact h'
  | leaf isLeaf _ ih =>
    rw [List.append_assoc]
    exact .leaf isLeaf (ih h')
  | scope way inner _ _ ih =>
    rw [List.cons_append, List.cons_append, List.append_assoc]
    exact .scope way inner (ih h')

/-- What outlines give is what they record. -/
theorem Laid.recorded (h : Laid around os ds) :
    ds.filterMap Surrounded.what = recordedAll os := by
  induction h with
  | nil => rfl
  | leaf isLeaf _ ih =>
    have names (os : List Occurrence) (around : List Place) :
        (standing around os).filterMap Surrounded.what = os := by
      rw [standing, List.filterMap_map]
      exact List.filterMap_some
    rw [List.filterMap_append, names, ih, recordedAll]
  | scope way _ _ inner ih =>
    rw [List.filterMap_cons, List.filterMap_append, inner, ih, recordedAll,
      Scope.recorded]

theorem laid_leaves (leaves : ∀ o ∈ os, o.isLeaf = true) :
    Laid around os (standing around (recordedAll os)) := by
  induction os with
  | nil => exact .nil
  | cons o os ih =>
    rw [recordedAll, standing_append]
    exact .leaf (leaves o List.mem_cons_self)
      (ih fun o ho => leaves o (List.mem_cons_of_mem _ ho))

/-- There is one way to lay outlines without scopes. -/
theorem Laid.eq_standing (h : Laid around os ds)
    (leaves : ∀ o ∈ os, o.isLeaf = true) :
    ds = standing around (recordedAll os) := by
  induction h with
  | nil => rfl
  | leaf _ _ ih =>
    rw [ih fun o ho => leaves o (List.mem_cons_of_mem _ ho), recordedAll,
      standing_append]
  | scope => cases leaves _ List.mem_cons_self

namespace Covers

theorem perm (h : Covers around os ds) (same : ds.Perm es) :
    Covers around os es :=
  let ⟨laid, isLaid, perm⟩ := h
  ⟨laid, isLaid, perm.trans same⟩

/-- It is enough to compare how often everything is there. -/
theorem of_count (h : Covers around os ds)
    (same : ∀ d, ds.count d = es.count d) : Covers around os es :=
  h.perm (List.perm_iff_count.2 same)

theorem append (h : Covers around os ds) (h' : Covers around os' es) :
    Covers around (os ++ os') (ds ++ es) :=
  let ⟨_, laid, perm⟩ := h
  let ⟨_, laid', perm'⟩ := h'
  ⟨_, laid.append laid', perm.append perm'⟩

theorem leaves (leaves : ∀ o ∈ os, o.isLeaf = true) :
    Covers around os (standing around (recordedAll os)) :=
  ⟨_, laid_leaves leaves, .refl _⟩

/-- Outlines that record the same cover the same if they have no scopes. -/
theorem of_leaves (h : Covers around os ds) (leaves : ∀ o ∈ os, o.isLeaf = true)
    (leaves' : ∀ o ∈ os', o.isLeaf = true)
    (same : recordedAll os' = recordedAll os) : Covers around os' ds := by
  obtain ⟨es, laid, perm⟩ := h
  rw [laid.eq_standing leaves, ← same] at perm
  exact (Covers.leaves leaves').perm perm

/-- A scope of an outline is the one that a node opens. -/
theorem scope (way : List Nat) (h : Covers (⟨kind, way⟩ :: around) os ds) :
    Covers around [.scope kind os] ([⟨none, ⟨kind, way⟩ :: around⟩] ++ ds) := by
  obtain ⟨es, laid, perm⟩ := h
  exact ⟨_, .scope way laid .nil, (perm.append_right []).cons _ |>.trans
    (.of_eq (by rw [List.append_nil, List.singleton_append]))⟩

end Covers

theorem isLeaf_declare (kind : BindingKind) :
    ∀ o ∈ declare n kind, o.isLeaf = true := by
  unfold declare
  split <;> simp [Outline.isLeaf]

theorem isLeaf_refer (kind : ReferenceKind) :
    ∀ o ∈ refer n kind, o.isLeaf = true := by
  unfold refer
  split <;> simp [Outline.isLeaf]

theorem covers_declare (n : Node) (kind : BindingKind) :
    Covers around (declare n kind)
      (standing around (doing (.declares kind) (ownName n))) := by
  rw [← recordedAll_declare]
  exact .leaves (isLeaf_declare kind)

theorem covers_refer (n : Node) (kind : ReferenceKind) :
    Covers around (refer n kind)
      (standing around (doing .value (ownName n))) := by
  rw [← recordedAll_refer n kind]
  exact .leaves (isLeaf_refer kind)

/-- Naming the identifier that an expression is covers what the expression
covers. -/
theorem covers_bare {x : Node} (isBare : bareIdentifier? n = some x)
    (h : Covers around (said m c n) ds) (kind : ReferenceKind) :
    Covers around (refer x kind) ds := by
  rw [said_of_bareIdentifier? isBare] at h
  refine h.of_leaves (isLeaf_refer .read) (isLeaf_refer kind) ?_
  rw [recordedAll_refer, recordedAll_refer]

namespace Covered

/-- Where no names of patterns are asked for, an independent node covers what is
in it. -/
theorem reading (h : Covered m n) (independent : isDependent n = false)
    (mode : c.mode = .read) (way : List Nat) (around : List Place) :
    Covers around (said m c n) (surrounded true way around n) := by
  have covers := h c way around (.inl mode)
  rw [pending_read independent mode] at covers
  exact covers.perm (.of_eq (List.append_nil _))

/-- Where names are declared, a pattern moreover declares its names. -/
theorem declaring (h : Covered m n) (independent : isDependent n = false)
    (target : isTarget n = true) (c : Context) (kind : BindingKind)
    (way : List Nat) (around : List Place) :
    Covers around (said m (c.declaring kind) n)
      (surrounded true way around n ++
        standing around (doing (.declares kind) (targets n))) := by
  have covers := h (c.declaring kind) way around (.inr target)
  rwa [pending_eq independent] at covers

/-- Where names are assigned to, a pattern moreover uses its names. -/
theorem writing (h : Covered m n) (independent : isDependent n = false)
    (target : isTarget n = true) (c : Context) (way : List Nat)
    (around : List Place) :
    Covers around (said m c.writing n)
      (surrounded true way around n ++
        standing around (doing .value (targets n))) := by
  have covers := h c.writing way around (.inr target)
  rwa [pending_eq independent] at covers

end Covered

theorem covered_none : Covered m .none := by
  intro c way around _
  refine ⟨[], .nil, ?_⟩
  rw [pending_eq rfl]
  cases c.mode <;> exact .refl _

/-- Several children cover what is in them, if they are all in the scope of
their parent and open scopes as usual. -/
theorem covers_among (k : Kind) (way : List Nat) (outer around : List Place)
    (each : ∀ n ∈ ns, Covered m n) (fits : ∀ n ∈ ns, Fits c n)
    (uniform : Uniform k) (i : Nat) :
    Covers around (saidAmong m c ns)
      (surroundedAmong k way outer around i ns ++
        standing around (pendingAmong c ns)) := by
  induction ns generalizing i with
  | nil => exact ⟨[], .nil, .refl _⟩
  | cons n ns ih =>
    have first := each n List.mem_cons_self c (i :: way) around
      (fits n List.mem_cons_self)
    have rest := ih (fun n' hn' => each n' (List.mem_cons_of_mem _ hn'))
      (fun n' hn' => fits n' (List.mem_cons_of_mem _ hn')) (i + 1)
    rw [saidAmong, List.flatMap_cons, pendingAmong, List.flatMap_cons,
      surroundedAmong, uniform.apart, uniform.behind, standing_append]
    refine (first.append rest).of_count fun d => ?_
    simp only [List.count_append, pendingAmong, Bool.not_false,
      Bool.false_eq_true, if_false]
    omega

/-- A node of a script whose children cover what is in them, and theirs, too. -/
structure Ready (m : String) (k : Kind) (s : Option Span) (ns : List Node) :
    Prop where
  script : isScript (.node k s ns) = true
  isRegular : regular (.node k s ns) = true
  each : ∀ n ∈ ns, Covered m n ∧ ∀ n' ∈ n.children, Covered m n'

namespace Ready

variable {way : List Nat} {outer : List Place}

theorem scripted (h : Ready m k s ns) : Scripted k ns :=
  scripted_of_isScript h.script

theorem below (h : Ready m k s ns) : ∀ n ∈ ns, isScript n = true :=
  (isScript_node.1 h.script).2

theorem parts (h : Ready m k s ns) : regularParts k ns = true :=
  (regular_node.1 h.isRegular).1

theorem covered (h : Ready m k s ns) (i : Nat) :
    Covered m (child ns i) ∧
      ∀ n' ∈ (child ns i).children, Covered m n' := by
  rcases child_mem_or ns i with mem | none
  · exact h.each _ mem
  · rw [none]
    exact ⟨covered_none, nofun⟩

/-- Where no names are asked for, children that are all in the scope of their
parent cover what is in them. -/
theorem among (h : Ready m k s ns) (way : List Nat) (outer around : List Place)
    {ms : List Node} (sub : ∀ n ∈ ms, n ∈ ns)
    (independent : ∀ n ∈ ms, isDependent n = false) (mode : c.mode = .read)
    (uniform : Uniform k) (i : Nat) :
    Covers around (saidAmong m c ms)
      (surroundedAmong k way outer around i ms) := by
  have covers := covers_among k way outer around
    (fun n hn => (h.each n (sub n hn)).1) (fun _ _ => .inl mode) uniform i
  rw [pendingAmong_read independent mode] at covers
  exact covers.perm (.of_eq (List.append_nil _))

/-- A body covers what is in it, without a scope of its own if it is a block. -/
theorem body (h : Ready m k s ns) (i : Nat)
    (independent : isDependent (child ns i) = false) (mode : c.mode = .read)
    (way : List Nat) (around : List Place) :
    Covers around (bodyOutline (toPart m (child ns i)) c)
      (surrounded (!((child ns i).kind == .block)) way around
        (child ns i)) := by
  have script := isScript_child h.below i
  have covered := h.covered i
  generalize child ns i = n at *
  unfold bodyOutline
  split
  · rename_i isBlock
    obtain ⟨k, s, ns⟩ := n
    rw [node_toPart] at isBlock
    cases isBlock
    have all := covers_among .block way around around covered.2
      (fun _ _ => .inl mode) ⟨fun _ _ => rfl, fun _ => rfl⟩ 0
    rw [Node.children_node, pendingAmong_read
      ((scripted_of_isScript script).independent rfl rfl) mode] at all
    rw [parts_toPart, outlines_toParts]
    exact all.perm (.of_eq (List.append_nil _))
  · rename_i noBlock
    rw [node_toPart] at noBlock
    have own : (n.kind == .block) = false := beq_eq_false_iff_ne.2 noBlock
    rw [own]
    exact covered.1.reading independent mode way around

end Ready

/-- Without a scope and with all children on one footing, a node covers what is
in it if they do. -/
theorem Ready.same {way : List Nat} (h : Ready m k s ns) (mode : c.mode = .read)
    (independent : ∀ n ∈ ns, isDependent n = false) (closed : opens k ns = none)
    (silent : given k s ns = []) (uniform : Uniform k) :
    Covers around (saidAmong m c ns)
      (surrounded true way around (.node k s ns)) := by
  have all := h.among way around around (fun _ => id) independent mode uniform 0
  rwa [surrounded_closed closed, silent]

theorem isLeaf_flatMap {α : Type} {l : List α} {f : α → List Outline}
    (each : ∀ a ∈ l, ∀ o ∈ f a, o.isLeaf = true) :
    ∀ o ∈ l.flatMap f, o.isLeaf = true := by
  intro o ho
  obtain ⟨a, ha, here⟩ := List.mem_flatMap.1 ho
  exact each a ha o here

theorem isLeaf_importOutline (typeOnly : Bool) (specifiers source : Node) :
    ∀ o ∈ importOutline m typeOnly s specifiers source, o.isLeaf = true := by
  have names : ∀ o ∈ importedNames specifiers.children, o.isLeaf = true :=
    isLeaf_flatMap fun q _ => isLeaf_flatMap fun n _ => isLeaf_declare .imported
  obtain ⟨-, same⟩ | ⟨-, ⟨here, x, -, -, same⟩ | same | ⟨e, -, same⟩⟩ :=
    importOutline_cases m typeOnly s specifiers source
  all_goals rw [same]
  · exact names
  · exact List.forall_mem_singleton.2 rfl
  · exact nofun
  · exact List.forall_mem_cons.2 ⟨rfl, names⟩

theorem isLeaf_exportOutline (specifiers source : Node) :
    ∀ o ∈ exportOutline specifiers source, o.isLeaf = true := by
  unfold exportOutline
  split
  · refine isLeaf_flatMap fun q _ => ?_
    split
    · exact isLeaf_refer .read
    · exact nofun
  · exact nofun

section Cases

variable {way : List Nat}

/-- An import declares the names of its specifiers. -/
theorem covers_importDecl {a : Bool} (h : Ready m (.importDecl a) s ns) :
    Covers around (said m c (.node (.importDecl a) s ns))
      (surrounded true way around (.node (.importDecl a) s ns)) := by
  have names : Covers around _ _ := .leaves
    (isLeaf_importOutline (m := m) (s := s) a (child ns 0) (child ns 1))
  have parts :
      surroundedAmong (.importDecl a) way around around 0 ns = [] :=
    surroundedAmong_specifiers h.scripted.sorted h.scripted.named
      h.scripted.ends
  rw [recordedAll_importOutline] at names
  rw [surrounded_closed rfl, parts, List.append_nil, said_node]
  simp only [outlineOf, part_toParts, node_toPart, given]
  exact names

/-- An export uses the values that its specifiers make visible. -/
theorem covers_exportNamed {a b : Bool} (h : Ready m (.exportNamed a b) s ns) :
    Covers around (said m c (.node (.exportNamed a b) s ns))
      (surrounded true way around (.node (.exportNamed a b) s ns)) := by
  have names : Covers around _ _ := .leaves
    (isLeaf_exportOutline (child ns 0) (child ns 1))
  have parts :
      surroundedAmong (.exportNamed a b) way around around 0 ns = [] :=
    surroundedAmong_specifiers h.scripted.sorted h.scripted.named
      h.scripted.ends
  rw [recordedAll_exportOutline] at names
  rw [surrounded_closed rfl, parts, List.append_nil, said_node]
  simp only [outlineOf, part_toParts, node_toPart, given]
  exact names

/-- Declarations of variables declare the names of their declarators. -/
theorem covers_variables (h : Ready m k s ns) (isVars : isVariables k = true)
    (mode : c.mode = .read) :
    Covers around (said m c (.node k s ns))
      (surrounded true way around (.node k s ns)) := by
  have covers {kind : BindingKind} (closed : opens k ns = none)
      (declarators : ∀ n ∈ ns, isDeclarator n.kind = true)
      (uniform : Uniform k)
      (names : given k s ns = doing (.declares kind) (declaratorNames ns)) :
      Covers around (saidAmong m { c with varKind := kind } ns)
        (surrounded true way around (.node k s ns)) := by
    have all := covers_among (c := { c with varKind := kind }) k way around
      around (fun n hn => (h.each n hn).1)
      (fun _ _ => .inl mode) uniform 0
    rw [pendingAmong_declarators declarators] at all
    rw [surrounded_closed closed, names]
    exact all.perm List.perm_append_comm
  rw [said_node]
  cases k
  case varDecl word b =>
    have declarators := List.all_eq_true.1 h.scripted.sorted
    cases word <;> simp only [outlineOf, outlines_toParts] <;>
      exact covers rfl declarators ⟨fun _ _ => rfl, fun _ => rfl⟩ rfl
  case usingDecl b =>
    simp only [outlineOf, outlines_toParts]
    exact covers rfl (List.all_eq_true.1 h.scripted.named)
      ⟨fun _ _ => rfl, fun _ => rfl⟩ rfl
  all_goals cases isVars

/-- A declarator leaves it to the declaration around it to declare the names of
its pattern. -/
theorem covers_declarator {b : Bool} (h : Ready m (.declarator b) s ns)
    (mode : c.mode = .read) :
    Covers around (said m c (.node (.declarator b) s ns))
      (surrounded true way around (.node (.declarator b) s ns) ++ standing
      around (doing (.declares c.varKind) (targets (child ns 0)))) := by
  have independent := independent_child (h.scripted.independent rfl rfl)
  have names := (h.covered 0).1.declaring (independent 0) h.scripted.named c
    c.varKind (0 :: way) around
  have start := (h.covered 1).1.reading (independent 1) mode (1 :: way) around
  have parts : surroundedAmong (.declarator b) way around around 0 ns =
      surrounded true (0 :: way) around (child ns 0) ++
        (surrounded true (1 :: way) around (child ns 1) ++ []) :=
    surroundedAmong_first 2 h.scripted.ends
  have plain : Covers around
      (said m (c.declaring c.varKind) (child ns 0) ++ said m c (child ns 1))
      (surrounded true way around (.node (.declarator b) s ns) ++
        standing around
          (doing (.declares c.varKind) (targets (child ns 0)))) := by
    rw [surrounded_closed rfl, parts]
    refine (names.append start).of_count fun d => ?_
    simp only [given, standing_nil, List.count_append, List.count_nil]
    omega
  rw [said_node]
  simp only [outlineOf, part_toParts, declaratorOutline, node_toPart,
    outline_toPart]
  split
  · split
    · rename_i x b' isName
      have single : said m (c.declaring c.varKind) (child ns 0) =
          [.declaration x (child ns 0).span c.varKind] := by
        cases there : child ns 0 with
        | node k' s' ns' =>
          rw [there] at isName
          cases isName
          rfl
      rw [single] at plain
      obtain ⟨es, laid, perm⟩ := plain
      cases laid with
      | leaf _ rest => exact ⟨_, .leaf rfl rest, perm⟩
    · obtain ⟨es, laid, perm⟩ := plain
      exact ⟨_, .leaf rfl laid, perm⟩
  · exact plain

/-- What is declared under a name covers all that stands behind the name. -/
theorem covers_behindName {outer inner : List Place}
    (scripts : ∀ n ∈ ns, isScript n = true) (word : isWord (child ns 0) = true)
    (ends : (ns.drop 2).all isMissing = true) (uniform : Uniform k)
    (independent : isDependent (child ns 1) = false)
    (covered : Covered m (child ns 1)) (mode : c.mode = .read) :
    Covers inner (said m c (child ns 1))
      (surroundedAmong k way outer inner 0 ns) := by
  have rest := covered.reading independent mode (1 :: way) inner
  have name (own : Bool) (way : List Nat) (around : List Place) :
      surrounded own way around (child ns 0) = [] :=
    surrounded_word (isScript_child scripts 0) word
  have parts : surroundedAmong k way outer inner 0 ns =
      surroundedAt k way outer inner ns 0 ++
        (surroundedAt k way outer inner ns 1 ++ []) :=
    surroundedAmong_first 2 ends
  rw [surroundedAt, name, surroundedAt, uniform.apart, uniform.behind] at parts
  rw [parts, List.nil_append, List.append_nil]
  exact rest

/-- A declaration of a name and of what stands behind the name. -/
theorem covers_named {outer inner : List Place} {kind : BindingKind}
    (name : given k s ns = doing (.declares kind) (ownName (child ns 0)))
    (behind : Covers inner (said m c (child ns 1))
      (surroundedAmong k way outer inner 0 ns)) :
    Covers inner (declare (child ns 0) kind ++ said m c (child ns 1))
      (standing inner (given k s ns) ++
        surroundedAmong k way outer inner 0 ns) := by
  rw [name]
  exact (covers_declare _ _).append behind

/-- Functions and classes declare their names where they stand. -/
theorem covers_declaration (h : Ready m k s ns)
    (declares : (∃ b, k = .fnDecl b) ∨ ∃ b, k = .classDecl b)
    (mode : c.mode = .read) :
    Covers around (said m c (.node k s ns))
      (surrounded true way around (.node k s ns)) := by
  have here := h.scripted
  rw [said_node]
  obtain ⟨b, rfl⟩ | ⟨b, rfl⟩ := declares
  all_goals
    have independent := independent_child (here.independent rfl rfl) 1
    simp only [outlineOf, part_toParts, node_toPart, outline_toPart]
    rw [surrounded_closed rfl]
    exact covers_named rfl (covers_behindName h.below here.named here.ends
      ⟨fun _ _ => rfl, fun _ => rfl⟩ independent (h.covered 1).1 mode)

/-- Functions and classes in expressions have their names to themselves. -/
theorem covers_ownScope (h : Ready m k s ns)
    (names : k = .fnExpr ∨ k = .classExpr) (mode : c.mode = .read) :
    Covers around (said m c (.node k s ns))
      (surrounded true way around (.node k s ns)) := by
  have covers {scope : ScopeKind} {kind : BindingKind}
      (opened : opens k ns = if (child ns 0).isNone then none else some scope)
      (name : given k s ns = doing (.declares kind) (ownName (child ns 0)))
      (behind : ∀ (c : Context) (inner : List Place), c.mode = .read →
        Covers inner (said m c (child ns 1))
          (surroundedAmong k way around inner 0 ns)) :
      Covers around
        (ownScope (toPart m (child ns 0)) scope kind (toPart m (child ns 1)) c)
        (surrounded true way around (.node k s ns)) := by
    unfold ownScope
    rw [node_toPart]
    split
    · rename_i isNone
      rw [if_pos isNone] at opened
      rw [surrounded_closed opened, name, ownName_of_isNone isNone]
      exact behind c around mode
    · rename_i isSome
      rw [if_neg isSome] at opened
      rw [surrounded_open opened]
      exact .scope way (covers_named name (behind c.inScope _ rfl))
  have here := h.scripted
  rw [said_node]
  obtain rfl | rfl := names
  all_goals
    have independent := independent_child (here.independent rfl rfl) 1
    simp only [outlineOf, part_toParts]
    exact covers rfl rfl fun c inner mode =>
      covers_behindName h.below here.named here.ends
        ⟨fun _ _ => rfl, fun _ => rfl⟩ independent (h.covered 1).1 mode

/-- A function or class that is exported as the default declares its name where
the export stands. -/
theorem covers_exportDefaultDecl (h : Ready m .exportDefaultDecl s ns)
    (mode : c.mode = .read) :
    Covers around (said m c (.node .exportDefaultDecl s ns))
      (surrounded true way around (.node .exportDefaultDecl s ns)) := by
  have script := isScript_child h.below 0
  have inside := (h.covered 0).2
  have sorted := h.scripted.sorted
  have parts : surroundedAmong .exportDefaultDecl way around around 0 ns =
      surroundedAt .exportDefaultDecl way around around ns 0 ++ [] :=
    surroundedAmong_first 1 h.scripted.ends
  rw [sortedAt, Bool.or_eq_true, beq_iff_eq, beq_iff_eq] at sorted
  rw [surrounded_closed rfl, parts, List.append_nil, surroundedAt, said_node]
  simp only [outlineOf, part_toParts, node_toPart, parts_toPart, outline_toPart]
  cases there : child ns 0 with
  | node k' s' ns' =>
    rw [there] at script inside sorted
    have here := scripted_of_isScript script
    have covered : Covered m (child ns' 1) := by
      rcases child_mem_or ns' 1 with mem | none
      · exact inside _ mem
      · rw [none]
        exact covered_none
    rcases sorted with rfl | rfl
    all_goals
      have independent := independent_child (here.independent rfl rfl) 1
      exact covers_named (s := s') rfl
        (covers_behindName (isScript_node.1 script).2 here.named here.ends
          ⟨fun _ _ => rfl, fun _ => rfl⟩ independent covered mode)

/-- A sequence of parameters declares the names in it. -/
theorem Ready.parameters (h : Ready m k s ns) {i : Nat}
    (isList : ∀ q, ns[i]? = some q → isSequence q = true)
    (independent : isDependent (child ns i) = false)
    (target : isTarget (child ns i) = true) (c : Context) (way : List Nat)
    (around : List Place) :
    Covers around (outlines (toPart m (child ns i)).parts (c.declaring .param))
      (surrounded true way around (child ns i) ++
        standing around (doing (.declares .param) (targets (child ns i)))) := by
  rw [parts_toPart, outlines_toParts, saidAmong_items isList]
  exact (h.covered i).1.declaring independent target c .param way around

/-- A function declares its parameters in a scope that its decorators and its
body are in, too. -/
theorem covers_functionOutline {decorators parameters body : Part}
    {ds ps bs : List Surrounded}
    (first : Covers (⟨.function, way⟩ :: around)
      (outlines decorators.parts c.inScope) ds)
    (second : Covers (⟨.function, way⟩ :: around)
      (outlines parameters.parts (c.inScope.declaring .param)) ps)
    (third : Covers (⟨.function, way⟩ :: around)
      (bodyOutline body c.inScope) bs) :
    Covers around (functionOutline decorators parameters body c)
      ([⟨none, ⟨.function, way⟩ :: around⟩] ++ (ds ++ (ps ++ bs))) :=
  .scope way (first.append (second.append third))

/-- Where there are no decorators or parameters, there is nothing to cover. -/
theorem covers_noParts (c : Context) :
    Covers around (outlines Scope.Part.none.parts c) [] :=
  ⟨[], .nil, .refl _⟩

theorem covers_function {a b : Bool} (h : Ready m (.function a b) s ns) :
    Covers around (said m c (.node (.function a b) s ns))
      (surrounded true way around (.node (.function a b) s ns)) := by
  have here := h.scripted
  have independent := independent_child (here.independent rfl rfl)
  have lists {i : Nat} (bound : i < 2) (q : Node) (hq : ns[i]? = some q) :
      isSequence q = true := List.all_eq_true.1 h.parts q
    (List.mem_of_getElem? ((List.getElem?_take_of_lt bound).trans hq))
  have parameters := h.parameters (lists Nat.zero_lt_two) (independent 0)
    here.named c.inScope (0 :: way) (⟨.function, way⟩ :: around)
  have decorators := (h.covered 1).1.reading (c := c.inScope)
    (independent 1) rfl (1 :: way) (⟨.function, way⟩ :: around)
  rw [← saidAmong_items (lists Nat.one_lt_two), ← outlines_toParts,
    ← parts_toPart] at decorators
  have body := h.body (c := c.inScope) 2 (independent 2) rfl (2 :: way)
    (⟨.function, way⟩ :: around)
  have parts : surroundedAmong (.function a b) way around
        (⟨.function, way⟩ :: around) 0 ns =
      surrounded true (0 :: way) (⟨.function, way⟩ :: around) (child ns 0) ++
        (surrounded true (1 :: way) (⟨.function, way⟩ :: around) (child ns 1) ++
          (surrounded (!((child ns 2).kind == .block)) (2 :: way)
            (⟨.function, way⟩ :: around) (child ns 2) ++ [])) :=
    surroundedAmong_first 3 here.ends
  rw [surrounded_open rfl, parts, said_node]
  simp only [outlineOf, part_toParts]
  refine (covers_functionOutline decorators parameters body).of_count fun d =>
    ?_
  simp only [List.count_append, List.count_nil, given]
  omega

theorem covers_arrow {a : Bool} (h : Ready m (.arrow a) s ns) :
    Covers around (said m c (.node (.arrow a) s ns))
      (surrounded true way around (.node (.arrow a) s ns)) := by
  have here := h.scripted
  have independent := independent_child (here.independent rfl rfl)
  have list (q : Node) (hq : ns[0]? = some q) : isSequence q = true :=
    List.all_eq_true.1 h.parts q (List.mem_of_getElem?
      ((List.getElem?_take_of_lt Nat.zero_lt_one).trans hq))
  have parameters := h.parameters list (independent 0) here.named c.inScope
    (0 :: way) (⟨.function, way⟩ :: around)
  have body := h.body (c := c.inScope) 1 (independent 1) rfl (1 :: way)
    (⟨.function, way⟩ :: around)
  have parts : surroundedAmong (.arrow a) way around
        (⟨.function, way⟩ :: around) 0 ns =
      surrounded true (0 :: way) (⟨.function, way⟩ :: around) (child ns 0) ++
        (surrounded (!((child ns 1).kind == .block)) (1 :: way)
          (⟨.function, way⟩ :: around) (child ns 1) ++ []) :=
    surroundedAmong_first 2 here.ends
  rw [surrounded_open rfl, parts, said_node]
  simp only [outlineOf, part_toParts]
  refine (covers_functionOutline (covers_noParts _) parameters
    body).of_count fun d => ?_
  simp only [List.count_append, List.count_nil, given]
  omega

/-- The key of a constructor stands in front of its scope. -/
theorem covers_constructor {a : Modifiers} (h : Ready m (.constructor a) s ns)
    (mode : c.mode = .read) :
    Covers around (said m c (.node (.constructor a) s ns))
      (surrounded true way around (.node (.constructor a) s ns)) := by
  have here := h.scripted
  have independent := independent_child (here.independent rfl rfl)
  have list (q : Node) (hq : ns[1]? = some q) : isSequence q = true :=
    List.all_eq_true.1 h.parts q (List.mem_of_getElem?
      ((List.getElem?_take_of_lt Nat.one_pos).trans
        (List.getElem?_drop.trans hq)))
  have key := (h.covered 0).1.reading (independent 0) mode (0 :: way) around
  have parameters := h.parameters list (independent 1) here.named c.inScope
    (1 :: way) (⟨.function, way⟩ :: around)
  have body := h.body (c := c.inScope) 2 (independent 2) rfl (2 :: way)
    (⟨.function, way⟩ :: around)
  have parts : surroundedAmong (.constructor a) way around
        (⟨.function, way⟩ :: around) 0 ns =
      surrounded true (0 :: way) around (child ns 0) ++
        (surrounded true (1 :: way) (⟨.function, way⟩ :: around) (child ns 1) ++
          (surrounded (!((child ns 2).kind == .block)) (2 :: way)
            (⟨.function, way⟩ :: around) (child ns 2) ++ [])) :=
    surroundedAmong_first 3 here.ends
  rw [surrounded_open rfl, parts, said_node]
  simp only [outlineOf, part_toParts, outline_toPart]
  refine (key.append (covers_functionOutline (covers_noParts _) parameters
    body)).of_count fun d => ?_
  simp only [List.count_append, List.count_nil, given]
  omega

/-- So does the key of a getter. -/
theorem covers_getterProp (h : Ready m .getterProp s ns)
    (mode : c.mode = .read) :
    Covers around (said m c (.node .getterProp s ns))
      (surrounded true way around (.node .getterProp s ns)) := by
  have here := h.scripted
  have independent := independent_child (here.independent rfl rfl)
  have key := (h.covered 0).1.reading (independent 0) mode (0 :: way) around
  have body := h.body (c := c.inScope) 2 (independent 2) rfl (2 :: way)
    (⟨.function, way⟩ :: around)
  have noType (around : List Place) :
      surrounded true (1 :: way) around (child ns 1) = [] :=
    surrounded_missing here.named
  have parts : surroundedAmong .getterProp way around
        (⟨.function, way⟩ :: around) 0 ns =
      surrounded true (0 :: way) around (child ns 0) ++
        (surrounded true (1 :: way) (⟨.function, way⟩ :: around) (child ns 1) ++
          (surrounded (!((child ns 2).kind == .block)) (2 :: way)
            (⟨.function, way⟩ :: around) (child ns 2) ++ [])) :=
    surroundedAmong_first 3 here.ends
  rw [surrounded_open rfl, parts, noType, said_node]
  simp only [outlineOf, part_toParts, outline_toPart]
  refine (key.append (covers_functionOutline (covers_noParts _)
    (covers_noParts _) body)).of_count fun d => ?_
  simp only [List.count_append, List.count_nil, given, standing_nil]
  omega

/-- And so does the key of a setter, which has its parameters one by one. -/
theorem covers_setterProp (h : Ready m .setterProp s ns)
    (mode : c.mode = .read) :
    Covers around (said m c (.node .setterProp s ns))
      (surrounded true way around (.node .setterProp s ns)) := by
  have here := h.scripted
  have independent := independent_child (here.independent rfl rfl)
  obtain ⟨this, pattern⟩ := Bool.and_eq_true_iff.1 here.named
  have key := (h.covered 0).1.reading (independent 0) mode (0 :: way) around
  have receiver := (h.covered 1).1.declaring (independent 1) this c.inScope
    .param (1 :: way) (⟨.function, way⟩ :: around)
  have parameter := (h.covered 2).1.declaring (independent 2) pattern c.inScope
    .param (2 :: way) (⟨.function, way⟩ :: around)
  have body := h.body (c := c.inScope) 3 (independent 3) rfl (3 :: way)
    (⟨.function, way⟩ :: around)
  have parts : surroundedAmong .setterProp way around (⟨.function, way⟩ ::
      around) 0 ns = surrounded true (0 :: way) around (child ns 0) ++
      (surrounded true (1 :: way) (⟨.function, way⟩ :: around) (child ns 1) ++
      (surrounded true (2 :: way) (⟨.function, way⟩ :: around) (child ns 2) ++
      (surrounded (!((child ns 3).kind == .block)) (3 :: way)
      (⟨.function, way⟩ :: around) (child ns 3) ++ []))) :=
    surroundedAmong_first 4 here.ends
  rw [surrounded_open rfl, parts, said_node]
  simp only [outlineOf, part_toParts, outline_toPart]
  refine (key.append (.scope way (receiver.append
    (parameter.append body)))).of_count fun d => ?_
  simp only [List.count_append, List.count_nil, given, standing_append,
    doing_append]
  omega

/-- A static block is a scope, and its statements stand in it. -/
theorem covers_staticBlock (h : Ready m .staticBlock s ns) :
    Covers around (said m c (.node .staticBlock s ns))
      (surrounded true way around (.node .staticBlock s ns)) := by
  have here := h.scripted
  have independent := independent_child (here.independent rfl rfl)
  have body := h.body (c := c.inScope) 0 (independent 0) rfl (0 :: way)
    (⟨.staticBlock, way⟩ :: around)
  have parts : surroundedAmong .staticBlock way around
        (⟨.staticBlock, way⟩ :: around) 0 ns =
      surrounded (!((child ns 0).kind == .block)) (0 :: way)
        (⟨.staticBlock, way⟩ :: around) (child ns 0) ++ [] :=
    surroundedAmong_first 1 here.ends
  rw [surrounded_open rfl, parts, said_node, List.append_nil]
  simp only [outlineOf, part_toParts]
  exact .scope way body

/-- What a `catch` catches is declared in the scope of its body. -/
theorem covers_catchClause (h : Ready m .catchClause s ns) :
    Covers around (said m c (.node .catchClause s ns))
      (surrounded true way around (.node .catchClause s ns)) := by
  have here := h.scripted
  have independent := independent_child (here.independent rfl rfl)
  have caught := (h.covered 0).1.declaring (independent 0) here.named c.inScope
    .lexical (0 :: way) (⟨.catch, way⟩ :: around)
  have body := h.body (c := c.inScope) 1 (independent 1) rfl (1 :: way)
    (⟨.catch, way⟩ :: around)
  have parts : surroundedAmong .catchClause way around
        (⟨.catch, way⟩ :: around) 0 ns =
      surrounded true (0 :: way) (⟨.catch, way⟩ :: around) (child ns 0) ++
        (surrounded (!((child ns 1).kind == .block)) (1 :: way)
          (⟨.catch, way⟩ :: around) (child ns 1) ++ []) :=
    surroundedAmong_first 2 here.ends
  rw [surrounded_open rfl, parts, said_node]
  simp only [outlineOf, part_toParts, outline_toPart]
  refine (Covers.scope way (caught.append body)).of_count fun d => ?_
  simp only [List.count_append, List.count_nil, given]
  omega

/-- Blocks and loops are scopes. -/
theorem covers_block (h : Ready m k s ns)
    (isBlock : k = .block ∨ k = .forStmt) :
    Covers around (said m c (.node k s ns))
      (surrounded true way around (.node k s ns)) := by
  have here := h.scripted
  rw [said_node]
  obtain rfl | rfl := isBlock
  all_goals
    simp only [outlineOf, outlines_toParts]
    rw [surrounded_open rfl]
    exact .scope way (h.among way _ _ (fun _ => id)
      (here.independent rfl rfl) rfl ⟨fun _ _ => rfl, fun _ => rfl⟩ 0)

/-- The head of a loop over a collection stands in the scope of the loop. -/
theorem covers_collectionLoop (h : Ready m k s ns)
    (isLoop : k = .forIn ∨ ∃ b, k = .forOf b) :
    Covers around (said m c (.node k s ns))
      (surrounded true way around (.node k s ns)) := by
  have here := h.scripted
  have covers (uniform : Uniform k) (opened : opens k ns = some .block)
      (independent : ∀ n ∈ ns, isDependent n = false)
      (named : isVariables (child ns 0).kind || isTarget (child ns 0))
      (names : given k s ns = if isVariables (child ns 0).kind then []
        else doing .value (targets (child ns 0))) :
      Covers around [.scope .block (headOutline
        (toPart m (child ns 0)) c.inScope ++ saidAmong m c.inScope (ns.drop 1))]
        (surrounded true way around (.node k s ns)) := by
    have rest := h.among (c := c.inScope) way around (⟨.block, way⟩ :: around)
      (fun _ => List.mem_of_mem_drop (l := ns) (i := 1))
      (fun n hn => independent n (List.mem_of_mem_drop hn)) rfl uniform 1
    have first := independent_child independent 0
    have parts : surroundedAmong k way around (⟨.block, way⟩ :: around) 0 ns =
        surrounded true (0 :: way) (⟨.block, way⟩ :: around) (child ns 0) ++
          surroundedAmong k way around (⟨.block, way⟩ :: around) 1
            (ns.drop 1) := by
      refine (surroundedAmong_drop ns 0).trans ?_
      rw [surroundedAt, uniform.apart, uniform.behind]
      rfl
    rw [surrounded_open opened, parts, names, headOutline_eq]
    split
    · rename_i isVars
      have head := (h.covered 0).1.reading (c := c.inScope) first rfl (0 :: way)
        (⟨.block, way⟩ :: around)
      exact .scope way (head.append rest)
    · rename_i noVars
      have target : isTarget (child ns 0) = true := by
        rw [Bool.not_eq_true] at noVars
        rwa [noVars, Bool.false_or] at named
      have head := (h.covered 0).1.writing first target c.inScope (0 :: way)
        (⟨.block, way⟩ :: around)
      refine .scope way ((head.append rest).of_count fun d => ?_)
      simp only [List.count_append]
      omega
  rw [said_node]
  obtain rfl | ⟨b, rfl⟩ := isLoop
  all_goals
    simp only [outlineOf, part_toParts, drop_toParts, outlines_toParts]
    exact covers ⟨fun _ _ => rfl, fun _ => rfl⟩ rfl (here.independent rfl rfl)
      here.named rfl

/-- What a `switch` looks at stands in front of the scope of its cases. -/
theorem covers_switchStmt (h : Ready m .switchStmt s ns)
    (mode : c.mode = .read) :
    Covers around (said m c (.node .switchStmt s ns))
      (surrounded true way around (.node .switchStmt s ns)) := by
  have here := h.scripted
  have independent := independent_child (here.independent rfl rfl)
  have value := (h.covered 0).1.reading (independent 0) mode (0 :: way) around
  have cases := (h.covered 1).1.reading (c := c.inScope) (independent 1) rfl
    (1 :: way) (⟨.block, way⟩ :: around)
  have parts : surroundedAmong .switchStmt way around
        (⟨.block, way⟩ :: around) 0 ns =
      surrounded true (0 :: way) around (child ns 0) ++
        (surrounded true (1 :: way) (⟨.block, way⟩ :: around) (child ns 1) ++
          []) :=
    surroundedAmong_first 2 here.ends
  rw [surrounded_open rfl, parts, said_node]
  simp only [outlineOf, part_toParts, outline_toPart]
  refine (value.append (.scope way cases)).of_count fun d => ?_
  simp only [List.count_append, List.count_nil, given, standing_nil]
  omega

/-- A name that is called is used where the call stands. -/
theorem covers_call (h : Ready m .call s ns) (mode : c.mode = .read) :
    Covers around (said m c (.node .call s ns))
      (surrounded true way around (.node .call s ns)) := by
  have here := h.scripted
  have independent := here.independent rfl rfl
  have callee := (h.covered 0).1.reading (independent_child independent 0) mode
    (0 :: way) around
  have arguments := (h.covered 1).1.reading
    (independent_child independent 1) mode (1 :: way) around
  have parts : surroundedAmong .call way around around 0 ns =
      surrounded true (0 :: way) around (child ns 0) ++
        (surrounded true (1 :: way) around (child ns 1) ++ []) :=
    surroundedAmong_first 2 here.ends
  rw [said_node]
  simp only [outlineOf, part_toParts, outlines_toParts, node_toPart,
    outline_toPart]
  split
  · rename_i x isBare
    rw [surrounded_closed rfl, parts, List.append_nil]
    exact (covers_bare isBare callee .callee).append arguments
  · exact h.same mode independent rfl rfl ⟨fun _ _ => rfl, fun _ => rfl⟩

/-- An assignment uses the names in its target. -/
theorem covers_assign {op : AssignOp} (h : Ready m (.assign op) s ns)
    (mode : c.mode = .read) :
    Covers around (said m c (.node (.assign op) s ns))
      (surrounded true way around (.node (.assign op) s ns)) := by
  have here := h.scripted
  have sorted := here.sorted
  have independent := independent_child (here.independent rfl rfl)
  have value := (h.covered 1).1.reading (independent 1) mode (1 :: way) around
  have parts : surroundedAmong (.assign op) way around around 0 ns =
      surrounded true (0 :: way) around (child ns 0) ++
        (surrounded true (1 :: way) around (child ns 1) ++ []) :=
    surroundedAmong_first 2 here.ends
  rw [surrounded_closed rfl, parts, said_node]
  simp only [outlineOf, part_toParts, assignOutline_eq, node_toPart,
    outline_toPart, given]
  split
  · rename_i x isBare
    have target :=
      (h.covered 0).1.reading (independent 0) mode (0 :: way) around
    rw [targets_of_bare isBare, List.append_nil]
    exact (covers_bare isBare target .write).append value
  · rw [sortedAt, Bool.and_eq_true] at sorted
    cases takesApart : isDestructuring (child ns 0).kind with
    | true =>
      have target := (h.covered 0).1.writing (independent 0)
        (isTarget_of_isAssignable (isAssignable_of_isDestructuring takesApart))
        c (0 :: way) around
      rw [targetContext, takesApart, if_pos rfl]
      refine (target.append value).of_count fun d => ?_
      simp only [List.count_append, List.count_nil]
      omega
    | false =>
      have target := (h.covered 0).1.reading (independent 0) mode (0 :: way)
        around
      have isExpr := sorted.1
      rw [takesApart, Bool.or_false] at isExpr
      rw [targetContext, takesApart,
        targets_eq_nil (isTargetPart_of_isExpression isExpr), List.append_nil]
      exact target.append value

/-- What is counted up or down is used. -/
theorem covers_update {a : UpdateOp} {b : Bool} (h : Ready m (.update a b) s ns)
    (mode : c.mode = .read) :
    Covers around (said m c (.node (.update a b) s ns))
      (surrounded true way around (.node (.update a b) s ns)) := by
  have here := h.scripted
  have independent := here.independent rfl rfl
  have target := (h.covered 0).1.reading (independent_child independent 0) mode
    (0 :: way) around
  have parts : surroundedAmong (.update a b) way around around 0 ns =
      surrounded true (0 :: way) around (child ns 0) ++ [] :=
    surroundedAmong_first 1 here.ends
  rw [said_node]
  simp only [outlineOf, part_toParts, outlines_toParts, node_toPart]
  split
  · rename_i x isBare
    rw [surrounded_closed rfl, parts, List.append_nil]
    exact covers_bare isBare target .write
  · exact h.same mode independent rfl rfl ⟨fun _ _ => rfl, fun _ => rfl⟩

/-- The name of an element is used, if it stands for a value. -/
theorem covers_elementName (script : isScript n = true)
    (operand : isOperand n = true) (covered : Covered m n)
    (mode : c.mode = .read) (way : List Nat) (around : List Place) :
    Covers around (elementNameOutline (toPart m n) c) (surrounded true way
      around n ++ standing around (elementValue isIntrinsic n)) := by
  unfold elementNameOutline
  rw [node_toPart, outline_toPart]
  split
  · rename_i x isName
    have nothing : surrounded true way around n = [] := by
      obtain ⟨k, s, ns⟩ := n
      cases isName
      have noMore : ns.all isMissing = true :=
        (scripted_of_isScript script).ends
      rw [surrounded_closed rfl, surroundedAmong_missing noMore]
      rfl
    have named : ownName n = [(x, n.span)] := by
      rw [ownName, isName]
      rfl
    have value : elementValue isIntrinsic n =
        if isIntrinsic x then [] else doing .value (ownName n) := by
      rw [elementValue, isName, named]
      rfl
    rw [nothing, List.nil_append, value, isIntrinsic]
    cases x.toList with
    | nil => exact covers_refer n .read
    | cons first rest =>
      by_cases small : 'a' ≤ first ∧ first ≤ 'z'
      · simp only [small, and_self, if_true, decide_true]
        exact ⟨[], .nil, .refl _⟩
      · simp only [small, if_false, decide_false, Bool.false_eq_true]
        exact covers_refer n .read
  · rename_i other
    have value (p : String → Bool) : elementValue p n = [] := by
      unfold elementValue
      split
      · exact absurd ‹_› (other _)
      · rfl
    have whole := covered c way around (.inl mode)
    rw [pending_element operand mode, value] at whole
    rwa [value]

/-- Markup uses the values that the names of its elements stand for. -/
theorem covers_markup {form : MarkupForm} (h : Ready m (.markup form) s ns)
    (own : isDependent (.node (.markup form) s ns) = false)
    (mode : c.mode = .read) :
    Covers around (said m c (.node (.markup form) s ns))
      (surrounded true way around (.node (.markup form) s ns)) := by
  have here := h.scripted
  have housed := here.housed
  have operand : isOperand (child ns 0) = true := isOperand_child here.sorted 0
  have name := covers_elementName (isScript_child h.below 0) operand
    (h.covered 0).1 mode (0 :: way) around
  have uniform : Uniform (.markup form) := ⟨fun _ _ => rfl, fun _ => rfl⟩
  have parts : surroundedAmong (.markup form) way around around 0 ns =
      surrounded true (0 :: way) around (child ns 0) ++
        surroundedAmong (.markup form) way around around 1 (ns.drop 1) :=
    surroundedAmong_drop ns 0
  have behind (independent : ∀ n ∈ ns.drop 1, isDependent n = false) :=
    h.among way around around
      (fun _ => List.mem_of_mem_drop) independent mode uniform 1
  rw [said_node]
  cases form
  case name => cases own
  case opening =>
    have rest := behind fun n hn =>
      Bool.not_eq_true' _ ▸ List.all_eq_true.1 housed n hn
    simp only [outlineOf, part_toParts, drop_toParts, outlines_toParts]
    rw [surrounded_closed rfl, parts]
    refine (name.append rest).of_count fun d => ?_
    simp only [List.count_append, given]
    omega
  case closing =>
    have ends : (ns.drop 1).all isMissing = true := here.ends
    rw [surroundedAmong_missing ends, List.append_nil] at parts
    simp only [outlineOf, part_toParts]
    rw [surrounded_closed rfl, parts]
    exact name.perm List.perm_append_comm
  case member =>
    have independent : ∀ n ∈ ns.drop 1, isDependent n = false := fun n hn =>
      Bool.not_eq_true' _ ▸ List.all_eq_true.1 housed n hn
    have among := covers_among (.markup .member) way around around
      (fun n hn => (h.each n hn).1) (fun _ _ => .inl mode) uniform 0
    have owed : pendingAmong c ns =
        elementValue (fun _ => false) (child ns 0) := by
      rw [← pending_element operand mode]
      cases ns with
      | nil =>
        rw [pendingAmong, List.flatMap_nil, child, List.getD_nil,
          pending_read rfl mode]
      | cons n rest =>
        rw [pendingAmong, List.flatMap_cons]
        exact (congrArg _ (pendingAmong_read independent mode)).trans
          (List.append_nil _)
    rw [owed] at among
    simp only [outlineOf, outlines_toParts]
    rw [surrounded_closed rfl]
    exact among.perm List.perm_append_comm
  all_goals
    simp only [outlineOf, outlines_toParts]
    exact h.same mode (here.independent rfl rfl) rfl rfl uniform

/-- Patterns, parameters and sequences of them cover what is in them. -/
theorem covered_pattern (h : Ready m k s ns) (isPart : isTargetPart k = true) :
    Covered m (.node k s ns) := by
  have here := h.scripted
  intro c way around fits
  have own : isDependent (.node k s ns) = false := by
    cases k
    all_goals first
      | rfl
      | cases isPart
  rw [pending_eq own]
  by_cases binds : ∃ x b, k = .bindingIdent x b
  · obtain ⟨x, b, rfl⟩ := binds
    have nothing : ns.all isMissing = true := here.ends
    rw [surrounded_closed rfl, surroundedAmong_missing nothing, said_node]
    simp only [outlineOf]
    cases c.mode with
    | read => exact ⟨[], .nil, .refl _⟩
    | declare kind => exact .leaves (List.forall_mem_singleton.2 rfl)
    | write => exact .leaves (List.forall_mem_singleton.2 rfl)
  · have other : ∀ x b, k ≠ .bindingIdent x b := fun x b same =>
      binds ⟨x, b, same⟩
    have noVars : isVariables k = false := by
      cases k
      all_goals first
        | rfl
        | cases isPart
    have noTag : (isTag k || k == .markup .member) = false := by
      cases k
      all_goals first
        | rfl
        | cases isPart
    have silent : given k s ns = [] ∧ opens k ns = none := by
      cases k
      all_goals first
        | exact ⟨rfl, rfl⟩
        | cases isPart
    have uniform : Uniform k := by
      cases k
      all_goals first
        | exact ⟨fun _ _ => rfl, fun _ => rfl⟩
        | cases isPart
    have parts : said m c (.node k s ns) = saidAmong m c ns := by
      rw [said_node, ← outlines_toParts]
      cases k
      case bindingIdent x b => exact absurd rfl (other x b)
      all_goals first
        | rfl
        | cases isPart
    have fitting : ∀ n ∈ ns, Fits c n := by
      rcases fits with mode | whole
      · exact fun n hn => .inl mode
      · exact fun n hn =>
          .inr (isTarget_parts isPart other here.sorted here.named whole n hn)
    have among := covers_among k way around around
      (fun n hn => (h.each n hn).1) fitting uniform 0
    rw [pendingAmong_parts (here.independent noVars noTag)] at among
    rw [parts, surrounded_closed silent.2, silent.1,
      targets_of_isTargetPart isPart other]
    exact among

/-- A node that is no pattern covers what is in it where no names of patterns
are asked for. -/
theorem covers_reading (h : Ready m k s ns) (noPart : isTargetPart k = false)
    (own : isDependent (.node k s ns) = false) (mode : c.mode = .read) :
    Covers around (said m c (.node k s ns))
      (surrounded true way around (.node k s ns)) := by
  have here := h.scripted
  cases k
  case importDecl => exact covers_importDecl h
  case exportNamed => exact covers_exportNamed h
  case exportDefaultDecl => exact covers_exportDefaultDecl h mode
  case varDecl | usingDecl => exact covers_variables h rfl mode
  case declarator => cases own
  case fnDecl => exact covers_declaration h (.inl ⟨_, rfl⟩) mode
  case classDecl => exact covers_declaration h (.inr ⟨_, rfl⟩) mode
  case fnExpr => exact covers_ownScope h (.inl rfl) mode
  case classExpr => exact covers_ownScope h (.inr rfl) mode
  case bindingIdent | arrayPat | objectPat | restPat | assignPat | keyValuePat |
      shorthandPat | exprPat | list | param =>
    cases noPart
  case function => exact covers_function h
  case arrow => exact covers_arrow h
  case constructor => exact covers_constructor h mode
  case getterProp => exact covers_getterProp h mode
  case setterProp => exact covers_setterProp h mode
  case staticBlock => exact covers_staticBlock h
  case catchClause => exact covers_catchClause h
  case block => exact covers_block h (.inl rfl)
  case forStmt => exact covers_block h (.inr rfl)
  case forIn => exact covers_collectionLoop h (.inl rfl)
  case forOf => exact covers_collectionLoop h (.inr ⟨_, rfl⟩)
  case switchStmt => exact covers_switchStmt h mode
  case ident | shorthand =>
    have nothing : ns.all isMissing = true := here.ends
    rw [surrounded_closed rfl, surroundedAmong_missing nothing, said_node]
    exact .leaves (List.forall_mem_singleton.2 rfl)
  case call => exact covers_call h mode
  case assign => exact covers_assign h mode
  case update => exact covers_update h mode
  case markup => exact covers_markup h own mode
  case type | enumDecl | moduleDecl | importEquals => cases here.untyped
  all_goals
    rw [said_node]
    simp only [outlineOf, outlines_toParts]
    exact h.same mode (here.independent rfl rfl) rfl rfl
      ⟨fun _ _ => rfl, fun _ => rfl⟩

end Cases

/-- **A piece of a script covers what is in it**, and what the node around it
says about the names in it. -/
theorem covered (script : isScript n = true) (isRegular : regular n = true) :
    Covered m n ∧ ∀ n' ∈ n.children, Covered m n' := by
  induction n using Node.induct with
  | step k s ns ih =>
    have ready : Ready m k s ns := ⟨script, isRegular, fun n hn =>
      ih n hn ((isScript_node.1 script).2 n hn) (regular_child isRegular hn)⟩
    refine ⟨fun c way around fits => ?_, fun n hn => (ready.each n hn).1⟩
    cases isPart : isTargetPart k with
    | true => exact covered_pattern ready isPart c way around fits
    | false =>
      by_cases declares : ∃ b, k = .declarator b
      · obtain ⟨b, rfl⟩ := declares
        exact covers_declarator ready (fits.resolve_right nofun)
      by_cases element : ∃ x, k = .markup (.name x)
      · obtain ⟨x, rfl⟩ := element
        have nothing : ns.all isMissing = true := ready.scripted.ends
        rw [surrounded_closed rfl, surroundedAmong_missing nothing, said_node]
        exact .leaves (List.forall_mem_singleton.2 rfl)
      have own : isDependent (.node k s ns) = false := by
        cases k
        case declarator b => exact absurd ⟨b, rfl⟩ declares
        case markup form =>
          cases form
          case name x => exact absurd ⟨x, rfl⟩ element
          all_goals rfl
        all_goals rfl
      have nothing : pending c (.node k s ns) = [] := by
        have noNames : targets (.node k s ns) = [] := targets_eq_nil isPart
        rw [pending_eq own, noNames]
        cases c.mode <;> rfl
      rw [nothing, standing_nil, List.append_nil]
      rcases fits with mode | target
      · exact covers_reading ready isPart own mode
      · -- An expression says the same where patterns are asked for.
        have operand :=
          isOperand_of_isExpression (isExpression_of_isTarget target isPart)
        have plain := (Bool.and_eq_true_iff.1 script).1
        have steady : said m c (.node k s ns) =
            said m { c with mode := .read } (.node k s ns) :=
          said_steady plain ⟨rfl, .inl operand⟩
        rw [steady]
        exact covers_reading ready isPart own rfl

/-- **The outline of a script has the scopes and identifiers of the script**,
each as often as it stands there, and each with the same scopes around it. -/
theorem covers_outline (script : isScript n = true)
    (isRegular : regular n = true) (independent : isDependent n = false)
    (m : String) :
    Covers [.program] (outline m n) (surrounded true [] [.program] n) :=
  (covered script isRegular).1.reading independent rfl [] [.program]

/-- **The outline of a script records the identifiers that do something**, each
as often as it stands in the script, and nothing else. -/
theorem recorded_outline (script : isScript n = true)
    (isRegular : regular n = true) (independent : isDependent n = false)
    (m : String) : (recordedAll (outline m n)).Perm (occurrences n) := by
  obtain ⟨ds, laid, perm⟩ := covers_outline script isRegular independent m
  have names := perm.filterMap Surrounded.what
  rwa [laid.recorded, filterMap_what_surrounded] at names

end Covering

end NullGuard.Scope
