import NullGuard.Proofs.Pieces

/-!
# What a rewrite keeps

The analysis can look at a tree if the parts that have to be sequences or
functions are (`regular`). `rewrites_kept` says that a rewrite does not change
this. A child that is rewritten in place keeps its kind, save a helper call,
which becomes an expression, and a body, which stays one.

The treatments of a node's children have their places: `TreatedAt` says which
treatment stands where, and is all that the proofs here and later need to know
of the tables of treatments.
-/

namespace NullGuard.Transform

open NullGuard.Text (Span)
open NullGuard.Tree NullGuard.Chain NullGuard.Scope

/-- Whether a node that is treated in a way becomes a body that declares
names. -/
def isBody : Treatment → Bool
  | .body | .arrowBody => true
  | _ => false

/-- Nodes that are all treated alike. -/
theorem eq_of_map {i : Nat} {j u : Treatment} {ns : List Node}
    (h : (ns.map fun _ => u)[i]? = some j) : j = u := by
  rw [List.getElem?_map] at h
  cases there : ns[i]? with
  | none =>
    rw [there] at h
    cases h
  | some n =>
    rw [there] at h
    cases h
    rfl

/-- The places of children that are not looked at: types, and the `this` of a
setter. -/
def isAside : Kind → Nat → Bool
  | .function _ _, i => 3 ≤ i
  | .arrow _, i => 2 ≤ i
  | .getterProp, i | .setterProp, i => i == 1
  | _, _ => false

/-- How a child may be treated: special treatments have their places. -/
inductive TreatedAt (k : Kind) (i : Nat) : Treatment → Prop where
  | keep (aside : isAside k i = true) : TreatedAt k i .keep
  | place : TreatedAt k i .place
  | body {j : Treatment} (body : isBody j = true)
      (here : bodyIndex k = some i) : TreatedAt k i j
  | function {sort : MethodSort} {modifiers : Modifiers}
      (method : k = .method sort modifiers) (second : i = 1) :
      TreatedAt k i .function
  | items (case : k = .switchCase) (second : i = 1) : TreatedAt k i .items

/-- The children of a node are treated as their places say. -/
theorem treated_of_treatments {k : Kind} {ns : List Node} {i : Nat}
    {j : Treatment} (h : (treatments k ns)[i]? = some j) : TreatedAt k i j := by
  unfold treatments at h
  split at h
  case h_1 =>
    rcases i with _ | _ | i <;> cases h
    · exact .place
    · exact .items rfl rfl
  case h_2 =>
    unfold functionTreatments at h
    split at h
    · rcases i with _ | _ | _ | i
      · cases h
        exact .place
      · cases h
        exact .place
      · cases h
        exact .body rfl rfl
      · cases eq_of_map h
        exact .keep (by simp [isAside])
    · cases eq_of_map h
      exact .place
  case h_3 =>
    rcases i with _ | _ | i <;> cases h
    · exact .place
    · exact .function rfl rfl
  case h_4 =>
    rcases i with _ | _ | _ | i <;> cases h
    · exact .place
    · exact .place
    · exact .body rfl rfl
  case h_5 =>
    rcases i with _ | _ | _ | i <;> cases h
    · exact .place
    · exact .keep rfl
    · exact .body rfl rfl
  case h_6 =>
    rcases i with _ | _ | _ | _ | i <;> cases h
    · exact .place
    · exact .keep rfl
    · exact .place
    · exact .body rfl rfl
  case h_7 =>
    rcases i with _ | i <;> cases h
    exact .body rfl rfl
  case h_8 =>
    rcases i with _ | _ | i
    · cases h
      exact .place
    · cases h
      exact .body rfl rfl
    · cases eq_of_map h
      exact .keep (by simp [isAside])
  case h_9 =>
    cases eq_of_map h
    exact .place

/-- A node is treated as a body only where its parent has one. -/
theorem bodyIndex_of_treatments {k : Kind} {ns : List Node} {i : Nat}
    {j : Treatment} (h : (treatments k ns)[i]? = some j)
    (body : isBody j = true) : bodyIndex k = some i := by
  cases treated_of_treatments h with
  | body _ here => exact here
  | _ => cases body

/-- The arguments of a helper call are rewritten in place, but for the
callback. -/
theorem treatment_of_argument {ns : List Node} {i : Nat} {j : Treatment}
    (h : (argumentTreatments ns)[i]? = some j) :
    j = .place ∨ j = .callback := by
  unfold argumentTreatments at h
  split at h
  · rcases i with _ | _ | i
    · cases h
      exact .inl rfl
    · cases h
      exact .inr rfl
    · exact .inl (eq_of_map h)
  · exact .inl (eq_of_map h)

/-- Nothing is tidied up in a node with a body of its own. -/
theorem finish_of_bodyIndex {k : Kind} {i : Nat} (h : bodyIndex k = some i)
    (removals : List (Option Span)) (ns : List Node) :
    finish removals k ns = ns := by
  cases k <;> first | rfl | cases h

/-- A relation holds of the nodes that are treated in some ways and what becomes
of them. -/
inductive Each (P : Treatment → Node → Node → Prop) :
    List Treatment → List Node → List Node → Prop where
  | nil : Each P [] [] []
  | cons {j : Treatment} {js : List Treatment} {n n' : Node}
      {ns ns' : List Node} (head : P j n n') (tail : Each P js ns ns') :
      Each P (j :: js) (n :: ns) (n' :: ns')

namespace Each

variable {P : Treatment → Node → Node → Prop} {j : Treatment}
  {js : List Treatment} {n n' : Node} {ns ns' : List Node}

theorem single (h : Each P [j] [n] [n']) : P j n n' := by
  cases h with
  | cons head tail => exact head

theorem get (h : Each P js ns ns') {i : Nat} (there : ns'[i]? = some n') :
    ∃ j n, js[i]? = some j ∧ ns[i]? = some n ∧ P j n n' := by
  induction h generalizing i with
  | nil => cases there
  | cons head tail ih =>
    cases i with
    | zero =>
      cases there
      exact ⟨_, _, rfl, rfl, head⟩
    | succ i => exact ih there

/-- A relation that holds however a node is treated holds of all pairs. -/
theorem forall₂ {Q : Node → Node → Prop} (h : Each P js ns ns')
    (imp : ∀ j ∈ js, ∀ n n', P j n n' → Q n n') : List.Forall₂ Q ns ns' := by
  induction h with
  | nil => exact .nil
  | cons head tail ih =>
    exact .cons (imp _ List.mem_cons_self _ _ head)
      (ih fun j hj => imp j (List.mem_cons_of_mem _ hj))

theorem imp {Q : Treatment → Node → Node → Prop} (h : Each P js ns ns')
    (imp : ∀ j n n', P j n n' → Q j n n') : Each Q js ns ns' := by
  induction h with
  | nil => exact .nil
  | cons head tail ih => exact .cons (imp _ _ _ head) ih

/-- Nodes that are all rewritten in place. -/
theorem placed (h : Each P (ns.map fun _ => .place) ns ns') :
    List.Forall₂ (P .place) ns ns' :=
  h.forall₂ fun j hj n n' related => by
    obtain ⟨_, -, rfl⟩ := List.mem_map.1 hj
    exact related

end Each

/-- A node that can stand in a program and be treated in a way. -/
structure Fit (j : Treatment) (n : Node) : Prop where
  regular : regular n = true
  inner : isProgram n.kind = false
  function : j = .function → isFunction n = true
  items : j = .items → isSequence n = true

/-- A node stays what it was where it was, or it was a call and is an expression
in parentheses now. -/
def Stays (n n' : Node) : Prop :=
  n'.kind = n.kind ∧ n'.span = n.span ∨ n.kind = .call ∧ n'.kind = .paren

theorem Stays.refl (n : Node) : Stays n n :=
  .inl ⟨rfl, rfl⟩

/-- What is no call stays what it was. -/
theorem Stays.kind {n n' : Node} (h : Stays n n') (notCall : n.kind ≠ .call) :
    n'.kind = n.kind :=
  h.elim And.left fun isCall => absurd isCall.1 notCall

/-- What is kept of a node that is treated in a way. -/
structure Kept (j : Treatment) (n n' : Node) : Prop where
  regular : regular n' = true
  inner : isProgram n'.kind = false
  stays : isBody j = false → Stays n n'
  items : isBody j = false → n.kind = .list → ∀ m' ∈ n'.children,
    ∃ m ∈ n.children, Stays m m'

/-- What is kept of several nodes, one by one. -/
inductive AllKept : List Treatment → List Node → List Node → Prop where
  | nil : AllKept [] [] []
  | cons {j : Treatment} {js : List Treatment} {n n' : Node}
      {ns ns' : List Node} (head : Kept j n n') (tail : AllKept js ns ns') :
      AllKept (j :: js) (n :: ns) (n' :: ns')

/-- Several nodes that can stand in a program. -/
def AllRegular (ns : List Node) : Prop :=
  ∀ n ∈ ns, regular n = true ∧ isProgram n.kind = false

/-- Whatever is related to the elements of a list comes from one of them. -/
theorem exists_of_forall₂ {α β : Type} {R : α → β → Prop} {l : List α}
    {l' : List β} (all : List.Forall₂ R l l') {y : β} (hy : y ∈ l') :
    ∃ x ∈ l, R x y := by
  induction all with
  | nil => cases hy
  | cons head tail ih =>
    rcases List.mem_cons.1 hy with rfl | hy
    · exact ⟨_, List.mem_cons_self, head⟩
    · obtain ⟨x, hx, related⟩ := ih hy
      exact ⟨x, List.mem_cons_of_mem _ hx, related⟩

section Kept

variable {setting : Setting} {js : List Treatment} {ns ns' : List Node}

theorem AllKept.get (h : AllKept js ns ns') {i : Nat} {n' : Node}
    (there : ns'[i]? = some n') :
    ∃ j n, js[i]? = some j ∧ ns[i]? = some n ∧ Kept j n n' := by
  induction h generalizing i with
  | nil => cases there
  | cons head tail ih =>
    cases i with
    | zero =>
      cases there
      exact ⟨_, _, rfl, rfl, head⟩
    | succ i => exact ih there

theorem AllKept.regular (h : AllKept js ns ns') : AllRegular ns' := by
  induction h with
  | nil => nofun
  | cons head tail ih =>
    exact List.forall_mem_cons.2 ⟨⟨head.regular, head.inner⟩, ih⟩

/-- Nodes that are all rewritten in place stay what they were. -/
theorem AllKept.stays (h : AllKept (ns.map fun _ => .place) ns ns') :
    List.Forall₂ Stays ns ns' := by
  induction ns generalizing ns' with
  | nil =>
    cases h
    exact .nil
  | cons n ns ih =>
    cases h with
    | cons head tail => exact .cons (head.stays rfl) (ih tail)

/-- Tidying up leaves nodes that can stand in a program. -/
theorem Trims.regular {ms : List Node} (h : Trims ns ms) (all : AllRegular ns) :
    AllRegular ms := by
  induction h with
  | nil => exact all
  | keep n rest ih =>
    exact List.forall_mem_cons.2 ⟨all n List.mem_cons_self,
      ih fun m hm => all m (List.mem_cons_of_mem _ hm)⟩
  | drop n rest ih => exact ih fun m hm => all m (List.mem_cons_of_mem _ hm)
  | gone n empty rest ih =>
    refine List.forall_mem_cons.2
      ⟨?_, ih fun m hm => all m (List.mem_cons_of_mem _ hm)⟩
    rcases empty with rfl | rfl <;> exact ⟨rfl, rfl⟩
  | unwrap inner rest ih =>
    obtain ⟨-, below, outer⟩ := regular_node.1 (all _ List.mem_cons_self).1
    exact List.forall_mem_cons.2 ⟨⟨below _ List.mem_cons_self, outer _
      List.mem_cons_self⟩, ih fun m hm => all m (List.mem_cons_of_mem _ hm)⟩
  | within wraps inside rest ih ih' =>
    obtain ⟨-, below, outer⟩ := regular_node.1 (all _ List.mem_cons_self).1
    have inner := ih fun n hn => ⟨below n hn, outer n hn⟩
    refine List.forall_mem_cons.2
      ⟨⟨?_, ?_⟩, ih' fun m hm => all m (List.mem_cons_of_mem _ hm)⟩
    · refine regular_node.2 ⟨?_, fun n hn => (inner n hn).1,
        fun n hn => (inner n hn).2⟩
      rcases wraps with rfl | rfl <;> rfl
    · rcases wraps with rfl | rfl <;> rfl
  | trans _ _ ih ih' => exact ih' (ih all)

/-- A sequence stays one, and so does a function. -/
theorem all_take {p : Node → Bool} {m : Nat} :
    (ns.take m).all p = true ↔ ∀ i n, i < m → ns[i]? = some n → p n = true := by
  rw [List.all_eq_true]
  constructor
  · intro h i n bound there
    exact h n
      (List.mem_of_getElem? (by rw [List.getElem?_take_of_lt bound, there]))
  · intro h n hn
    obtain ⟨i, there⟩ := List.mem_iff_getElem?.1 hn
    rw [List.getElem?_take] at there
    split at there
    · exact h i n ‹_› there
    · cases there

theorem all_second {p : Node → Bool} :
    ((ns.drop 1).take 1).all p = true ↔ ∀ n, ns[1]? = some n → p n = true := by
  rw [all_take]
  constructor
  · exact fun h n there => h 0 n Nat.one_pos (by rw [List.getElem?_drop, there])
  · intro h i n bound there
    cases Nat.lt_one_iff.1 bound
    rw [List.getElem?_drop] at there
    exact h n there

/-- The children that are looked into still are what they have to be. -/
theorem AllKept.regularParts {k : Kind} (removals : List (Option Span))
    (h : AllKept (treatments k ns) ns ns')
    (parts : Scope.regularParts k ns = true) :
    Scope.regularParts k (finish removals k ns') = true := by
  have list {i : Nat} {n' : Node} (there : ns'[i]? = some n') (elsewhere :
      bodyIndex k ≠ some i) (was : ∀ n, ns[i]? = some n → isSequence n = true) :
      ∃ n, ns[i]? = some n ∧ n.kind = .list ∧ n'.kind = .list ∧
      ∀ m' ∈ n'.children, ∃ m ∈ n.children, Stays m m' := by
    obtain ⟨j, n, treated, child, kept⟩ := h.get there
    have noBody : isBody j = false := by
      rw [← Bool.not_eq_true]
      exact fun body => elsewhere (bodyIndex_of_treatments treated body)
    have isList : n.kind = .list := eq_of_beq (was n child)
    exact ⟨n, child, isList, ((kept.stays noBody).kind
      (by rw [isList]; nofun)).trans isList, kept.items noBody isList⟩
  cases k
  case function =>
    refine all_take.2 fun i n' bound there => ?_
    obtain ⟨-, -, -, isList, -⟩ := list there (by simp only [bodyIndex]; grind)
      fun n child => all_take.1 parts i n bound child
    exact beq_iff_eq.2 isList
  case arrow | exportNamed =>
    refine all_take.2 fun i n' bound there => ?_
    obtain ⟨-, -, -, isList, -⟩ := list there (by simp only [bodyIndex]; grind)
      fun n child => all_take.1 parts i n bound child
    exact beq_iff_eq.2 isList
  case importDecl =>
    refine all_take.2 fun i n' bound there => ?_
    have before n child :=
      Bool.and_eq_true_iff.1 (all_take.1 parts i n bound child)
    obtain ⟨n, child, -, isList, items⟩ :=
      list there nofun fun n child => (before n child).1
    refine Bool.and_eq_true_iff.2 ⟨beq_iff_eq.2 isList,
      List.all_eq_true.2 fun m' hm' => ?_⟩
    obtain ⟨m, hm, same⟩ := items m' hm'
    have specifier := List.all_eq_true.1 (before n child).2 m hm
    unfold isImportSpecifier at specifier ⊢
    rwa [same.kind (by intro isCall; rw [isCall] at specifier; cases specifier)]
  case constructor | switchCase =>
    refine all_second.2 fun n' there => ?_
    obtain ⟨-, -, -, isList, -⟩ := list there nofun (all_second.1 parts)
    exact beq_iff_eq.2 isList
  case method =>
    refine all_second.2 fun n' there => ?_
    obtain ⟨j, n, treated, child, kept⟩ := h.get there
    have before := all_second.1 parts n child
    have noBody : isBody j = false := by
      rw [← Bool.not_eq_true]
      exact fun body => nomatch bodyIndex_of_treatments treated body
    unfold isFunction at before ⊢
    rwa [(kept.stays noBody).kind
      (by intro isCall; rw [isCall] at before; cases before)]
  all_goals rfl

theorem fit_plain {n : Node} (isRegular : Scope.regular n = true)
    (inner : isProgram n.kind = false) {j : Treatment}
    (noFunction : j ≠ .function) (noItems : j ≠ .items) : Fit j n :=
  ⟨isRegular, inner, fun same => absurd same noFunction,
    fun same => absurd same noItems⟩

end Kept

section Arguments

variable {policy : ChainPolicy} {span : Option Span} {arguments : List Node}
  {c : AccessChain}

/-- The pieces of a helper call stand in its arguments. -/
theorem occurs_of_decompose (h : decompose policy span arguments = .ok c)
    {n : Node} (hn : n ∈ c.base :: pieces c.steps) :
    ∃ m ∈ arguments, Occurs n m := by
  obtain ⟨call, helper, walked, same, -⟩ := decompose_ok h
  cases helper with
  | @intro base callback body name isAsync isOptional s l i ascription rest _ _
      isArrow notBlock =>
    rcases List.mem_cons.1 hn with rfl | hn
    · exact ⟨base, List.mem_cons_self, same ▸ .here⟩
    · have inBody := occurs_of_spine walked hn
      have inArrow : Occurs n callback.stripParens := by
        rw [isArrow]
        exact .inside (List.mem_cons_of_mem _ List.mem_cons_self) inBody
      exact ⟨callback, List.mem_cons_of_mem _ List.mem_cons_self,
        inArrow.trans (.stripParens callback)⟩

/-- What stands in a node that can stand in a program can as well. -/
theorem inner_of_occurs {n m : Node} (h : Occurs n m)
    (isRegular : regular m = true) (inner : isProgram m.kind = false) :
    regular n = true ∧ isProgram n.kind = false := by
  induction h with
  | here => exact ⟨isRegular, inner⟩
  | inside hc _ ih =>
    obtain ⟨-, below, outer⟩ := regular_node.1 isRegular
    exact ih (below _ hc) (outer _ hc)

theorem regular_of_decompose (h : decompose policy span arguments = .ok c)
    (all : AllRegular arguments) :
    AllRegular (c.base :: pieces c.steps) := by
  intro n hn
  obtain ⟨m, hm, occurs⟩ := occurs_of_decompose h hn
  exact inner_of_occurs occurs (all m hm).1 (all m hm).2

/-- Nodes of most kinds can stand in a program if their children can. -/
theorem regular_plain {k : Kind} {s : Option Span} {ns : List Node}
    (plain : regularParts k ns = true) (inner : isProgram k = false)
    (all : AllRegular ns) :
    regular (.node k s ns) = true ∧ isProgram (Node.node k s ns).kind = false :=
  ⟨regular_node.2 ⟨plain, fun n hn => (all n hn).1, fun n hn => (all n hn).2⟩,
    inner⟩

/-- The kinds of the nodes that the expression of a chain is put together
with. -/
def isChained : Kind → Bool
  | .paren | .cond | .assign .plain | .binary .notEq | .null | .ident _
      | .member | .call | .list =>
    true
  | _ => false

/-- A property of several nodes that the nodes of such kinds have if their
children have it. -/
structure Chaining (G : List Node → Prop) : Prop where
  nil : G []
  append {ms ls : List Node} : G (ms ++ ls) ↔ G ms ∧ G ls
  node {k : Kind} (s : Option Span) {ms : List Node}
      (chained : isChained k = true) (h : G ms) : G [.node k s ms]

section Chaining

variable {G : List Node → Prop} {t : String}

theorem Chaining.cons (closed : Chaining G) {n : Node} {ms : List Node}
    (head : G [n]) (tail : G ms) : G (n :: ms) :=
  closed.append.2 ⟨head, tail⟩

theorem Chaining.apply (closed : Chaining G) {object : Node} {l : Level}
    (ho : G [object]) (hl : G (levelPieces l)) : G [l.apply object] := by
  have call {callee typeArguments : Node} {arguments : List Node}
      (hc : G [callee]) (h : G (arguments ++ [typeArguments])) :
      G [made .call [callee, .ofList arguments, typeArguments]] := by
    obtain ⟨list, types⟩ := closed.append.1 h
    exact closed.node none rfl
      (closed.cons hc (closed.cons (closed.node none rfl list) types))
  cases l with
  | member property => exact closed.node none rfl (closed.cons ho hl)
  | call arguments typeArguments =>
    exact call ho
      (by simpa [levelPieces, Level.steps, pieces, stepPieces] using hl)
  | method property arguments typeArguments =>
    have parts : G ([property] ++ (arguments ++ [typeArguments])) := by
      simpa [levelPieces, Level.steps, pieces, stepPieces] using hl
    obtain ⟨key, rest⟩ := closed.append.1 parts
    exact call (closed.node none rfl (closed.cons ho key)) rest

theorem Chaining.temporary (closed : Chaining G) : G [temporary t] :=
  closed.node none rfl closed.nil

theorem Chaining.guarded (closed : Chaining G) {span : Option Span}
    {value more : Node} (hv : G [value]) (hm : G [more]) :
    G [guarded span t value more] := by
  have assignment : G [made (.assign .plain) [Chain.temporary t, value]] :=
    closed.node none rfl (closed.cons closed.temporary hv)
  have test : G [made (.binary .notEq) [parenthesized
      (made (.assign .plain) [Chain.temporary t, value]), made .null []]] :=
    closed.node none rfl (closed.cons (closed.node none rfl assignment)
      (closed.node none rfl closed.nil))
  exact closed.node span rfl
    (closed.cons test (closed.cons hm closed.temporary))

theorem Chaining.guardedLevels (closed : Chaining G) {ls : List Level}
    (h : G (ls.flatMap levelPieces)) : G [guardedLevels t ls] := by
  fun_induction Chain.guardedLevels t ls with
  | case1 => exact closed.temporary
  | case2 last =>
    rw [List.flatMap_cons, List.flatMap_nil, List.append_nil] at h
    exact closed.apply closed.temporary h
  | case3 level rest _ ih =>
    rw [List.flatMap_cons] at h
    obtain ⟨first, others⟩ := closed.append.1 h
    exact closed.guarded (closed.apply closed.temporary first) (ih others)

/-- **The expression of a chain has such a property** if its pieces have it. -/
theorem Chaining.expression (closed : Chaining G)
    (all : G (c.base :: pieces c.steps)) : G [c.expression t] := by
  obtain ⟨base, rest⟩ :=
    closed.append.1 (show G ([c.base] ++ pieces c.steps) from all)
  rw [← flatMap_levels] at rest
  unfold AccessChain.expression
  split
  · exact closed.node none rfl base
  · exact closed.node none rfl (closed.guarded base (closed.guardedLevels rest))

end Chaining

theorem chaining_allRegular : Chaining AllRegular where
  nil := nofun
  append := List.forall_mem_append
  node {k} s ms chained h := by
    refine List.forall_mem_singleton.2 (regular_plain ?_ ?_ h)
    · cases k <;> first | rfl | cases chained
    · cases k <;> first | rfl | cases chained

end Arguments

section Every

variable {setting : Setting} {js : List Treatment} {ns ns' : List Node}
  {h : List String} {a : List RewrittenCall}

/-- Several nodes that are treated in some ways can stand in a program. -/
def AllFit (js : List Treatment) (ns : List Node) : Prop :=
  ∀ (i : Nat) (j : Treatment) (n : Node), js[i]? = some j →
    ns[i]? = some n → Fit j n

theorem fit_treatments {k : Kind} {s : Option Span}
    (isRegular : regular (.node k s ns) = true) :
    AllFit (treatments k ns) ns := by
  intro i j n treated there
  obtain ⟨parts, below, outer⟩ := regular_node.1 isRegular
  have mem := List.mem_of_getElem? there
  refine ⟨below n mem, outer n mem, fun same => ?_, fun same => ?_⟩
  · subst same
    cases treated_of_treatments treated with
    | body body _ => cases body
    | function method second =>
      subst method second
      exact all_second.1 parts n there
  · subst same
    cases treated_of_treatments treated with
    | body body _ => cases body
    | items isCase second =>
      subst isCase second
      exact all_second.1 parts n there

theorem fit_arguments (all : AllRegular ns) :
    AllFit (argumentTreatments ns) ns := by
  intro i j n treated there
  obtain ⟨isRegular, inner⟩ := all n (List.mem_of_getElem? there)
  rcases treatment_of_argument treated with rfl | rfl <;>
    exact fit_plain isRegular inner nofun nofun

theorem fit_place (all : AllRegular ns) :
    AllFit (ns.map fun _ => .place) ns := by
  intro i j n treated there
  obtain ⟨isRegular, inner⟩ := all n (List.mem_of_getElem? there)
  cases eq_of_map treated
  exact fit_plain isRegular inner nofun nofun

theorem AllFit.head {j : Treatment} {n : Node}
    (h : AllFit (j :: js) (n :: ns)) : Fit j n :=
  h 0 j n rfl rfl

theorem AllFit.tail {j : Treatment} {n : Node}
    (h : AllFit (j :: js) (n :: ns)) : AllFit js ns :=
  fun i => h (i + 1)

theorem AllFit.single {j : Treatment} {n : Node} (h : Fit j n) :
    AllFit [j] [n] := by
  intro i j' n' treated there
  rcases i with _ | i
  · cases treated
    cases there
    exact h
  · cases treated

theorem AllKept.single {j : Treatment} {n n' : Node}
    (h : AllKept [j] [n] [n']) : Kept j n n' := by
  cases h with
  | cons head tail => exact head

/-- A node that is put together anew from kept children. -/
theorem kept_node {j : Treatment} {k : Kind} {s : Option Span} {ms : List Node}
    (inner : isProgram k = false) (parts : regularParts k ms = true)
    (all : AllRegular ms)
    (items : k = .list → ∀ m' ∈ ms, ∃ m ∈ ns, Stays m m') :
    Kept j (.node k s ns) (.node k s ms) where
  regular := (regular_plain parts inner all).1
  inner := inner
  stays _ := .inl ⟨rfl, rfl⟩
  items _ := items

/-- The children of a sequence are kept. -/
theorem AllKept.items (kept : AllKept (ns.map fun _ => .place) ns ns') :
    ∀ m' ∈ ns', ∃ m ∈ ns, Stays m m' := by
  intro m' hm'
  obtain ⟨i, there⟩ := List.mem_iff_getElem?.1 hm'
  obtain ⟨j, m, treated, child, kept⟩ := kept.get there
  cases eq_of_map treated
  exact ⟨m, List.mem_of_getElem? child, kept.stays rfl⟩

theorem regular_varStatement (names : List String) :
    regular (varStatement names) = true ∧
      isProgram (varStatement names).kind = false := by
  have missing : regular .none = true ∧ isProgram Node.none.kind = false :=
    regular_plain rfl rfl nofun
  refine regular_plain rfl rfl fun n hn => ?_
  obtain ⟨x, -, rfl⟩ := List.mem_map.1 hn
  refine regular_plain rfl rfl
    (List.forall_mem_cons.2 ⟨?_, List.forall_mem_singleton.2 missing⟩)
  exact regular_plain rfl rfl (List.forall_mem_singleton.2 missing)

/-- Declaring names puts a statement between others, if it does anything. -/
theorem declareIn_eq (names : List String) (items : List Node) :
    declareIn names items = items ∧
      names = [] ∨ ∃ front back, declareIn names items = front ++
        varStatement names :: back ∧
      items = front ++ back := by
  unfold declareIn
  split
  · rename_i empty
    exact .inl ⟨rfl, List.isEmpty_iff.1 empty⟩
  · exact .inr ⟨_, _, rfl, List.takeWhile_append_dropWhile.symm⟩

theorem allRegular_declareIn {names : List String} {items : List Node}
    (all : AllRegular items) :
    AllRegular (declareIn names items) := by
  rcases declareIn_eq names items with ⟨same, -⟩ | ⟨front, back, same, rfl⟩
  · rwa [same]
  · obtain ⟨before, behind⟩ := List.forall_mem_append.1 all
    rw [same]
    exact List.forall_mem_append.2
      ⟨before, List.forall_mem_cons.2 ⟨regular_varStatement names, behind⟩⟩

/-- The body of an arrow function can stand in a program, whatever names it
declares. -/
theorem fit_arrowBody (names : List String) {n : Node}
    (isRegular : regular n = true) (inner : isProgram n.kind = false) :
    regular (arrowBody names n) = true ∧
      isProgram (arrowBody names n).kind = false := by
  have all : AllRegular [n] := List.forall_mem_singleton.2 ⟨isRegular, inner⟩
  unfold arrowBody
  split
  · obtain ⟨-, below, outer⟩ := regular_node.1 isRegular
    exact regular_plain rfl rfl
      (allRegular_declareIn fun m hm => ⟨below m hm, outer m hm⟩)
  · split
    · exact (trimming_unwrapConditional n .nil).regular all _ List.mem_cons_self
    · have value := (trimming_unwrap n .nil).regular all
      have statement : AllRegular [made .returnStmt [unwrap n]] :=
        List.forall_mem_singleton.2 (regular_plain rfl rfl value)
      exact regular_plain rfl rfl
        (List.forall_mem_cons.2 ⟨regular_varStatement names, statement⟩)

/-- The arguments of a planned call stand in it. -/
theorem occurs_of_planned {plan : Plan} {n arguments : Node}
    (planned : plannedArguments? plan n = some arguments) :
    arguments ∈ n.children := by
  obtain ⟨s, callee, rest, rfl, -⟩ := planned_cases planned
  exact List.mem_cons_of_mem _ List.mem_cons_self

/-- The arguments of a call can stand in a program if the call can. -/
theorem regular_plannedArguments {plan : Plan} {n arguments : Node}
    (planned : plannedArguments? plan n = some arguments)
    (isRegular : regular n = true) :
    AllRegular arguments.children := by
  obtain ⟨s, callee, rest, rfl, -⟩ := planned_cases planned
  obtain ⟨k, l, items⟩ := arguments
  have list :=
    regular_child isRegular (List.mem_cons_of_mem _ List.mem_cons_self)
  obtain ⟨-, below, outer⟩ := regular_node.1 list
  exact fun m hm => ⟨below m hm, outer m hm⟩

/-- The expression that a helper call becomes can stand in a program. -/
theorem kept_call {plan : Plan} {n arguments : Node} {policy : ChainPolicy}
    {given : List Node} {chain : AccessChain} {u : String}
    (planned : plannedArguments? plan n = some arguments)
    (all : AllRegular given)
    (taken : decompose policy n.span given = .ok chain) :
    Kept .place n (chain.expression u) := by
  have isCall := kind_of_planned planned
  obtain ⟨isRegular, inner⟩ := chaining_allRegular.expression (t := u)
    (regular_of_decompose taken all) _ List.mem_cons_self
  refine ⟨isRegular, inner, fun _ => .inr ⟨isCall, ?_⟩, fun _ isList => ?_⟩
  · unfold AccessChain.expression
    split <;> rfl
  · rw [isCall] at isList
    cases isList

/-- **What a rewrite keeps**: a program that the analysis can look at stays
one. -/
theorem rewrites_kept (rewritten : Rewrites setting js ns ns' h a)
    (fit : AllFit js ns) : AllKept js ns ns' := by
  induction rewritten with
  | nil => exact .nil
  | cons head tail ih ih' =>
    exact .cons (ih (.single fit.head)).single (ih' fit.tail)
  | keep n =>
    exact .cons ⟨fit.head.regular, fit.head.inner, fun _ => .refl n,
      fun _ _ m hm => ⟨m, hm, .refl m⟩⟩ .nil
  | @node k s ns ns' h a notProgram unplanned children ih =>
    obtain ⟨parts, below, outer⟩ := regular_node.1 fit.head.regular
    have kept := ih (fit_treatments fit.head.regular)
    refine .cons (kept_node notProgram (kept.regularParts _ parts)
      ((trims_finish _ _ _).regular kept.regular) ?_) .nil
    rintro rfl
    exact kept.items
  | program children all ih => cases fit.head.inner
  | @items k s ns ns' h a children ih =>
    have list : k = .list := eq_of_beq (fit.head.items rfl)
    subst list
    obtain ⟨parts, below, outer⟩ := regular_node.1 fit.head.regular
    have kept := ih (fit_place fun n hn => ⟨below n hn, outer n hn⟩)
    refine .cons (kept_node rfl rfl
      (fun n hn => kept.regular n (List.mem_of_mem_filter hn)) ?_) .nil
    exact fun _ m' hm' => kept.items m' (List.mem_of_mem_filter hm')
  | @block s ns ns' names h a children all ih =>
    obtain ⟨parts, below, outer⟩ := regular_node.1 fit.head.regular
    have kept := ih (fit_place fun n hn => ⟨below n hn, outer n hn⟩)
    exact .cons (kept_node rfl rfl (allRegular_declareIn fun n hn =>
      kept.regular n (List.mem_of_mem_filter hn)) nofun) .nil
  | noBlock notBlock inPlace ih =>
    have kept := (ih
      (.single (fit_plain fit.head.regular fit.head.inner nofun nofun))).single
    exact .cons ⟨kept.regular, kept.inner, nofun, nofun⟩ .nil
  | @function k s ns ns' h a parts ih =>
    have fits := fit.head.function rfl
    cases k with
    | function b g =>
      have isRegular := fit.head.regular
      have kept : AllKept (treatments (.function b g) ns) ns ns' :=
        ih (fit_treatments isRegular)
      exact .cons (kept_node rfl (kept.regularParts setting.removals
        (regular_node.1 isRegular).1) kept.regular nofun) .nil
    | _ => cases fits
  | @arrowBody n n' names h a inPlace all ih =>
    have kept := (ih
      (.single (fit_plain fit.head.regular fit.head.inner nofun nofun))).single
    obtain ⟨isRegular, inner⟩ := fit_arrowBody names kept.regular kept.inner
    exact .cons ⟨isRegular, inner, nofun, nofun⟩ .nil
  | @base n arguments arguments' chain h a planned children taken bare ih =>
    have kept :=
      ih (fit_arguments (regular_plannedArguments planned fit.head.regular))
    exact .cons (kept_call planned
      ((Trims.map trimming_unwrapItem _).regular kept.regular) taken) .nil
  | @guarded n arguments arguments' chain t h a planned children taken
      needed ih =>
    have kept :=
      ih (fit_arguments (regular_plannedArguments planned fit.head.regular))
    exact .cons (kept_call planned
      ((Trims.map trimming_unwrapItem _).regular kept.regular) taken) .nil
  | @callbackArrow b s parameters body body' types h a inner ih =>
    obtain ⟨parts, below, outer⟩ := regular_node.1 fit.head.regular
    have second : body ∈ parameters :: body :: types :=
      List.mem_cons_of_mem _ List.mem_cons_self
    have kept := (ih (.single
      (fit_plain (below _ second) (outer _ second) nofun nofun))).single
    refine .cons (kept_node rfl parts ?_ nofun) .nil
    refine List.forall_mem_cons.2
      ⟨⟨below _ List.mem_cons_self, outer _ List.mem_cons_self⟩,
      List.forall_mem_cons.2 ⟨⟨kept.regular, kept.inner⟩, fun n hn => ?_⟩⟩
    have there : n ∈ parameters :: body :: types :=
      List.mem_cons_of_mem _ (List.mem_cons_of_mem _ hn)
    exact ⟨below n there, outer n there⟩
  | @callbackInside k s n n' h a wraps arrow inner ih =>
    obtain ⟨parts, below, outer⟩ := regular_node.1 fit.head.regular
    have kept := (ih (.single (fit_plain (below _ List.mem_cons_self)
      (outer _ List.mem_cons_self) nofun nofun))).single
    have all : AllRegular [n'] :=
      List.forall_mem_singleton.2 ⟨kept.regular, kept.inner⟩
    rcases wraps with rfl | rfl <;>
      exact .cons (kept_node rfl rfl all nofun) .nil
  | noCallback notArrow notInside inPlace ih =>
    have kept := (ih
      (.single (fit_plain fit.head.regular fit.head.inner nofun nofun))).single
    exact .cons ⟨kept.regular, kept.inner, fun _ => kept.stays rfl,
      fun _ => kept.items rfl⟩ .nil

end Every

end NullGuard.Transform
