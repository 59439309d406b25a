import NullGuard.Proofs.Kept

/-!
# What holds of every node

To show that every node in a result has a property, one follows a rewrite.
Besides the nodes of the program and the expressions of chains it puts in little
of its own: missing parts, sequences, and the statement that declares
temporaries. So a property that such nodes have (`isFrame`) holds everywhere
after a step of the rewrite if it did before: parts are tidied up
(`Trims.everywhere`), calls are taken apart (`everywhere_decompose`), and
temporaries are declared (`everywhere_declareIn`, `everywhere_arrowBody`).
-/

namespace NullGuard.Transform

open NullGuard.Text (Span)
open NullGuard.Tree NullGuard.Chain NullGuard.Scope

/-- A property holds of every node in some nodes. -/
def Everywhere (q : Node → Prop) (ns : List Node) : Prop :=
  ∀ m ∈ subnodesAmong ns, q m

/-- Whether nodes of a kind are put around other nodes, or where there are
none. -/
def isFrame : Kind → Bool
  | .absent | .empty | .list | .spread | .block | .returnStmt | .varDecl _ _
      | .bindingIdent _ _ =>
    true
  | _ => false

section Everywhere

variable {q : Node → Prop} {m n : Node} {k : Kind} {s : Option Span}
  {ns ms : List Node}

theorem mem_subnodes_node :
    m ∈ subnodes (.node k s ns) ↔ m = .node k s ns ∨ m ∈ subnodesAmong ns := by
  rw [subnodes, List.mem_cons]

theorem mem_subnodesAmong_single : m ∈ subnodesAmong [n] ↔ m ∈ subnodes n := by
  rw [subnodesAmong, subnodesAmong, List.append_nil]

theorem mem_subnodesAmong_cons :
    m ∈ subnodesAmong (n :: ns) ↔ m ∈ subnodes n ∨ m ∈ subnodesAmong ns := by
  rw [subnodesAmong, List.mem_append]

theorem everywhere_nil : Everywhere q [] :=
  fun _ hm => nomatch hm

theorem everywhere_append :
    Everywhere q (ns ++ ms) ↔ Everywhere q ns ∧ Everywhere q ms := by
  rw [Everywhere, subnodesAmong_append, List.forall_mem_append]
  rfl

theorem everywhere_cons :
    Everywhere q (n :: ns) ↔ Everywhere q [n] ∧ Everywhere q ns := by
  rw [← List.singleton_append, everywhere_append]

theorem everywhere_node :
    Everywhere q [.node k s ns] ↔ q (.node k s ns) ∧ Everywhere q ns := by
  simp only [Everywhere, mem_subnodesAmong_single, mem_subnodes_node,
    forall_eq_or_imp]

theorem Everywhere.imp {q' : Node → Prop} (all : Everywhere q ns)
    (imp : ∀ n, q n → q' n) : Everywhere q' ns :=
  fun m hm => imp m (all m hm)

theorem Everywhere.of_occurs (all : Everywhere q ns) (hn : n ∈ ns)
    (occurs : Occurs m n) : Everywhere q [m] := by
  intro l hl
  refine all l
    (mem_subnodesAmong.2 ⟨n, hn, mem_subnodes.2 (Occurs.trans ?_ occurs)⟩)
  exact mem_subnodes.1 (mem_subnodesAmong_single.1 hl)

theorem everywhere_of_forall (all : ∀ n ∈ ns, Everywhere q [n]) :
    Everywhere q ns := by
  intro m hm
  obtain ⟨n, hn, inside⟩ := mem_subnodesAmong.1 hm
  exact all n hn m (mem_subnodesAmong_single.2 inside)

section Frames

variable (frames : ∀ k s ns, isFrame k = true → q (.node k s ns))

include frames

/-- **Tidying up keeps what holds everywhere.** -/
theorem Trims.everywhere (trims : Trims ns ms) (all : Everywhere q ns) :
    Everywhere q ms := by
  induction trims with
  | nil => exact everywhere_nil
  | keep n rest ih =>
    obtain ⟨first, others⟩ := everywhere_cons.1 all
    exact everywhere_cons.2 ⟨first, ih others⟩
  | drop n rest ih => exact ih (everywhere_cons.1 all).2
  | gone n empty rest ih =>
    refine everywhere_cons.2 ⟨everywhere_node.2
      ⟨frames _ _ _ ?_, everywhere_nil⟩, ih (everywhere_cons.1 all).2⟩
    rcases empty with rfl | rfl <;> rfl
  | unwrap inner rest ih =>
    obtain ⟨first, others⟩ := everywhere_cons.1 all
    exact everywhere_cons.2 ⟨(everywhere_node.1 first).2, ih others⟩
  | within wraps inside rest ih ih' =>
    obtain ⟨first, others⟩ := everywhere_cons.1 all
    refine everywhere_cons.2 ⟨everywhere_node.2
      ⟨frames _ _ _ ?_, ih (everywhere_node.1 first).2⟩, ih' others⟩
    rcases wraps with rfl | rfl <;> rfl
  | trans _ _ ih ih' => exact ih' (ih all)

section Declarations

variable
  (declares : ∀ x,
    q (made (.declarator false) [made (.bindingIdent x false) [.none], .none]))

include declares

theorem everywhere_varStatement (names : List String) :
    Everywhere q [varStatement names] := by
  have missing : Everywhere q [.none] :=
    everywhere_node.2 ⟨frames _ _ _ rfl, everywhere_nil⟩
  refine everywhere_node.2 ⟨frames _ _ _ rfl,
    everywhere_of_forall fun n hn => ?_⟩
  obtain ⟨x, -, rfl⟩ := List.mem_map.1 hn
  have name : Everywhere q [made (.bindingIdent x false) [.none]] :=
    everywhere_node.2 ⟨frames _ _ _ rfl, missing⟩
  exact everywhere_node.2 ⟨declares x, everywhere_cons.2 ⟨name, missing⟩⟩

/-- Declaring temporaries adds only their declaration. -/
theorem everywhere_declareIn (names : List String) (all : Everywhere q ns) :
    Everywhere q (declareIn names ns) := by
  rcases declareIn_eq names ns with ⟨same, -⟩ | ⟨front, back, same, rfl⟩
  · rwa [same]
  · obtain ⟨before, behind⟩ := everywhere_append.1 all
    rw [same]
    exact everywhere_append.2 ⟨before,
      everywhere_cons.2 ⟨everywhere_varStatement frames declares names, behind⟩⟩

theorem everywhere_arrowBody (names : List String) (all : Everywhere q [n]) :
    Everywhere q [arrowBody names n] := by
  unfold arrowBody
  split
  · obtain ⟨-, items⟩ := everywhere_node.1 all
    exact everywhere_node.2 ⟨frames _ _ _ rfl,
      everywhere_declareIn frames declares names items⟩
  · split
    · exact (trimming_unwrapConditional n .nil).everywhere frames all
    · have value := (trimming_unwrap n .nil).everywhere frames all
      refine everywhere_node.2 ⟨frames _ _ _ rfl,
        everywhere_cons.2 ⟨everywhere_varStatement frames declares names, ?_⟩⟩
      exact everywhere_node.2 ⟨frames _ _ _ rfl, value⟩

end Declarations

/-- Taking a call apart leaves only parts of its arguments. -/
theorem everywhere_decompose {policy : ChainPolicy} {span : Option Span}
    {given : List Node} {c : AccessChain}
    (taken : decompose policy span (given.map unwrapItem) = .ok c)
    (all : Everywhere q given) :
    Everywhere q (c.base :: pieces c.steps) := by
  have items := (Trims.map trimming_unwrapItem given).everywhere frames all
  refine everywhere_of_forall fun n hn => ?_
  obtain ⟨g, hg, occurs⟩ := occurs_of_decompose taken hn
  exact items.of_occurs hg occurs

end Frames

end Everywhere

end NullGuard.Transform
