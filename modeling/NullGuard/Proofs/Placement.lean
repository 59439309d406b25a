import NullGuard.Proofs.Remainders

/-!
# Where declarations stand

Taking declarations away depends on where they stand: a declaration of variables
without declarators is dropped from a list of statements, and made an empty
statement where it is alone. That this is all that has to be looked at is due to
the grammar, which has declarations where it has statements, and nowhere else
(`WellPlaced`).

`Arranged` puts together what is known about a node of a program that was read
from a text and is treated in some way; `arranged_treatments` and the lemmas
behind it hand this down to the parts of the node.
-/

namespace NullGuard.Transform

open NullGuard.Text (Span)
open NullGuard.Tree NullGuard.Chain NullGuard.Scope

/-- Whether a declaration of variables may stand at a position in a node of a
kind. -/
def takesVariables : Kind → Nat → Bool
  | .program _ _, _ | .block, _ | .moduleBlock, _ | .list, _ | .exportDecl, _ =>
    true
  | .ifStmt, i => i == 1 || i == 2
  | .labeled, i | .whileStmt, i | .doWhile, i | .withStmt, i => i == 1
  | .forStmt, i => i == 0 || i == 3
  | .forIn, i | .forOf _, i => i == 0 || i == 2
  | _, _ => false

/-- Whether imports may stand in a node of a kind. -/
def takesImports : Kind → Bool
  | .program _ _ | .block | .moduleBlock => true
  | _ => false

/-- Whether a node may stand at a position in a node of a kind: declarations
where they may, statements in a sequence only behind `case`, and no declarations
in types. -/
def placedAt (k : Kind) (i : Nat) (n : Node) : Bool :=
  (!isVariables n.kind || takesVariables k i) && (!isImport n.kind ||
    takesImports k) && (!isDeclarator n.kind || isVariables k) &&
    (n.kind != .list || (k == .switchCase && i == 1) ||
    n.children.all fun m => !isVariables m.kind) && (!isAside k i ||
    (subnodes n).all fun m => !isVariables m.kind && !isImport m.kind)

/-- Whether the children of a node may stand where they do. -/
def wellPlaced : Node → Bool
  | .node k _ ns =>
    (k != .switchCase || ns.length == 2) &&
      ns.zipIdx.all fun (n, i) => placedAt k i n

/-- In every program that was read from a text declarations stand where
statements do. -/
def WellPlaced (n : Node) : Prop :=
  ∀ m ∈ subnodes n, wellPlaced m = true

/-- What is true of every piece of a program that was read from a text. -/
structure Parsed (n : Node) : Prop where
  regular : regular n = true
  shaped : ∀ m ∈ subnodes n, wellShaped m = true
  written : Written n
  placed : WellPlaced n

/-- A node that is treated in a way, in a program that was read from a text. -/
structure Arranged (j : Treatment) (n : Node) :
    Prop extends Parsed n, Fit j n where
  aside : j = .keep → ∀ m ∈ subnodes n, isVariables m.kind = false ∧
    isImport m.kind = false
  plain : j = .arrowBody → isVariables n.kind = false
  operands : n.kind = .list → j ≠ .items → ∀ m ∈ n.children,
    isVariables m.kind = false

/-- Several nodes that are treated in some ways, in a program that was read from
a text. -/
def AllArranged (js : List Treatment) (ns : List Node) : Prop :=
  ∀ (i : Nat) (j : Treatment) (n : Node), js[i]? = some j → ns[i]? = some n →
    Arranged j n

section Placed

variable {j : Treatment} {js : List Treatment} {n m : Node} {k : Kind}
  {s : Option Span} {ns : List Node} {i : Nat}

theorem WellPlaced.child (h : WellPlaced (.node k s ns)) (hn : n ∈ ns) :
    WellPlaced n :=
  fun m hm => h m (mem_subnodes.2 (.inside hn (mem_subnodes.1 hm)))

theorem WellPlaced.at (h : WellPlaced (.node k s ns))
    (there : ns[i]? = some n) : placedAt k i n = true := by
  have here := h _ (mem_subnodes.2 .here)
  rw [wellPlaced, Bool.and_eq_true, List.all_eq_true] at here
  exact here.2 (n, i) (List.mk_mem_zipIdx_iff_getElem?.2 there)

theorem placedAt_iff :
    placedAt k i n = true ↔
      (isVariables n.kind = true → takesVariables k i = true) ∧
      (isImport n.kind = true → takesImports k = true) ∧
        (isDeclarator n.kind = true → isVariables k = true) ∧
      (n.kind = .list → k = .switchCase ∧ i = 1 ∨ ∀ m ∈ n.children,
        isVariables m.kind = false) ∧
      (isAside k i = true → ∀ m ∈ subnodes n, isVariables m.kind = false ∧
        isImport m.kind = false) := by
  simp only [placedAt, Bool.and_eq_true, Bool.or_eq_true, Bool.not_eq_true',
    bne_iff_ne, beq_iff_eq, List.all_eq_true, and_assoc, ne_eq]
  grind

/-- Where no declarations of variables may stand there are none. -/
theorem WellPlaced.plain (h : WellPlaced (.node k s ns))
    (nowhere : ∀ i, takesVariables k i = false) (hn : n ∈ ns) :
    isVariables n.kind = false := by
  obtain ⟨i, there⟩ := List.mem_iff_getElem?.1 hn
  rw [← Bool.not_eq_true]
  intro declares
  cases (nowhere i).symm.trans ((placedAt_iff.1 (h.at there)).1 declares)

theorem AllArranged.head (h : AllArranged (j :: js) (n :: ns)) : Arranged j n :=
  h 0 j n rfl rfl

theorem AllArranged.tail (h : AllArranged (j :: js) (n :: ns)) :
    AllArranged js ns :=
  fun i => h (i + 1)

theorem AllArranged.single (h : Arranged j n) : AllArranged [j] [n] := by
  intro i j' n' treated there
  rcases i with _ | i
  · cases treated
    cases there
    exact h
  · cases treated

theorem AllArranged.fit (h : AllArranged js ns) : AllFit js ns :=
  fun i j n treated there => (h i j n treated there).toFit

/-- A node that is not a sequence of statements may be rewritten in place. -/
theorem Arranged.inPlace (h : Arranged j n) (noItems : j ≠ .items) :
    Arranged .place n :=
  ⟨h.toParsed, h.inner, nofun, nofun, nofun, nofun,
    fun isList _ => h.operands isList noItems⟩

/-- Bodies are no declarations. -/
theorem takesVariables_of_bodyIndex (body : bodyIndex k = some i) :
    takesVariables k i ≠ true := by
  intro takes
  unfold takesVariables at takes
  split at takes <;> first | cases body | cases takes

/-- A part of a node, if it is treated as its place lets it be. -/
theorem Parsed.part (h : Parsed (.node k s ns)) (there : ns[i]? = some n)
    (fit : Fit j n) (kept : j = .keep → isAside k i = true)
    (body : j = .arrowBody → bodyIndex k = some i)
    (case : k = .switchCase → i = 1 → j = .items) : Arranged j n := by
  have mem := List.mem_of_getElem? there
  obtain ⟨takes, -, -, lists, asides⟩ := placedAt_iff.1 (h.placed.at there)
  have parsed : Parsed n := ⟨fit.regular, fun m hm => h.shaped m (mem_subnodes.2
    (.inside mem (mem_subnodes.1 hm))), h.written.child mem, h.placed.child mem⟩
  refine ⟨parsed, fit.inner, fit.function, fit.items, fun isKept =>
    asides (kept isKept), fun isBody => ?_, fun isList noItems => ?_⟩
  · rw [← Bool.not_eq_true]
    exact fun declares => takesVariables_of_bodyIndex (body isBody)
      (takes declares)
  · exact (lists isList).resolve_left fun ⟨isCase, second⟩ =>
      noItems (case isCase second)

/-- The children of a node are arranged as they are treated. -/
theorem arranged_treatments (h : Parsed (.node k s ns)) :
    AllArranged (treatments k ns) ns := by
  intro i j' n treated there
  refine h.part there (fit_treatments h.regular i j' n treated there)
    (fun isKept => ?_) (fun isBody => bodyIndex_of_treatments treated
    (by rw [isBody]; rfl)) fun isCase second => ?_
  · subst isKept
    cases treated_of_treatments treated with
    | keep isAside => exact isAside
    | body body _ => cases body
  · subst isCase second
    have here := h.placed _ (mem_subnodes.2 .here)
    rw [wellPlaced, Bool.and_eq_true] at here
    obtain ⟨first, second, rfl⟩ := List.length_eq_two.1 (beq_iff_eq.1 here.1)
    cases treated
    rfl

/-- A child that is rewritten in place, or as a callback. -/
theorem Parsed.operand (h : Parsed (.node k s ns)) (noCase : k ≠ .switchCase)
    (hn : n ∈ ns) (treated : j = .place ∨ j = .callback) : Arranged j n := by
  obtain ⟨i, there⟩ := List.mem_iff_getElem?.1 hn
  obtain ⟨-, below, outer⟩ := regular_node.1 h.regular
  refine h.part there (fit_plain (below n hn) (outer n hn) ?_ ?_) ?_ ?_
    fun isCase => absurd isCase noCase
  all_goals rcases treated with rfl | rfl <;> nofun

/-- The children of a node that are all rewritten in place. -/
theorem arranged_place (h : Parsed (.node k s ns)) (noCase : k ≠ .switchCase) :
    AllArranged (ns.map fun _ => .place) ns :=
  fun _ _ _ treated there => h.operand noCase (List.mem_of_getElem? there)
    (.inl (eq_of_map treated))

/-- The arguments of a helper call are a sequence. -/
theorem arranged_list {plan : Plan} {arguments : Node}
    (planned : plannedArguments? plan n = some arguments) (h : Parsed n) :
    arguments.kind = .list ∧ Arranged .place arguments := by
  obtain ⟨s, callee, rest, rfl, -⟩ := planned_cases planned
  have isList : arguments.kind = .list := by
    have shaped := h.shaped _ (mem_subnodes.2 .here)
    obtain ⟨k, l, items⟩ := arguments
    unfold wellShaped at shaped
    split at shaped <;> simp_all
  exact ⟨isList,
    h.operand (by simp) (List.mem_cons_of_mem _ List.mem_cons_self) (.inl rfl)⟩

/-- There are no declarations among the arguments of a helper call. -/
theorem operands_of_arguments {plan : Plan} {arguments : Node}
    (planned : plannedArguments? plan n = some arguments) (h : Parsed n) :
    ∀ m ∈ arguments.children, isVariables m.kind = false := by
  obtain ⟨isList, list⟩ := arranged_list planned h
  exact list.operands isList (by simp)

/-- The arguments of a helper call are arranged as they are treated. -/
theorem arranged_arguments {plan : Plan} {arguments : Node}
    (planned : plannedArguments? plan n = some arguments) (h : Parsed n) :
    AllArranged (argumentTreatments arguments.children) arguments.children := by
  obtain ⟨isList, list⟩ := arranged_list planned h
  obtain ⟨k, l, items⟩ := arguments
  subst isList
  intro i j' n treated there
  exact list.operand (by simp) (List.mem_of_getElem? there)
    (treatment_of_argument treated)

end Placed

end NullGuard.Transform
