import NullGuard.Proofs.Remainders

/-!
# Trees in which there is nothing to tidy up

A rewrite tidies up the children of every node, whether anything was rewritten
there or not: it takes off made parentheses, drops empty declarations, and
clears the heads of loops. So it is not obvious that it leaves anything alone. A
tree is `Settled` if all this changes nothing in it.

`rewrites_settled` says that a rewrite that finds no call to rewrite is the
identity on settled trees. Trees that were read from a text are settled where
nothing goes away (`Written.settled`).
-/

namespace NullGuard.Transform

open NullGuard.Text (Span)
open NullGuard.Tree NullGuard.Chain NullGuard.Scope

/-- Whether a node is left alone where it is treated in a way: items stay, and a
body keeps its parentheses. -/
def LeftAlone (removals : List (Option Span)) : Treatment → Node → Prop
  | .items, n => ∀ c ∈ n.children, staysIn removals c = true
  | .arrowBody, n => unwrapConditional n = n
  | _, _ => True

/-- There is nothing to tidy up in the children of a node. -/
structure SettledAt (removals : List (Option Span)) (k : Kind) (s : Option Span)
    (ns : List Node) : Prop where
  finished : finish removals k ns = ns
  items : isProgram k = true → ∀ n ∈ ns, staysIn removals n = true
  parts : ∀ (i : Nat) (j : Treatment) (n : Node), (treatments k ns)[i]? =
    some j → ns[i]? = some n → LeftAlone removals j n
  /-- Parentheses are not made for what is no expression. -/
  paren : k = .paren → s = none → ∀ n ∈ ns, (argument n).2 = false

/-- There is nothing to tidy up in a tree. -/
def Settled (removals : List (Option Span)) (n : Node) : Prop :=
  ∀ m ∈ subnodes n, SettledAt removals m.kind m.span m.children

section Settled

variable {setting : Setting} {removals : List (Option Span)}
  {js : List Treatment} {n : Node} {k : Kind} {s : Option Span}
  {ns ns' : List Node} {h : List String} {a : List RewrittenCall}

theorem Settled.self (settled : Settled removals (.node k s ns)) :
    SettledAt removals k s ns :=
  settled _ (mem_subnodes.2 .here)

theorem Settled.of_occurs {m : Node} (settled : Settled removals n)
    (occurs : Occurs m n) : Settled removals m :=
  fun l hl => settled l (mem_subnodes.2 ((mem_subnodes.1 hl).trans occurs))

theorem Settled.child (settled : Settled removals (.node k s ns))
    (hn : n ∈ ns) : Settled removals n :=
  settled.of_occurs (.inside hn .here)

theorem settled_node (self : SettledAt removals k s ns)
    (children : ∀ n ∈ ns, Settled removals n) :
    Settled removals (.node k s ns) := by
  intro m hm
  cases mem_subnodes.1 hm with
  | here => exact self
  | inside hc inC => exact children _ hc m (mem_subnodes.2 inC)

/-- Nodes that are rewritten in place are left alone. -/
theorem leftAlone_place {i : Nat} {j : Treatment}
    (treated : (ns.map fun _ => Treatment.place)[i]? = some j) (n : Node) :
    LeftAlone removals j n := by
  cases eq_of_map treated
  trivial

/-- A node that is rewritten by itself is treated in one way. -/
theorem leftAlone_one {i : Nat} {j j' : Treatment} (treated : [j'][i]? = some j)
    (alone : LeftAlone removals j' n) : LeftAlone removals j n := by
  rcases i with _ | i
  · cases treated
    exact alone
  · cases treated

/-- The parts of a function are left alone. -/
theorem leftAlone_function {i : Nat} {j : Treatment}
    (treated : (functionTreatments ns)[i]? = some j) (n : Node) :
    LeftAlone removals j n := by
  unfold functionTreatments at treated
  split at treated
  · rcases i with _ | _ | _ | i
    · cases treated
      trivial
    · cases treated
      trivial
    · cases treated
      trivial
    · cases eq_of_map treated
      trivial
  · exact leftAlone_place treated n

/-- **A rewrite that finds no call leaves a settled tree as it is.** -/
theorem rewrites_settled (rewritten : Rewrites setting js ns ns' h a)
    (settled : ∀ n ∈ ns, Settled setting.removals n)
    (alone : ∀ (i : Nat) (j : Treatment) (n : Node), js[i]? = some j →
      ns[i]? = some n → LeftAlone setting.removals j n) (none : a = []) :
    ns' = ns ∧ h = [] := by
  induction rewritten with
  | nil | keep => exact ⟨rfl, rfl⟩
  | cons head tail ih ih' =>
    obtain ⟨first, others⟩ := List.forall_mem_cons.1 settled
    obtain ⟨noneHere, noneBehind⟩ := List.append_eq_nil_iff.1 none
    obtain ⟨sameHead, rfl⟩ :=
      ih (List.forall_mem_singleton.2 first) (fun i j n treated there => by
      rcases i with _ | i
      · exact alone 0 j n treated there
      · cases treated) noneHere
    obtain ⟨rfl, rfl⟩ := ih' others (fun i => alone (i + 1)) noneBehind
    cases sameHead
    exact ⟨rfl, rfl⟩
  | node notProgram unplanned children ih =>
    have whole := settled _ List.mem_cons_self
    obtain ⟨rfl, rfl⟩ := ih (fun n hn => whole.child hn) whole.self.parts none
    rw [whole.self.finished]
    exact ⟨rfl, rfl⟩
  | program children names ih =>
    have whole := settled _ List.mem_cons_self
    obtain ⟨rfl, rfl⟩ := ih (fun n hn => whole.child hn)
      (fun _ _ n treated _ => leftAlone_place treated n) none
    cases names.eq_nil
    rw [List.filter_eq_self.2 (whole.self.items rfl)]
    exact ⟨rfl, rfl⟩
  | @items k s ns ns' h a children ih =>
    have whole := settled _ List.mem_cons_self
    have stay : ∀ n ∈ ns, staysIn setting.removals n = true :=
      alone 0 .items _ rfl rfl
    obtain ⟨rfl, rfl⟩ := ih (fun n hn => whole.child hn)
      (fun _ _ n treated _ => leftAlone_place treated n) none
    rw [List.filter_eq_self.2 stay]
    exact ⟨rfl, rfl⟩
  | @block s ns ns' names h a children all ih =>
    have whole := settled _ List.mem_cons_self
    have stay : ns.filter (staysIn setting.removals) = ns := whole.self.finished
    obtain ⟨rfl, rfl⟩ := ih (fun n hn => whole.child hn)
      (fun _ _ n treated _ => leftAlone_place treated n) none
    cases all.eq_nil
    rw [stay]
    exact ⟨rfl, rfl⟩
  | function parts ih =>
    have whole := settled _ List.mem_cons_self
    obtain ⟨rfl, rfl⟩ := ih (fun n hn => whole.child hn)
      (fun _ _ n treated _ => leftAlone_function treated n) none
    exact ⟨rfl, rfl⟩
  | noBlock _ _ ih | noCallback _ _ _ ih =>
    exact ih settled (fun _ _ _ treated _ => leftAlone_one treated trivial) none
  | @arrowBody n n' names h a inPlace all ih =>
    obtain ⟨sameBody, rfl⟩ :=
      ih settled (fun _ _ _ treated _ => leftAlone_one treated trivial) none
    cases sameBody
    cases all.eq_nil
    have unwrapped : unwrapConditional n = n := alone 0 .arrowBody n rfl rfl
    have unchanged : arrowBody [] n = n := by
      unfold arrowBody
      split
      · rfl
      · exact unwrapped
    rw [unchanged]
    exact ⟨rfl, rfl⟩
  | base | guarded => exact absurd none (by simp)
  | @callbackArrow b s parameters body body' types h a inside ih =>
    have whole := settled _ List.mem_cons_self
    obtain ⟨sameBody, rfl⟩ := ih (List.forall_mem_singleton.2
      (whole.child (List.mem_cons_of_mem _ List.mem_cons_self)))
      (fun _ _ _ treated _ => leftAlone_one treated trivial) none
    cases sameBody
    exact ⟨rfl, rfl⟩
  | @callbackInside k s n n' h a wraps isArrow inside ih =>
    have whole := settled _ List.mem_cons_self
    obtain ⟨sameInner, rfl⟩ :=
      ih (List.forall_mem_singleton.2 (whole.child List.mem_cons_self))
      (fun _ _ _ treated _ => leftAlone_one treated trivial) none
    cases sameInner
    exact ⟨rfl, rfl⟩

/-- Where no call is planned, none is rewritten. -/
theorem rewrites_unplanned (rewritten : Rewrites setting js ns ns' h a)
    (unplanned : ∀ n ∈ ns, ∀ m ∈ subnodes n,
      plannedArguments? setting.plan m = none) : a = [] := by
  have below {k : Kind} {s : Option Span} {ns : List Node}
      (unplanned : ∀ n ∈ [Node.node k s ns], ∀ m ∈ subnodes n,
      plannedArguments? setting.plan m = none) : ∀ n ∈ ns, ∀ m ∈ subnodes n,
      plannedArguments? setting.plan m = none := fun n hn m hm =>
    unplanned _ List.mem_cons_self m
      (mem_subnodes.2 (.inside hn (mem_subnodes.1 hm)))
  have here {n arguments : Node} (planned : plannedArguments? setting.plan n =
      some arguments) (unplanned : ∀ n' ∈ [n], ∀ m ∈ subnodes n',
      plannedArguments? setting.plan m = none) : False := by
    cases planned.symm.trans
      (unplanned n List.mem_cons_self n (mem_subnodes.2 .here))
  induction rewritten with
  | nil | keep => rfl
  | cons head tail ih ih' =>
    obtain ⟨first, others⟩ := List.forall_mem_cons.1 unplanned
    rw [ih (List.forall_mem_singleton.2 first), ih' others]
    rfl
  | node _ _ _ ih | program _ _ ih | items _ ih | block _ _ ih | function _ ih
      | callbackInside _ _ _ ih =>
    exact ih (below unplanned)
  | noBlock _ _ ih | noCallback _ _ _ ih | arrowBody _ _ ih =>
    exact ih unplanned
  | base planned | guarded planned => exact (here planned unplanned).elim
  | callbackArrow _ ih =>
    exact ih (List.forall_mem_singleton.2
      (below unplanned _ (List.mem_cons_of_mem _ List.mem_cons_self)))

/-- There is nothing to tidy up in a node that was read and whose children
stay. -/
theorem finish_written (written : Written (.node k s ns))
    (kept : ∀ n ∈ ns, isGone removals n = false) :
    finish removals k ns = ns := by
  have all n (hn : n ∈ ns) : Written n := written.child hn
  have unwraps : ∀ i, ns.modify i unwrap = ns :=
    modify_written (fun _ => unwrap_written) all
  have lone : ∀ i, ns.modify i loneStatement = ns :=
    modify_written (fun _ => loneStatement_written) all
  have items : ns.modify 1 (mapItems unwrapItem) = ns :=
    modify_written (fun _ => mapItems_written fun _ => unwrapItem_written) all 1
  cases k
  case block | moduleBlock => exact filter_staysIn_written all kept
  case exprStmt =>
    exact modify_written (fun _ => unwrapConditional_written) all 0
  case assign | declarator | keyValue | assignPat => exact unwraps 1
  case property =>
    simp only [finish, tidy]
    split
    · rfl
    · exact unwraps 1
  case returnStmt | throwStmt | computed | paren => exact unwraps 0
  case markup form =>
    cases form
    case container => exact unwraps 0
    all_goals rfl
  case array => exact map_written (fun _ => unwrapItem_written) all
  case call | new | optCall => exact items
  case cond => simp only [finish, tidy, unwraps]
  case seq | template => exact map_written (fun _ => unwrap_written) all
  case varDecl w d =>
    refine List.filter_eq_self.2 fun n hn => ?_
    have stays := kept n hn
    rw [isGone, declarators_of_written written w d rfl n hn, Bool.or_true,
      Bool.true_and] at stays
    rw [stays]
    rfl
  case ifStmt => simp only [finish, tidy, lone]
  case labeled | whileStmt | doWhile | withStmt => exact lone 1
  case forStmt =>
    have start : ns.modify 0 loopStart = ns :=
      modify_written (fun _ => loopStart_written) all 0
    simp only [finish, tidy, start, lone]
  case forIn | forOf => exact lone 2
  all_goals rfl

/-- What was read and does not go away is left alone, wherever it is. -/
theorem leftAlone_written (written : Written n)
    (stays : ∀ m ∈ subnodes n, isGone removals m = false) (j : Treatment) :
    LeftAlone removals j n := by
  cases j with
  | items =>
    obtain ⟨k, s, ns⟩ := n
    refine List.filter_eq_self.1
      (filter_staysIn_written (fun c hc => written.child hc) fun c hc => ?_)
    exact stays c (mem_subnodes.2 (.inside hc .here))
  | arrowBody => exact unwrapConditional_written written
  | _ => trivial

/-- **A tree that was read is settled** where nothing goes away. -/
theorem Written.settled (written : Written n)
    (stays : ∀ m ∈ subnodes n, isGone removals m = false) :
    Settled removals n := by
  rintro ⟨k, s, ns⟩ hm
  have occurs := mem_subnodes.1 hm
  have here : Written (.node k s ns) :=
    fun l hl => written l (mem_subnodes.2 ((mem_subnodes.1 hl).trans occurs))
  have below : ∀ c ∈ ns, ∀ l ∈ subnodes c, isGone removals l = false :=
    fun c hc l hl =>
    stays l (mem_subnodes.2
      (((mem_subnodes.1 hl).trans (.inside hc .here)).trans occurs))
  have kept : ∀ c ∈ ns, isGone removals c = false :=
    fun c hc => below c hc c (mem_subnodes.2 .here)
  refine ⟨finish_written here kept, fun _ => ?_, fun i j c _ there => ?_,
    fun isParen made => ?_⟩
  · exact List.filter_eq_self.1
      (filter_staysIn_written (fun c hc => here.child hc) kept)
  · exact leftAlone_written (here.child (List.mem_of_getElem? there))
      (below c (List.mem_of_getElem? there)) j
  · have given := here.self
    rw [Node.kind_node] at isParen
    rw [Node.span_node] at made
    subst isParen made
    cases given

end Settled

end NullGuard.Transform
