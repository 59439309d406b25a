import NullGuard.Proofs.PlannedCalls
import NullGuard.Proofs.PlainScripts

/-!
# Nodes that stand in a program, and the nodes around them

A rewrite takes some nodes of a program away, moves others, and has to leave the
rest alone. To say that a node is still where it was, this module names nodes
together with what stands around them (`Situated`).

* `Remains` picks nodes of a program that a rewrite must not touch: no call to
  rewrite and no declaration that goes away is in them, and of a call that is
  rewritten only the parts of its chain count (`callParts`).
* `Shows` says that nodes stand in the result, in this order and each below the
  nodes that are named. Sequences and nodes without a span count for nothing
  there, as parentheses and conditionals are made on the way.

What a rewrite does to the nodes that it puts together keeps what they show: the
tidying of children (`shows_finish`), the declaration of temporaries
(`shows_declareIn`), the body of an arrow function (`shows_arrowBody`), and the
expression of a chain (`shows_expression`).
-/

namespace NullGuard.Transform

open NullGuard.Text (Span)
open NullGuard.Tree NullGuard.Chain NullGuard.Scope

/-- Whether a node is an import or a declarator that goes away. -/
def isGone (removals : List (Option Span)) (n : Node) : Bool :=
  (isImport n.kind || isDeclarator n.kind) && removals.contains n.span

/-- Whether a node is a call to rewrite, or a declaration that goes away. -/
def isTouched (plan : Plan) (n : Node) : Bool :=
  (plannedArguments? plan n).isSome || isGone plan.removals n

/-- Nothing in a node is touched. -/
def Untouched (plan : Plan) (n : Node) : Prop :=
  ∀ m ∈ subnodes n, isTouched plan m = false

/-- Whether parentheses have a span, and a declaration of variables has
declarators and nothing else. -/
def wellWritten : Node → Bool
  | .node .paren s _ => s.isSome
  | .node (.varDecl _ _) _ ns =>
    !ns.isEmpty && ns.all fun n => isDeclarator n.kind
  | _ => true

/-- What is true of every node that was read from a text, and of few that a
rewrite makes. -/
def Written (n : Node) : Prop :=
  ∀ m ∈ subnodes n, wellWritten m = true

section Written

variable {plan : Plan} {n : Node} {k : Kind} {s : Option Span} {ns : List Node}

theorem Written.self (h : Written n) : wellWritten n = true :=
  h n (mem_subnodes.2 .here)

theorem Written.child (h : Written (.node k s ns)) (hn : n ∈ ns) : Written n :=
  fun m hm => h m (mem_subnodes.2 (.inside hn (mem_subnodes.1 hm)))

theorem Written.argument {arguments : Node} (h : Written n)
    (planned : plannedArguments? plan n = some arguments) {m : Node}
    (hm : m ∈ arguments.children) : Written m := by
  obtain ⟨k, s, ns⟩ := n
  obtain ⟨k', s', ms⟩ := arguments
  exact (h.child (occurs_of_planned planned)).child hm

theorem Untouched.self (h : Untouched plan n) : isTouched plan n = false :=
  h n (mem_subnodes.2 .here)

theorem isTouched_eq_false : isTouched plan n = false ↔
    plannedArguments? plan n = none ∧ isGone plan.removals n = false := by
  rw [isTouched, Bool.or_eq_false_iff, Option.isSome_eq_false_iff,
    Option.isNone_iff_eq_none]

/-- The children of a declaration of variables that was read are declarators. -/
theorem declarators_of_written (written : Written (.node k s ns)) :
    ∀ w d, k = .varDecl w d → ∀ n ∈ ns, isDeclarator n.kind = true := by
  rintro w d rfl n hn
  have well := written.self
  rw [wellWritten, Bool.and_eq_true] at well
  exact List.all_eq_true.1 well.2 n hn

theorem Written.notEmptied (h : Written n) : isEmptied n = false := by
  have well := h.self
  unfold isEmptied
  split
  · cases well
  · rfl

/-- Only imports and declarators go away. -/
theorem isGone_of_kind {removals : List (Option Span)}
    (other : (isImport k || isDeclarator k) = false) :
    isGone removals (.node k s ns) = false := by
  rw [isGone, Node.kind_node, other, Bool.false_and]

theorem unwrap_written (h : Written n) : unwrap n = n := by
  unfold unwrap
  split
  · cases h.self
  · rfl

theorem unwrapConditional_written (h : Written n) :
    unwrapConditional n = n := by
  unfold unwrapConditional
  split
  · cases h.self
  · rfl

theorem unwrapItem_written (h : Written n) : unwrapItem n = n := by
  unfold unwrapItem
  split
  · rw [unwrap_written (h.child List.mem_cons_self)]
  · exact unwrap_written h

theorem mapItems_written {f : Node → Node} (each : ∀ m, Written m → f m = m)
    (h : Written n) : mapItems f n = n := by
  unfold mapItems
  split
  · rename_i s items
    have same : items.map f = items := by
      rw [List.map_congr_left fun m hm => each m (h.child hm), List.map_id']
    rw [same]
  · rfl

theorem loneStatement_written (h : Written n) : loneStatement n = n := by
  rw [loneStatement, h.notEmptied]
  rfl

theorem loopStart_written (h : Written n) : loopStart n = n := by
  rw [loopStart, h.notEmptied]
  rfl

/-- A change to one of several nodes that does not change it. -/
theorem modify_written {f : Node → Node} (each : ∀ m, Written m → f m = m)
    (all : ∀ n ∈ ns, Written n) (i : Nat) : ns.modify i f = ns := by
  induction ns generalizing i with
  | nil => exact List.modify_nil ..
  | cons n ns ih =>
    obtain ⟨first, rest⟩ := List.forall_mem_cons.1 all
    cases i with
    | zero => rw [List.modify_zero_cons, each n first]
    | succ i => rw [List.modify_succ_cons, ih rest]

theorem map_written {f : Node → Node} (each : ∀ m, Written m → f m = m)
    (all : ∀ n ∈ ns, Written n) : ns.map f = ns := by
  rw [List.map_congr_left fun m hm => each m (all m hm), List.map_id']

/-- Items that were read and do not go away stay. -/
theorem filter_staysIn_written {removals : List (Option Span)}
    (all : ∀ n ∈ ns, Written n) (kept : ∀ n ∈ ns, isGone removals n = false) :
    ns.filter (staysIn removals) = ns := by
  refine List.filter_eq_self.2 fun n hn => ?_
  unfold staysIn
  split
  · rename_i typeOnly kind
    have stays := kept n hn
    rw [isGone, kind, show isImport (.importDecl typeOnly) = true from rfl,
      Bool.true_or, Bool.true_and] at stays
    rw [stays]
    rfl
  · rw [(all n hn).notEmptied]
    rfl

end Written

/-- A node in a program, with the kinds and spans of the nodes around it, from
the outside in. -/
structure Situated where
  around : List (Kind × Option Span)
  node : Node

/-- A node that stands inside of one more node. Sequences and nodes without a
span are left out. -/
def Situated.under (k : Kind) (s : Option Span) (p : Situated) : Situated :=
  if s.isNone || k == .list then p else ⟨(k, s) :: p.around, p.node⟩

/-- What a body that leads from a parameter through some steps takes along:
keys, arguments and types. Of a call to rewrite the base is looked at. -/
def chainParts (plan : Plan) : Node → List Node
  | .node .member _ [object, property] => chainParts plan object ++ [property]
  | .node .call _ (callee :: .node k s arguments :: rest) =>
    if isPlanned plan callee then
      match arguments with
      | base :: _ => chainParts plan base
      | [] => []
    else chainParts plan callee ++ .node k s arguments :: rest
  | .node .paren _ [inner] => chainParts plan inner
  | _ => []

/-- What a callback takes along: the parts of its body. -/
def callbackParts (plan : Plan) : Node → List Node
  | .node (.arrow _) _ (_ :: body :: _) => chainParts plan body
  | .node .call _ (callee :: .node _ _ (base :: _) :: _) =>
    if isPlanned plan callee then callbackParts plan base else []
  | .node .paren _ [inner] => callbackParts plan inner
  | _ => []

/-- What a call to rewrite takes along: its base, and the parts of its
callback. -/
def callParts (plan : Plan) : List Node → List Node
  | base :: callback :: _ => base :: callbackParts plan callback
  | _ => []

/-- A part of a call to rewrite. If there is more than the base, it comes to
stand in a conditional with the span of the call. -/
def Situated.inCall (parts : List Node) (s : Option Span) (p : Situated) :
    Situated :=
  if parts.length ≤ 1 then p else p.under .cond s

/-- **Nodes that a rewrite has to leave**, in order, each with what will stand
around it: nodes that are not touched, in nodes that are not touched themselves,
and in the parts of calls to rewrite. -/
inductive Remains (plan : Plan) : List Node → List Situated → Prop where
  | nil : Remains plan [] []
  | pass (n : Node) {ns : List Node} {ps : List Situated}
      (rest : Remains plan ns ps) :
      Remains plan (n :: ns) ps
  | here {n : Node} {ns : List Node} {ps : List Situated}
      (untouched : Untouched plan n) (whole : n.kind ≠ .list)
      (rest : Remains plan ns ps) :
      Remains plan (n :: ns) (⟨[], n⟩ :: ps)
  | inside {k : Kind} {s : Option Span} {ms ns : List Node}
      {qs ps : List Situated} (plain : isTouched plan (.node k s ms) = false)
      (within : Remains plan ms qs) (rest : Remains plan ns ps) :
      Remains plan (.node k s ms :: ns) (qs.map (.under k s) ++ ps)
  | call {n arguments : Node} {ns : List Node} {qs ps : List Situated}
      (planned : plannedArguments? plan n = some arguments)
      (within : Remains plan (callParts plan arguments.children) qs)
      (rest : Remains plan ns ps) :
      Remains plan (n :: ns)
        (qs.map (.inCall (callParts plan arguments.children) n.span) ++ ps)

/-- **Nodes that stand in some nodes**, in order, each with what stands around
it. None of them was made by a rewrite, and nothing that goes away is among them
or around them. -/
inductive Shows (removals : List (Option Span)) :
    List Node → List Situated → Prop where
  | nil : Shows removals [] []
  | pass (n : Node) {ns : List Node} {ps : List Situated}
      (rest : Shows removals ns ps) :
      Shows removals (n :: ns) ps
  | here {n : Node} {ns : List Node} {ps : List Situated} (written : Written n)
      (kept : isGone removals n = false) (whole : n.kind ≠ .list)
      (rest : Shows removals ns ps) :
      Shows removals (n :: ns) (⟨[], n⟩ :: ps)
  | inside {k : Kind} {s : Option Span} {ms ns : List Node}
      {qs ps : List Situated} (kept : isGone removals (.node k s ms) = false)
      (within : Shows removals ms qs) (rest : Shows removals ns ps) :
      Shows removals (.node k s ms :: ns) (qs.map (.under k s) ++ ps)

section Remains

variable {plan : Plan} {n : Node} {ns ms : List Node} {ps : List Situated}

/-- What remains of one node. -/
theorem Remains.single (h : Remains plan [n] ps) :
    ps = [] ∨ (ps = [⟨[], n⟩] ∧ Untouched plan n ∧ n.kind ≠ .list) ∨
      (∃ qs, ps = qs.map (.under n.kind n.span) ∧ isTouched plan n = false ∧
      Remains plan n.children qs) ∨ ∃ arguments qs, ps =
      qs.map (.inCall (callParts plan arguments.children) n.span) ∧
      plannedArguments? plan n = some arguments ∧
        Remains plan (callParts plan arguments.children) qs := by
  have nothing {ps : List Situated} (rest : Remains plan [] ps) : ps = [] := by
    cases rest
    rfl
  cases h with
  | pass _ rest => exact .inl (nothing rest)
  | here untouched whole rest =>
    cases nothing rest
    exact .inr (.inl ⟨rfl, untouched, whole⟩)
  | inside plain within rest =>
    cases nothing rest
    exact .inr (.inr (.inl ⟨_, List.append_nil _, plain, within⟩))
  | call planned within rest =>
    cases nothing rest
    exact .inr (.inr (.inr ⟨_, _, List.append_nil _, planned, within⟩))

/-- What remains of several nodes remains of the first ones and of the
others. -/
theorem Remains.of_append (h : Remains plan (ns ++ ms) ps) :
    ∃ qs rs, ps = qs ++ rs ∧ Remains plan ns qs ∧ Remains plan ms rs := by
  induction ns generalizing ps with
  | nil => exact ⟨[], ps, rfl, .nil, h⟩
  | cons n ns ih =>
    cases h with
    | pass _ rest =>
      obtain ⟨qs, rs, rfl, left, right⟩ := ih rest
      exact ⟨qs, rs, rfl, .pass n left, right⟩
    | here untouched whole rest =>
      obtain ⟨qs, rs, rfl, left, right⟩ := ih rest
      exact ⟨_ :: qs, rs, rfl, .here untouched whole left, right⟩
    | inside plain within rest =>
      obtain ⟨qs, rs, rfl, left, right⟩ := ih rest
      exact ⟨_ ++ qs, rs, (List.append_assoc ..).symm,
        .inside plain within left, right⟩
    | call planned within rest =>
      obtain ⟨qs, rs, rfl, left, right⟩ := ih rest
      exact ⟨_ ++ qs, rs, (List.append_assoc ..).symm,
        .call planned within left, right⟩

end Remains

section Shows

variable {removals : List (Option Span)} {n : Node} {k : Kind} {s : Option Span}
  {ns ms : List Node} {ps qs : List Situated}

/-- Nothing stands in any nodes. -/
theorem Shows.nothing (removals : List (Option Span)) (ns : List Node) :
    Shows removals ns [] := by
  induction ns with
  | nil => exact .nil
  | cons n ns ih => exact .pass n ih

theorem shows_nil : Shows removals [] ps ↔ ps = [] := by
  constructor
  · intro h
    cases h
    rfl
  · rintro rfl
    exact .nil

theorem Shows.append (left : Shows removals ns ps)
    (right : Shows removals ms qs) :
    Shows removals (ns ++ ms) (ps ++ qs) := by
  induction left with
  | nil => exact right
  | pass n _ ih => exact .pass n ih
  | here written kept whole _ ih => exact .here written kept whole ih
  | inside kept within _ _ ih =>
    rw [List.cons_append, List.append_assoc]
    exact .inside kept within ih

theorem Shows.of_append (h : Shows removals (ns ++ ms) ps) :
    ∃ qs rs, ps = qs ++ rs ∧ Shows removals ns qs ∧ Shows removals ms rs := by
  induction ns generalizing ps with
  | nil => exact ⟨[], ps, rfl, .nil, h⟩
  | cons n ns ih =>
    cases h with
    | pass _ rest =>
      obtain ⟨qs, rs, rfl, left, right⟩ := ih rest
      exact ⟨qs, rs, rfl, .pass n left, right⟩
    | here written kept whole rest =>
      obtain ⟨qs, rs, rfl, left, right⟩ := ih rest
      exact ⟨_ :: qs, rs, rfl, .here written kept whole left, right⟩
    | inside kept within rest =>
      obtain ⟨qs, rs, rfl, left, right⟩ := ih rest
      exact ⟨_ ++ qs, rs, (List.append_assoc ..).symm,
        .inside kept within left, right⟩

theorem Shows.of_cons (h : Shows removals (n :: ns) ps) :
    ∃ qs rs, ps = qs ++ rs ∧ Shows removals [n] qs ∧ Shows removals ns rs := by
  rw [← List.singleton_append] at h
  exact h.of_append

theorem Shows.cons (head : Shows removals [n] ps)
    (tail : Shows removals ns qs) :
    Shows removals (n :: ns) (ps ++ qs) :=
  head.append tail

/-- What stands in one node. -/
theorem Shows.single (h : Shows removals [n] ps) :
    ps = [] ∨ (ps = [⟨[], n⟩] ∧ Written n ∧ isGone removals n = false ∧
      n.kind ≠ .list) ∨ ∃ qs, ps = qs.map (.under n.kind n.span) ∧
      isGone removals n = false ∧ Shows removals n.children qs := by
  cases h with
  | pass _ rest => exact .inl (shows_nil.1 rest)
  | here written kept whole rest =>
    cases shows_nil.1 rest
    exact .inr (.inl ⟨rfl, written, kept, whole⟩)
  | inside kept within rest =>
    cases shows_nil.1 rest
    exact .inr (.inr ⟨_, List.append_nil _, kept, within⟩)

theorem Shows.within (kept : isGone removals (.node k s ns) = false)
    (h : Shows removals ns ps) :
    Shows removals [.node k s ns] (ps.map (.under k s)) := by
  simpa using Shows.inside kept h .nil

/-- A node that was made and a sequence count for nothing. -/
theorem map_under_transparent (transparent : (s.isNone || k == .list) = true)
    (ps : List Situated) : ps.map (.under k s) = ps := by
  rw [List.map_congr_left (g := id) fun p _ => ?_, List.map_id]
  rw [Situated.under, transparent]
  rfl

/-- What stands in the children of a made node stands in it. -/
theorem Shows.inMade (kept : (isImport k || isDeclarator k) = false)
    (h : Shows removals ns ps) :
    Shows removals [made k ns] ps := by
  have inside := Shows.within (s := none) (isGone_of_kind kept) h
  rwa [map_under_transparent rfl] at inside

/-- A sequence shows what its items show. -/
theorem shows_list :
    Shows removals [.node .list s ns] ps ↔ Shows removals ns ps := by
  constructor
  · intro h
    rcases h.single with rfl | ⟨-, -, -, whole⟩ | ⟨qs, rfl, -, within⟩
    · exact .nothing ..
    · exact absurd rfl whole
    · rwa [map_under_transparent (by simp)]
  · intro h
    have inside := Shows.within (s := s) (isGone_of_kind (k := .list) rfl) h
    rwa [map_under_transparent (by simp)] at inside

/-- A way to tidy up a node that keeps what stands in it. -/
def Showing (removals : List (Option Span)) (f : Node → Node) : Prop :=
  ∀ n ps, Shows removals [n] ps → Shows removals [f n] ps

theorem Shows.map {f : Node → Node} (each : Showing removals f)
    (h : Shows removals ns ps) :
    Shows removals (ns.map f) ps := by
  induction ns generalizing ps with
  | nil => exact h
  | cons n ns ih =>
    obtain ⟨qs, rs, rfl, head, tail⟩ := h.of_cons
    exact .cons (each n qs head) (ih tail)

theorem Shows.modify {f : Node → Node} (each : Showing removals f) (i : Nat)
    (h : Shows removals ns ps) :
    Shows removals (ns.modify i f) ps := by
  induction ns generalizing i ps with
  | nil => rwa [List.modify_nil]
  | cons n ns ih =>
    obtain ⟨qs, rs, rfl, head, tail⟩ := h.of_cons
    cases i with
    | zero =>
      rw [List.modify_zero_cons]
      exact .cons (each n qs head) tail
    | succ i =>
      rw [List.modify_succ_cons]
      exact .cons head (ih i tail)

/-- In a declaration of variables without declarators stands nothing. -/
theorem shows_emptied (empty : isEmptied n = true) (h : Shows removals [n] ps) :
    ps = [] := by
  rcases h.single with rfl | ⟨-, written, -⟩ | ⟨qs, rfl, -, within⟩
  · rfl
  · rw [written.notEmptied] at empty
    cases empty
  · unfold isEmptied at empty
    split at empty
    · cases shows_nil.1 within
      rfl
    · cases empty

/-- Nodes in which nothing stands can be left out. -/
theorem Shows.filter {p : Node → Bool} (h : Shows removals ns ps)
    (empty : ∀ n ∈ ns, p n = false → isGone removals n = true ∨
      isEmptied n = true) :
    Shows removals (ns.filter p) ps := by
  induction ns generalizing ps with
  | nil => exact h
  | cons n ns ih =>
    obtain ⟨qs, rs, rfl, head, tail⟩ := h.of_cons
    obtain ⟨first, others⟩ := List.forall_mem_cons.1 empty
    rw [List.filter_cons]
    split
    · exact .cons head (ih tail others)
    · rename_i dropped
      have nothing : qs = [] := by
        rcases first (by simpa using dropped) with gone | emptied
        · rcases head.single with rfl | ⟨-, -, kept, -⟩ | ⟨_, -, kept, -⟩
          · rfl
          · cases gone.symm.trans kept
          · cases gone.symm.trans kept
        · exact shows_emptied emptied head
      subst nothing
      exact ih tail others

/-- What goes away from the items of a list shows nothing. -/
theorem shows_filter_staysIn (h : Shows removals ns ps) :
    Shows removals (ns.filter (staysIn removals)) ps := by
  refine h.filter fun n _ dropped => ?_
  unfold staysIn at dropped
  split at dropped
  · rename_i typeOnly kind
    exact .inl (by simpa [isGone, kind, isImport] using dropped)
  · exact .inr (by simpa using dropped)

theorem showing_unwrap : Showing removals unwrap := by
  intro n ps h
  unfold unwrap
  split
  · rename_i inner
    rcases h.single with rfl | ⟨-, written, -⟩ | ⟨qs, rfl, -, within⟩
    · exact .nothing ..
    · cases written.self
    · rwa [map_under_transparent rfl]
  · exact h

theorem showing_unwrapConditional : Showing removals unwrapConditional := by
  intro n ps h
  unfold unwrapConditional
  split
  · exact showing_unwrap _ ps h
  · exact h

theorem showing_unwrapItem : Showing removals unwrapItem := by
  intro n ps h
  unfold unwrapItem
  split
  · rename_i s inner
    rcases h.single with rfl | ⟨rfl, written, kept, -⟩ | ⟨qs, rfl, kept, within⟩
    · exact .nothing ..
    · rwa [unwrap_written (written.child List.mem_cons_self)]
    · exact .within kept (showing_unwrap _ qs within)
  · exact showing_unwrap n ps h

theorem showing_mapItems {f : Node → Node} (each : Showing removals f) :
    Showing removals (mapItems f) := by
  intro n ps h
  unfold mapItems
  split
  · exact shows_list.2 ((shows_list.1 h).map each)
  · exact h

theorem showing_loneStatement : Showing removals loneStatement := by
  intro n ps h
  unfold loneStatement
  split
  · rename_i empty
    cases shows_emptied empty h
    exact .nothing ..
  · exact h

theorem showing_loopStart : Showing removals loopStart := by
  intro n ps h
  unfold loopStart
  split
  · rename_i empty
    cases shows_emptied empty h
    exact .nothing ..
  · exact h

/-- **Tidying up keeps what stands in the children of a node.** -/
theorem shows_finish
    (declarators : ∀ w d, k = .varDecl w d → ∀ n ∈ ns,
      isDeclarator n.kind = true) (h : Shows removals ns ps) :
    Shows removals (finish removals k ns) ps := by
  cases k
  case block | moduleBlock => exact shows_filter_staysIn h
  case exprStmt => exact h.modify showing_unwrapConditional 0
  case assign | declarator | keyValue | assignPat =>
    exact h.modify showing_unwrap 1
  case property =>
    simp only [finish, tidy]
    split
    · exact h
    · exact h.modify showing_unwrap 1
  case returnStmt | throwStmt | computed | paren =>
    exact h.modify showing_unwrap 0
  case markup form =>
    cases form
    case container => exact h.modify showing_unwrap 0
    all_goals exact h
  case array => exact h.map showing_unwrapItem
  case call | new | optCall =>
    exact h.modify (showing_mapItems showing_unwrapItem) 1
  case cond => exact (h.modify showing_unwrap 1).modify showing_unwrap 2
  case seq | template => exact h.map showing_unwrap
  case varDecl w d =>
    refine h.filter fun n hn dropped => .inl ?_
    rw [isGone, declarators w d rfl n hn, Bool.or_true, Bool.true_and]
    simpa using dropped
  case ifStmt =>
    exact (h.modify showing_loneStatement 1).modify showing_loneStatement 2
  case labeled | whileStmt | doWhile | withStmt =>
    exact h.modify showing_loneStatement 1
  case forStmt =>
    exact (h.modify showing_loopStart 0).modify showing_loneStatement 3
  case forIn | forOf => exact h.modify showing_loneStatement 2
  all_goals exact h

/-- The declaration of temporaries moves nothing. -/
theorem shows_declareIn (names : List String) (h : Shows removals ns ps) :
    Shows removals (declareIn names ns) ps := by
  rcases declareIn_eq names ns with ⟨same, -⟩ | ⟨front, back, same, rfl⟩
  · rwa [same]
  · obtain ⟨qs, rs, rfl, left, right⟩ := h.of_append
    rw [same]
    exact left.append (.pass _ right)

/-- The body of an arrow function that is an expression keeps what stands in it,
also where it becomes a block. -/
theorem shows_arrowBody (names : List String) (expression : n.kind ≠ .block)
    (h : Shows removals [n] ps) :
    Shows removals [arrowBody names n] ps := by
  unfold arrowBody
  split
  · exact absurd rfl expression
  · split
    · exact showing_unwrapConditional n ps h
    · exact Shows.inMade rfl
        (.pass _ (Shows.inMade rfl (showing_unwrap n ps h)))

theorem shows_apply {object : Node} {l : Level}
    (h : Shows removals (levelPieces l) ps) :
    Shows removals [l.apply object] ps := by
  have call {callee typeArguments : Node} {arguments : List Node}
      {qs rs : List Situated} (left : Shows removals [callee] qs) (right :
      Shows removals (arguments ++ [typeArguments]) rs) : Shows removals
      [made .call [callee, .ofList arguments, typeArguments]] (qs ++ rs) := by
    obtain ⟨as, bs, rfl, list, types⟩ := right.of_append
    exact .inMade rfl (.cons left (.cons (shows_list.2 list) types))
  cases l with
  | member property => exact .inMade rfl (.pass _ h)
  | call arguments typeArguments =>
    have parts : Shows removals (arguments ++ [typeArguments]) ps := by
      simpa [levelPieces, Level.steps, pieces, stepPieces] using h
    exact call (.nothing ..) parts
  | method property arguments typeArguments =>
    have parts :
        Shows removals (property :: (arguments ++ [typeArguments])) ps := by
      simpa [levelPieces, Level.steps, pieces, stepPieces] using h
    obtain ⟨qs, rs, rfl, key, rest⟩ := parts.of_cons
    exact call (.inMade rfl (.pass _ key)) rest

theorem shows_guarded {span : Option Span} {t : String} {value more : Node}
    (h : Shows removals [value, more] ps) :
    Shows removals [guarded span t value more]
      (ps.map (.under .cond span)) := by
  obtain ⟨qs, rs, rfl, first, second⟩ := h.of_cons
  have assignment : Shows removals [made (.assign .plain) [temporary t, value]]
      qs := .inMade rfl (.pass _ first)
  have test : Shows removals [made (.binary .notEq) [parenthesized
      (made (.assign .plain) [temporary t, value]), made .null []]] qs := by
    have both := Shows.cons (Shows.inMade (k := .paren) rfl assignment)
      (.nothing removals [made .null []])
    rw [List.append_nil] at both
    exact .inMade rfl both
  refine .within (isGone_of_kind rfl) (.cons test ?_)
  simpa using Shows.cons second (.nothing removals [temporary t])

theorem shows_guardedLevels {t : String} {ls : List Level}
    (h : Shows removals (ls.flatMap levelPieces) ps) :
    Shows removals [guardedLevels t ls] ps := by
  fun_induction guardedLevels t ls generalizing ps with
  | case1 =>
    cases shows_nil.1 h
    exact .nothing ..
  | case2 last =>
    rw [List.flatMap_cons, List.flatMap_nil, List.append_nil] at h
    exact shows_apply h
  | case3 level rest _ ih =>
    rw [List.flatMap_cons] at h
    obtain ⟨qs, rs, rfl, first, others⟩ := h.of_append
    have value : Shows removals [level.apply (temporary t)] qs :=
      shows_apply first
    have all : Shows removals
        [guarded none t (level.apply (temporary t)) (guardedLevels t rest)] _ :=
      shows_guarded (.cons value (ih others))
    rwa [map_under_transparent rfl] at all

/-- **The expression of a chain shows what its pieces show**, in a conditional
with the span of the call if there is more than the base. -/
theorem shows_expression {c : AccessChain} (t : String)
    (h : Shows removals (c.base :: pieces c.steps) ps) :
    Shows removals [c.expression t]
      (if c.needsTemporary then ps.map (.under .cond c.span) else ps) := by
  obtain ⟨base, steps, span⟩ := c
  dsimp only at h
  cases steps with
  | nil => exact .inMade rfl h
  | cons step rest =>
    rw [← flatMap_levels] at h
    obtain ⟨qs, rs, rfl, first, others⟩ := h.of_cons
    have all : Shows removals
        [guarded span t base (guardedLevels t (levels (step :: rest)))] _ :=
      shows_guarded (.cons first (shows_guardedLevels others))
    unfold AccessChain.expression
    split
    · rename_i none
      have grouped := flatMap_steps_levels (step :: rest)
      rw [show levels (step :: rest) = [] from none] at grouped
      cases grouped
    · exact .inMade rfl all

end Shows

end NullGuard.Transform
