import NullGuard.Proofs.PlainRewrites
import NullGuard.Proofs.Settled

/-!
# Tidying up twice

After a rewrite went through the children of a node, it tidies them up: it takes
off the parentheses that were made for them, drops what has become empty, and
puts something in the place of what cannot just go. Doing this again changes
nothing (`finish_finish`). The reason is in the nodes that come to stand there:
one layer of made parentheses is all that is ever taken off, and there is no
second one below (`Once`).

The expression of a chain is put together so that there is nothing to tidy up in
it (`settled_expression`), if there was nothing in its base and in the body that
it was read off.
-/

namespace NullGuard.Transform

open NullGuard.Text (Span)
open NullGuard.Tree NullGuard.Chain NullGuard.Scope

/-- A node that is tidied up once and for all: on its own, as one of several
items, and as a list of items. -/
structure Once (n : Node) : Prop where
  unwrap : unwrap (unwrap n) = unwrap n
  item : unwrapItem (unwrapItem n) = unwrapItem n
  items : mapItems unwrapItem (mapItems unwrapItem n) = mapItems unwrapItem n

section Once

variable {removals : List (Option Span)} {n : Node} {k : Kind} {s : Option Span}
  {ns ms : List Node}

theorem unwrap_of_kind (notParen : k ≠ .paren) :
    unwrap (.node k s ns) = .node k s ns := by
  unfold unwrap
  split
  · rename_i same
    cases same
    exact absurd rfl notParen
  · rfl

/-- An item that is not spread is tidied up as on its own. -/
theorem unwrapItem_eq_unwrap (notSpread : (argument n).2 = false) :
    unwrapItem n = unwrap n := by
  unfold unwrapItem
  split
  · cases notSpread
  · rfl

theorem argument_of_kind (notSpread : k ≠ .spread) :
    (argument (.node k s ns)).2 = false := by
  unfold argument
  split
  · rename_i same
    cases same
    exact absurd rfl notSpread
  · rfl

theorem mapItems_of_kind {f : Node → Node} (notList : n.kind ≠ .list) :
    mapItems f n = n := by
  unfold mapItems
  split
  · exact absurd rfl notList
  · rfl

/-- Nothing is taken off most nodes. -/
theorem once_of_kind (notParen : k ≠ .paren) (notSpread : k ≠ .spread)
    (notList : k ≠ .list) : Once (.node k s ns) := by
  have unwrapped : unwrap (.node k s ns) = .node k s ns :=
    unwrap_of_kind notParen
  have item : unwrapItem (.node k s ns) = .node k s ns :=
    (unwrapItem_eq_unwrap (argument_of_kind notSpread)).trans unwrapped
  have items : mapItems unwrapItem (.node k s ns) = .node k s ns :=
    mapItems_of_kind notList
  exact ⟨by rw [unwrapped, unwrapped], by rw [item, item], by rw [items, items]⟩

/-- Parentheses are taken off once if there are none below, where they were
made. -/
theorem once_paren
    (below : ∀ c, s = none → ns = [c] → unwrap c = c ∧ (argument c).2 = false) :
    Once (.node .paren s ns) := by
  have items : mapItems unwrapItem (.node .paren s ns) = .node .paren s ns :=
    mapItems_of_kind Kind.noConfusion
  have item : unwrapItem (.node .paren s ns) = unwrap (.node .paren s ns) :=
    unwrapItem_eq_unwrap rfl
  have bare : unwrap (unwrap (.node .paren s ns)) = unwrap (.node .paren s ns) ∧
      unwrapItem (unwrap (.node .paren s ns)) = unwrap (.node .paren s ns) := by
    by_cases made : s = none ∧ ∃ c, ns = [c]
    · obtain ⟨rfl, c, rfl⟩ := made
      obtain ⟨noMore, notSpread⟩ := below c rfl rfl
      have inner : unwrap (.node .paren none [c]) = c := rfl
      rw [inner, unwrapItem_eq_unwrap notSpread]
      exact ⟨noMore, noMore⟩
    · have same : unwrap (.node .paren s ns) = .node .paren s ns := by
        unfold Chain.unwrap
        split
        · rename_i isParen
          cases isParen
          exact absurd ⟨rfl, _, rfl⟩ made
        · rfl
      rw [same, item, same]
      exact ⟨rfl, rfl⟩
  exact ⟨bare.1, by rw [item, bare.2], by rw [items, items]⟩

theorem once_spread (below : ∀ c, ns = [c] → unwrap (unwrap c) = unwrap c) :
    Once (.node .spread s ns) := by
  have unwrapped : unwrap (.node .spread s ns) = .node .spread s ns :=
    unwrap_of_kind Kind.noConfusion
  have items : mapItems unwrapItem (.node .spread s ns) = .node .spread s ns :=
    mapItems_of_kind Kind.noConfusion
  refine ⟨by rw [unwrapped, unwrapped], ?_, by rw [items, items]⟩
  rcases ns with _ | ⟨c, _ | ⟨d, rest⟩⟩
  · rfl
  · change Node.node .spread s [unwrap (unwrap c)] = .node .spread s [unwrap c]
    rw [below c rfl]
  · rfl

theorem once_list (below : ∀ c ∈ ns, unwrapItem (unwrapItem c) = unwrapItem c) :
    Once (.node .list s ns) := by
  have unwrapped : unwrap (.node .list s ns) = .node .list s ns :=
    unwrap_of_kind Kind.noConfusion
  have item : unwrapItem (.node .list s ns) = .node .list s ns :=
    (unwrapItem_eq_unwrap rfl).trans unwrapped
  refine ⟨by rw [unwrapped, unwrapped], by rw [item, item], ?_⟩
  change Node.node .list s ((ns.map unwrapItem).map unwrapItem) =
    .node .list s (ns.map unwrapItem)
  rw [List.map_map]
  exact congrArg _ (List.map_congr_left below)

theorem unwrapConditional_twice (n : Node) :
    unwrapConditional (unwrapConditional n) = unwrapConditional n := by
  have either : unwrapConditional n = n ∨ ∃ s ns, unwrapConditional n =
      .node .cond s ns := by
    unfold unwrapConditional
    split
    · exact .inr ⟨_, _, rfl⟩
    · exact .inl rfl
  rcases either with same | ⟨s, ns, isConditional⟩
  · rw [same, same]
  · rw [isConditional]
    rfl

theorem loneStatement_twice (n : Node) :
    loneStatement (loneStatement n) = loneStatement n := by
  cases empty : isEmptied n with
  | true =>
    have emptied : loneStatement n = .node .empty none [] := if_pos empty
    rw [emptied]
    rfl
  | false =>
    have same : loneStatement n = n := by
      rw [loneStatement, empty, if_neg Bool.false_ne_true]
    rw [same, same]

theorem loopStart_twice (n : Node) : loopStart (loopStart n) = loopStart n := by
  cases empty : isEmptied n with
  | true =>
    have missing : loopStart n = .none := if_pos empty
    rw [missing]
    rfl
  | false =>
    have same : loopStart n = n := by
      rw [loopStart, empty, if_neg Bool.false_ne_true]
    rw [same, same]

theorem modify_twice {f : Node → Node} (each : ∀ n ∈ ns, f (f n) = f n)
    (i : Nat) :
    (ns.modify i f).modify i f = ns.modify i f := by
  induction ns generalizing i with
  | nil => rw [List.modify_nil, List.modify_nil]
  | cons n ns ih =>
    obtain ⟨first, rest⟩ := List.forall_mem_cons.1 each
    cases i with
    | zero => rw [List.modify_zero_cons, List.modify_zero_cons, first]
    | succ i => rw [List.modify_succ_cons, List.modify_succ_cons, ih rest]

/-- Two changes at different positions, made twice. -/
theorem modify_both_twice {f g : Node → Node} {i j : Nat} (apart : i ≠ j)
    (first : ∀ n ∈ ns, f (f n) = f n) (second : ∀ n ∈ ns, g (g n) = g n) :
    (((ns.modify i f).modify j g).modify i f).modify j g =
      (ns.modify i f).modify j g := by
  have swap (ms : List Node) : (ms.modify i f).modify j g =
      (ms.modify j g).modify i f := List.modify_modify_ne _ _ _ apart
  calc (((ns.modify i f).modify j g).modify i f).modify j g
    _ = (((ns.modify i f).modify i f).modify j g).modify j g := by
      rw [← swap (ns.modify i f)]
    _ = ((ns.modify i f).modify j g).modify j g := by rw [modify_twice first]
    _ = ((ns.modify j g).modify j g).modify i f := by rw [swap ns, swap]
    _ = (ns.modify j g).modify i f := by rw [modify_twice second]
    _ = (ns.modify i f).modify j g := (swap ns).symm

/-- What stays where something is removed also stays where nothing is. -/
theorem staysIn_nothing (stays : staysIn removals n = true) :
    staysIn [] n = true := by
  unfold staysIn at stays ⊢
  split
  · rfl
  · rename_i notImport
    split at stays
    · rename_i typeOnly isImport
      exact (notImport _ isImport).elim
    · exact stays

/-- **Tidying up children twice is tidying them up once**, whatever was removed
the first time. -/
theorem finish_finish (removals : List (Option Span))
    (each : ∀ n ∈ ns, Once n) :
    finish [] k (finish removals k ns) = finish removals k ns := by
  have unwraps n (hn : n ∈ ns) : unwrap (unwrap n) = unwrap n :=
    (each n hn).unwrap
  have lone n (_ : n ∈ ns) : loneStatement (loneStatement n) =
      loneStatement n := loneStatement_twice n
  cases k
  case block | moduleBlock =>
    exact List.filter_eq_self.2 fun n hn => staysIn_nothing
      (List.mem_filter.1 hn).2
  case exprStmt => exact modify_twice (fun n _ => unwrapConditional_twice n) 0
  case assign | declarator | keyValue | assignPat =>
    exact modify_twice unwraps 1
  case property =>
    rcases ns with _ | ⟨⟨k, s, ms⟩, rest⟩
    · rfl
    · cases k
      case privateName => rfl
      all_goals exact modify_twice unwraps 1
  case returnStmt | throwStmt | computed | paren => exact modify_twice unwraps 0
  case markup form =>
    cases form
    case container => exact modify_twice unwraps 0
    all_goals rfl
  case array =>
    change (ns.map unwrapItem).map unwrapItem = ns.map unwrapItem
    rw [List.map_map]
    exact List.map_congr_left fun n hn => (each n hn).item
  case call | new | optCall =>
    exact modify_twice (fun n hn => (each n hn).items) 1
  case cond => exact modify_both_twice (by decide) unwraps unwraps
  case seq | template =>
    change (ns.map unwrap).map unwrap = ns.map unwrap
    rw [List.map_map]
    exact List.map_congr_left unwraps
  case varDecl => exact List.filter_eq_self.2 fun _ _ => rfl
  case ifStmt => exact modify_both_twice (by decide) lone lone
  case labeled | whileStmt | doWhile | withStmt => exact modify_twice lone 1
  case forStmt =>
    exact modify_both_twice (by decide) (fun n _ => loopStart_twice n) lone
  case forIn | forOf => exact modify_twice lone 2
  all_goals rfl

/-- Where some children are treated in a way of their own, nothing is tidied
up. -/
theorem idle_or_placed (k : Kind) :
    (∀ removals ns, finish removals k ns = ns) ∨
      ∀ ns, treatments k ns = ns.map fun _ => .place := by
  cases k <;> first | exact .inr fun _ => rfl | exact .inl fun _ _ => rfl

end Once

section Settled

variable {n : Node} {k : Kind} {s : Option Span} {ns ms : List Node}
  {t : String}

/-- A node in which nothing is ever tidied up. -/
theorem settled_idle (idle : finish [] k ns = ns)
    (placed : treatments k ns = ns.map fun _ => .place)
    (inner : isProgram k = false) (notParen : k ≠ .paren)
    (children : ∀ n ∈ ns, Settled [] n) :
    Settled [] (.node k s ns) := by
  refine settled_node ⟨idle, fun isProgram => ?_, fun i j n treated _ => ?_,
    fun same => absurd same notParen⟩ children
  · cases inner.symm.trans isProgram
  · rw [placed] at treated
    exact leftAlone_place treated n

theorem settled_none : Settled [] .none :=
  settled_idle rfl rfl rfl Kind.noConfusion (List.forall_mem_nil _)

theorem settled_paren (bare : ∀ n ∈ ns, unwrap n = n)
    (notSpread : s = none → ∀ n ∈ ns, (argument n).2 = false)
    (children : ∀ n ∈ ns, Settled [] n) :
    Settled [] (.node .paren s ns) := by
  have same : ns.modify 0 unwrap = ns := by
    cases ns with
    | nil => rfl
    | cons n ns => rw [List.modify_zero_cons, bare n List.mem_cons_self]
  exact settled_node ⟨same, nofun, fun _ _ n treated _ =>
    leftAlone_place treated n, fun _ => notSpread⟩ children

/-- Tidying up leaves nothing that is not settled. -/
theorem Trims.settled (h : Trims ns ms) (all : ∀ n ∈ ns, Settled [] n) :
    ∀ m ∈ ms, Settled [] m := by
  induction h with
  | nil => exact all
  | keep n rest ih =>
    obtain ⟨first, others⟩ := List.forall_mem_cons.1 all
    exact List.forall_mem_cons.2 ⟨first, ih others⟩
  | drop n rest ih => exact ih (List.forall_mem_cons.1 all).2
  | gone n empty rest ih =>
    refine List.forall_mem_cons.2 ⟨?_, ih (List.forall_mem_cons.1 all).2⟩
    rcases empty with rfl | rfl <;>
      exact settled_idle rfl rfl rfl Kind.noConfusion (List.forall_mem_nil _)
  | unwrap inner rest ih =>
    obtain ⟨first, others⟩ := List.forall_mem_cons.1 all
    exact List.forall_mem_cons.2 ⟨first.child List.mem_cons_self, ih others⟩
  | within wraps inside rest ih ih' =>
    obtain ⟨first, others⟩ := List.forall_mem_cons.1 all
    have below := ih fun n hn => first.child hn
    refine List.forall_mem_cons.2 ⟨?_, ih' others⟩
    rcases wraps with rfl | rfl <;>
      exact settled_idle rfl rfl rfl Kind.noConfusion below
  | trans first second ih ih' => exact ih' (ih all)

/-- The declaration of temporaries is settled. -/
theorem settled_varStatement (names : List String) :
    Settled [] (varStatement names) := by
  refine settled_idle (List.filter_eq_self.2 fun _ _ => rfl) rfl rfl
    Kind.noConfusion fun n hn => ?_
  obtain ⟨x, -, rfl⟩ := List.mem_map.1 hn
  have name : Settled [] (made (.bindingIdent x false) [.none]) :=
    settled_idle rfl rfl rfl Kind.noConfusion
      (List.forall_mem_singleton.2 settled_none)
  exact settled_idle rfl rfl rfl Kind.noConfusion
    (List.forall_mem_cons.2 ⟨name, List.forall_mem_singleton.2 settled_none⟩)

/-- What the steps of a chain take along is settled, and their arguments have
nothing to take off. -/
def SettledStep : Step → Prop :=
  StepParts (Settled []) (fun n => Settled [] n ∧ unwrapItem n = n) (Settled [])

/-- The steps that are read off a settled body. -/
theorem settled_spine {policy : ChainPolicy} {name : String} {body : Node}
    {steps : List Step} (h : Spine policy name body steps)
    (settled : Settled [] body) :
    ∀ step ∈ steps, SettledStep step := by
  induction h with
  | leaf => exact List.forall_mem_nil _
  | paren s rest ih => exact ih (settled.child List.mem_cons_self)
  | member s clean rest ih =>
    refine List.forall_mem_append.2 ⟨ih (settled.child List.mem_cons_self),
      List.forall_mem_singleton.2 ?_⟩
    exact settled.child (List.mem_cons_of_mem _ List.mem_cons_self)
  | @call s l callee types arguments steps _ _ _ rest ih =>
    refine List.forall_mem_append.2 ⟨ih (settled.child List.mem_cons_self),
      List.forall_mem_singleton.2 ⟨fun n hn => ?_, ?_⟩⟩
    · have list : Settled [] (.node .list l arguments) :=
        settled.child (List.mem_cons_of_mem _ List.mem_cons_self)
      have tidied : [callee, Node.node .list l (arguments.map unwrapItem),
          types] = [callee, .node .list l arguments, types] :=
        settled.self.finished
      have same : arguments.map unwrapItem = arguments.map id := by
        simpa using tidied
      exact ⟨list.child hn, List.map_inj_left.1 same n hn⟩
    · exact settled.child
        (List.mem_cons_of_mem _ (List.mem_cons_of_mem _ List.mem_cons_self))

theorem settled_apply {object : Node} {l : Level} (settled : Settled [] object)
    (steps : ∀ step ∈ l.steps, SettledStep step) :
    Settled [] (l.apply object) := by
  have member {object property : Node} (ho : Settled [] object) (hp :
      Settled [] property) : Settled [] (made .member [object, property]) :=
    settled_idle rfl rfl rfl Kind.noConfusion
      (List.forall_mem_cons.2 ⟨ho, List.forall_mem_singleton.2 hp⟩)
  have call {callee types : Node} {arguments : List Node}
      (hc : Settled [] callee) (h : SettledStep (.call arguments types)) :
      Settled [] (made .call [callee, .ofList arguments, types]) := by
    obtain ⟨each, last⟩ := h
    have list : Settled [] (.ofList arguments) :=
      settled_idle rfl rfl rfl Kind.noConfusion fun n hn => (each n hn).1
    have same : arguments.map unwrapItem = arguments :=
      List.map_congr_left (fun n hn => (each n hn).2) |>.trans (List.map_id _)
    refine settled_idle ?_ rfl rfl Kind.noConfusion (List.forall_mem_cons.2
      ⟨hc, List.forall_mem_cons.2 ⟨list, List.forall_mem_singleton.2 last⟩⟩)
    change [callee, Node.node .list none (arguments.map unwrapItem), types] = _
    rw [same]
    rfl
  cases l with
  | member property => exact member settled (steps _ List.mem_cons_self)
  | call arguments types => exact call settled (steps _ List.mem_cons_self)
  | method property arguments types =>
    exact call (member settled (steps _ List.mem_cons_self))
      (steps _ (List.mem_cons_of_mem _ List.mem_cons_self))

theorem settled_temporary (t : String) : Settled [] (temporary t) :=
  settled_idle rfl rfl rfl Kind.noConfusion (List.forall_mem_nil _)

theorem unwrap_apply (object : Node) (l : Level) :
    unwrap (l.apply object) = l.apply object := by
  cases l <;> rfl

theorem unwrap_guardedLevels (t : String) (ls : List Level) :
    unwrap (guardedLevels t ls) = guardedLevels t ls := by
  fun_cases guardedLevels t ls with
  | case1 => rfl
  | case2 last => exact unwrap_apply _ last
  | case3 => rfl

theorem settled_guarded {value more : Node} (hv : Settled [] value)
    (bare : unwrap value = value) (hm : Settled [] more)
    (bare' : unwrap more = more) :
    Settled [] (guarded s t value more) := by
  have assignment : Settled [] (made (.assign .plain) [temporary t, value]) :=
    by
    refine settled_idle ?_ rfl rfl Kind.noConfusion (List.forall_mem_cons.2
      ⟨settled_temporary t, List.forall_mem_singleton.2 hv⟩)
    change [temporary t, unwrap value] = _
    rw [bare]
  have inParens :
      Settled [] (parenthesized (made (.assign .plain) [temporary t, value])) :=
    settled_paren (List.forall_mem_singleton.2 rfl) (fun _ =>
      List.forall_mem_singleton.2 rfl) (List.forall_mem_singleton.2 assignment)
  have null : Settled [] (made .null []) :=
    settled_idle rfl rfl rfl Kind.noConfusion (List.forall_mem_nil _)
  have test :=
    settled_idle (k := .binary .notEq) (s := none) rfl rfl rfl Kind.noConfusion
    (List.forall_mem_cons.2 ⟨inParens, List.forall_mem_singleton.2 null⟩)
  refine settled_idle ?_ rfl rfl Kind.noConfusion
    (List.forall_mem_cons.2 ⟨test, List.forall_mem_cons.2
    ⟨hm, List.forall_mem_singleton.2 (settled_temporary t)⟩⟩)
  change [_, unwrap more, unwrap (temporary t)] = _
  rw [bare']
  rfl

theorem settled_guardedLevels {ls : List Level}
    (steps : ∀ l ∈ ls, ∀ step ∈ l.steps, SettledStep step) :
    Settled [] (guardedLevels t ls) := by
  fun_induction guardedLevels t ls with
  | case1 => exact settled_temporary t
  | case2 last =>
    exact settled_apply (settled_temporary t)
      (List.forall_mem_singleton.1 steps)
  | case3 level rest _ ih =>
    obtain ⟨first, others⟩ := List.forall_mem_cons.1 steps
    exact settled_guarded (settled_apply (settled_temporary t) first)
      (unwrap_apply _ level) (ih others) (unwrap_guardedLevels t rest)

/-- **There is nothing to tidy up in the expression of a chain**, if there was
nothing in its pieces. -/
theorem settled_expression {c : AccessChain} (base : Settled [] c.base)
    (bare : unwrap c.base = c.base) (notSpread : (argument c.base).2 = false)
    (steps : ∀ step ∈ c.steps, SettledStep step) :
    Settled [] (c.expression t) ∧ Once (c.expression t) := by
  have each l (hl : l ∈ levels c.steps) step (hs : step ∈ l.steps) :
      SettledStep step := by
    refine steps step ?_
    rw [← flatMap_steps_levels c.steps]
    exact List.mem_flatMap.2 ⟨l, hl, hs⟩
  have inParens {n : Node} (settled : Settled [] n) (bare : unwrap n = n)
      (notSpread : (argument n).2 = false) : Settled [] (parenthesized n) ∧
      Once (parenthesized n) := by
    refine ⟨settled_paren (List.forall_mem_singleton.2 bare)
      (fun _ => List.forall_mem_singleton.2 notSpread)
      (List.forall_mem_singleton.2 settled), once_paren fun c _ same => ?_⟩
    cases same
    exact ⟨bare, notSpread⟩
  unfold AccessChain.expression
  split
  · exact inParens base bare notSpread
  · exact inParens (settled_guarded base bare (settled_guardedLevels each)
      (unwrap_guardedLevels t _)) rfl rfl

end Settled

end NullGuard.Transform
