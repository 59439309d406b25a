import NullGuard.Proofs.FreshNames
import NullGuard.Proofs.Confinement
import NullGuard.Proofs.MovedComments
import NullGuard.Transform.Calls

/-!
# What a rewrite does, step by step

A rewrite carries a supply of names, the temporaries made so far and the current
holder through the whole program. Each node is *treated* in a way that depends
on the place it is in: most are rewritten in place, the body of a function holds
the temporaries made in it, the callback of a helper call holds none, and some
parts are kept as they are.

`Walks` says how lists of nodes are rewritten in the order in which this
happens, with the state before and behind. It says nothing about how the rewrite
is put together from actions, and `rewrite_walks` says that every rewrite that
succeeds is one of the relation. What is proved about the order of things is
proved by induction on `Walks`; what does not depend on the order is proved on
`Rewrites`, which forgets the state.
-/

namespace NullGuard.Transform

open NullGuard.Text (Span)
open NullGuard.Tree NullGuard.Chain NullGuard.Scope

/-- How a node is treated. -/
inductive Treatment where
  /-- Not looked at. -/
  | keep
  /-- Rewritten in its own place. -/
  | place
  /-- Rewritten as the callback of a helper call. -/
  | callback
  /-- A body that holds temporaries if it is a block. -/
  | body
  /-- The body of an arrow function, which holds temporaries in any case. -/
  | arrowBody
  /-- A function behind the key of a method. -/
  | function
  /-- A sequence of statements from which some are dropped. -/
  | items
deriving DecidableEq, Repr

/-- How the parts of a function are treated. -/
def functionTreatments : List Node → List Treatment
  | _ :: _ :: _ :: types =>
    .place :: .place :: .body :: types.map fun _ => .keep
  | ns => ns.map fun _ => .place

/-- How the children of a node are treated. -/
def treatments (k : Kind) (ns : List Node) : List Treatment :=
  match k, ns with
  | .switchCase, [_, _] => [.place, .items]
  | .function _ _, ns => functionTreatments ns
  | .method _ _, [_, _] => [.place, .function]
  | .constructor _, [_, _, _] => [.place, .place, .body]
  | .getterProp, [_, _, _] => [.place, .keep, .body]
  | .setterProp, [_, _, _, _] => [.place, .keep, .place, .body]
  | .staticBlock, [_] => [.body]
  | .arrow _, _ :: _ :: types =>
    .place :: .arrowBody :: types.map fun _ => .keep
  | _, ns => ns.map fun _ => .place

/-- How the arguments of a helper call are treated. -/
def argumentTreatments : List Node → List Treatment
  | _ :: _ :: rest => .place :: .callback :: rest.map fun _ => .place
  | ns => ns.map fun _ => .place

/-- What becomes of the children of a node once they are rewritten. -/
def finish (removals : List (Option Span)) (k : Kind) (ns : List Node) :
    List Node :=
  match k with
  | .block | .moduleBlock => ns.filter (staysIn removals)
  | _ => tidy removals k ns

/-- The arguments of a call whose callee is a helper with planned calls. -/
def plannedArguments? (plan : Plan) : Node → Option Node
  | .node .call _ (callee :: arguments :: _) =>
    if isPlanned plan callee then some arguments else none
  | _ => none

/-- The arguments of a planned call stand behind its callee. -/
theorem planned_cases {plan : Plan} {n arguments : Node}
    (planned : plannedArguments? plan n = some arguments) :
    ∃ s callee rest, n = .node .call s (callee :: arguments :: rest) ∧
      isPlanned plan callee = true := by
  unfold plannedArguments? at planned
  split at planned
  · split at planned
    · rename_i isTarget
      cases planned
      exact ⟨_, _, _, rfl, isTarget⟩
    · cases planned
  · cases planned

theorem kind_of_planned {plan : Plan} {n arguments : Node}
    (planned : plannedArguments? plan n = some arguments) : n.kind = .call := by
  obtain ⟨s, callee, rest, rfl, -⟩ := planned_cases planned
  rfl

/-- Where the identifier that a call calls stands. -/
def calleeSpan : Node → Option Span
  | .node .call _ (callee :: _) => callee.stripParens.span
  | _ => none

/-- A rewrite takes one state to another and gives a result. -/
def Runs {α : Type} (act : Rewrite α) (p : Progress) (a : α) (p' : Progress) :
    Prop :=
  act.run p = .ok (a, p')

section Runs

variable {α β : Type} {p p' : Progress}

theorem runs_pure {a b : α} : Runs (pure a) p b p' ↔ b = a ∧ p' = p := by
  constructor
  · intro h
    cases h
    exact ⟨rfl, rfl⟩
  · rintro ⟨rfl, rfl⟩
    rfl

theorem runs_bind {act : Rewrite α} {next : α → Rewrite β} {b : β} :
    Runs (act >>= next) p b p' ↔ ∃ a q, Runs act p a q ∧
      Runs (next a) q b p' := by
  simp only [Runs, StateT.run_bind]
  cases run : act.run p with
  | error e => exact iff_of_false nofun fun ⟨_, _, h, _⟩ => by cases h
  | ok r =>
    obtain ⟨a, q⟩ := r
    exact ⟨fun h => ⟨a, q, rfl, h⟩, fun ⟨_, _, h, h'⟩ => by cases h; exact h'⟩

theorem runs_modify {f : Progress → Progress} {u : PUnit} :
    Runs (modify f) p u p' ↔ p' = f p := by
  constructor
  · intro h
    cases h
    rfl
  · rintro rfl
    rfl

theorem runs_modifyGet {f : Progress → α × Progress} {a : α} :
    Runs (modifyGet f) p a p' ↔ f p = (a, p') := by
  constructor
  · intro h
    exact Except.ok.inj h
  · intro same
    exact congrArg Except.ok same

theorem runs_get {q : Progress} : Runs get p q p' ↔ q = p ∧ p' = p := by
  constructor
  · intro h
    cases h
    exact ⟨rfl, rfl⟩
  · rintro ⟨rfl, rfl⟩
    rfl

theorem runs_lift {e : Except Rejection α} {a : α} :
    Runs (liftM e : Rewrite α) p a p' ↔ e = .ok a ∧ p' = p := by
  cases e with
  | error e => exact iff_of_false nofun fun ⟨h, _⟩ => by cases h
  | ok b =>
    constructor
    · intro h
      cases h
      exact ⟨rfl, rfl⟩
    · rintro ⟨h, rfl⟩
      cases h
      rfl

/-- In a holder of its own a rewrite starts with no names to declare, and leaves
the holder around as it was. -/
theorem runs_withHolder {priority : HoistPriority} {act : Rewrite α}
    {r : α × List String} :
    Runs (withHolder priority act) p r p' ↔
      ∃ q, Runs act { p with holder := some ⟨priority, []⟩ } r.1 q ∧
      r.2 = q.held ∧ p' = { q with holder := p.holder } := by
  obtain ⟨a, names⟩ := r
  simp only [withHolder, runs_bind, runs_get, runs_modify, runs_pure]
  constructor
  · rintro ⟨_, _, ⟨rfl, rfl⟩, _, _, rfl, a', q, run, _, _, ⟨rfl, rfl⟩, _, _,
      rfl, same, rfl⟩
    cases same
    exact ⟨_, run, rfl, rfl⟩
  · rintro ⟨q, run, same, rfl⟩
    subst same
    exact ⟨_, _, ⟨rfl, rfl⟩, ⟨⟩, _, rfl, _, _, run, _, _, ⟨rfl, rfl⟩, ⟨⟩, _,
      rfl, rfl, rfl⟩

theorem runs_makeTemporary {t : String} :
    Runs makeTemporary p t p' ↔ t = (p.supply.fresh "ref").1 ∧
      p' = p.addTemporary t (p.supply.fresh "ref").2 := by
  simp only [Runs, makeTemporary, modifyGet, MonadStateOf.modifyGet,
    StateT.modifyGet, StateT.run, pure, Except.pure, Except.ok.injEq,
    Prod.mk.injEq]
  constructor
  · rintro ⟨rfl, rfl⟩
    exact ⟨rfl, rfl⟩
  · rintro ⟨rfl, rfl⟩
    exact ⟨rfl, rfl⟩

end Runs

/-- The parts of a function in the order in which they are rewritten: the
decorators come before the parameters that they stand in front of. -/
def inTurn {α : Type} : List α → List α
  | parameters :: decorators :: body :: types =>
    decorators :: parameters :: body :: types
  | parts => parts

/-- The priority of the temporaries in the bodies that are children of a node,
or of a child. -/
def innerPriority (options : Options) (k : Kind) (ns : List Node) :
    HoistPriority :=
  match k, ns with
  | .method _ _, [_, function] => methodPriority options function
  | _, _ => defaultPriority

/-- **How nodes that are treated in some ways are rewritten**, from one state to
another. Bodies among them hold their temporaries with a priority. -/
inductive Walks (setting : Setting) :
    HoistPriority → List Treatment → List Node → List Node → Progress →
      Progress → Prop where
  | nil {q : HoistPriority} {p : Progress} : Walks setting q [] [] [] p p
  | cons {q : HoistPriority} {j : Treatment} {js : List Treatment} {n n' : Node}
      {ns ns' : List Node} {p p' p'' : Progress}
      (head : Walks setting q [j] [n] [n'] p p')
      (tail : Walks setting q js ns ns' p' p'') :
      Walks setting q (j :: js) (n :: ns) (n' :: ns') p p''
  | keep {q : HoistPriority} {p : Progress} (n : Node) :
      Walks setting q [.keep] [n] [n] p p
  | node {q : HoistPriority} {k : Kind} {s : Option Span} {ns ns' : List Node}
      {p p' : Progress} (notProgram : isProgram k = false)
      (notFunction : isFunction (.node k s ns) = false)
      (unplanned : plannedArguments? setting.plan (.node k s ns) = none)
      (children : Walks setting (innerPriority setting.options k ns)
        (treatments k ns) ns ns' p p') (comments : CommentMap) :
      Walks setting q [.place] [.node k s ns] [.node k s
        (finish setting.removals k ns')] p { p' with comments := comments }
  | program {q : HoistPriority} {b : Bool} {i : Option String} {s : Option Span}
      {ns ns' : List Node} {p p' : Progress}
      (children : Walks setting defaultPriority (ns.map fun _ => .place) ns ns'
        { p with holder := some {} } p') (comments : CommentMap) :
      Walks setting q [.place] [.node (.program b i) s ns] [.node (.program b i)
        s (declareIn p'.held (ns'.filter (staysIn setting.removals)))] p
        { p' with holder := p.holder, comments := comments }
  | items {q : HoistPriority} {k : Kind} {s : Option Span} {ns ns' : List Node}
      {p p' : Progress}
      (children : Walks setting defaultPriority
        (ns.map fun _ => .place) ns ns' p p') (comments : CommentMap) :
      Walks setting q [.items] [.node k s ns] [.node k s (ns'.filter
        (staysIn setting.removals))] p { p' with comments := comments }
  | block {q : HoistPriority} {s : Option Span} {ns ns' : List Node}
      {p p' : Progress}
      (children : Walks setting defaultPriority (ns.map fun _ => .place) ns ns'
        { p with holder := some ⟨q, []⟩ } p') (comments : CommentMap) :
      Walks setting q [.body] [.node .block s ns] [.node .block s
        (declareIn p'.held (ns'.filter (staysIn setting.removals)))] p
        { p' with holder := p.holder, comments := comments }
  | noBlock {q : HoistPriority} {n n' : Node} {p p' : Progress}
      (notBlock : n.kind ≠ .block)
      (inPlace : Walks setting q [.place] [n] [n'] p p') :
      Walks setting q [.body] [n] [n'] p p'
  /-- The parts of a function have a turn of their own. -/
  | function {q : HoistPriority} {k : Kind} {s : Option Span}
      {ns ns' : List Node} {p p' : Progress}
      (parts : Walks setting q (functionTreatments ns) (inTurn ns)
        (inTurn ns') p p') :
      Walks setting q [.function] [.node k s ns] [.node k s ns'] p p'
  | functionPlace {q : HoistPriority} {b g : Bool} {s : Option Span}
      {ns ns' : List Node} {p p' : Progress}
      (parts : Walks setting defaultPriority (functionTreatments ns)
        (inTurn ns) (inTurn ns') p p') :
      Walks setting q [.place] [.node (.function b g) s ns]
        [.node (.function b g) s ns'] p p'
  | arrowBody {q : HoistPriority} {n n' : Node} {p p' : Progress}
      (inPlace : Walks setting q [.place] [n] [n']
        { p with holder := some ⟨q, []⟩ } p') :
      Walks setting q [.arrowBody] [n] [arrowBody p'.held n'] p
        { p' with holder := p.holder }
  /-- A helper call whose chain has no steps. -/
  | base {q : HoistPriority} {n arguments : Node} {arguments' : List Node}
      {chain : AccessChain} {p p' : Progress}
      (planned : plannedArguments? setting.plan n = some arguments)
      (children : Walks setting defaultPriority (argumentTreatments
        arguments.children) arguments.children arguments' p p')
      (taken : decompose setting.options.policy n.span
        (arguments'.map unwrapItem) = .ok chain)
      (bare : chain.needsTemporary = false) :
      Walks setting q [.place] [n] [chain.expression ""] p
        { p' with chains := p'.chains ++ [chain] }
  /-- A helper call with a temporary. -/
  | guarded {q : HoistPriority} {n arguments : Node} {arguments' : List Node}
      {chain : AccessChain} {p p' : Progress}
      (planned : plannedArguments? setting.plan n = some arguments)
      (children : Walks setting defaultPriority (argumentTreatments
        arguments.children) arguments.children arguments' p p')
      (taken : decompose setting.options.policy n.span
        (arguments'.map unwrapItem) = .ok chain)
      (needed : chain.needsTemporary = true) :
      Walks setting q [.place] [n] [chain.expression (p'.supply.fresh "ref").1]
        p (Progress.addTemporary { p' with chains := p'.chains ++ [chain] }
        (p'.supply.fresh "ref").1 (p'.supply.fresh "ref").2)
  | callbackArrow {q : HoistPriority} {b : Bool} {s : Option Span}
      {parameters body body' : Node} {types : List Node} {p p' : Progress}
      (inner : Walks setting defaultPriority [.place] [body] [body'] p p') :
      Walks setting q [.callback] [.node (.arrow b) s (parameters :: body ::
        types)] [.node (.arrow b) s (parameters :: body' :: types)] p p'
  | callbackInside {q : HoistPriority} {k : Kind} {s : Option Span}
      {n n' : Node} {p p' : Progress} (wraps : k = .paren ∨ k = .spread)
      (arrow : isArrow n = true)
      (inner : Walks setting defaultPriority [.callback] [n] [n'] p p') :
      Walks setting q [.callback] [.node k s [n]] [.node k s [n']] p p'
  | noCallback {q : HoistPriority} {n n' : Node} {p p' : Progress}
      (notArrow : ∀ b s parameters body types, n ≠
        .node (.arrow b) s (parameters :: body :: types))
      (notInside : ∀ k s inner, n = .node k s [inner] → k = .paren ∨
        k = .spread → isArrow inner = false)
      (inPlace : Walks setting q [.place] [n] [n'] p p') :
      Walks setting q [.callback] [n] [n'] p p'

/-- What a rewrite does with a node that is treated in a certain way. -/
def treat (setting : Setting) (priority : HoistPriority) (j : Treatment)
    (p : Pending) : Rewrite Node :=
  match j with
  | .keep => pure p.node
  | .place => p.rewrite
  | .callback => p.inline
  | .body => rewriteBody setting priority p
  | .arrowBody => do
    let (body, names) ← withHolder priority p.rewrite
    return arrowBody names body
  | .function =>
    return .node p.node.kind p.node.span
      (← rewriteFunction setting priority p.parts)
  | .items =>
    return .node p.node.kind p.node.span (← rewriteItems setting p.parts)

/-- Every successful rewrite of a node is one of the relation, however the node
is treated. -/
def Walked (setting : Setting) (n : Node) : Prop :=
  ∀ j q p n' p', Runs (treat setting q j (toPending setting n)) p n' p' →
    Walks setting q [j] [n] [n'] p p'

section Walked

variable {setting : Setting} {ns : List Node} {p p' : Progress}
  {q : HoistPriority}

@[simp] theorem node_toPending (setting : Setting) (n : Node) :
    (toPending setting n).node = n := by
  cases n
  rfl

@[simp] theorem parts_toPending (setting : Setting) (n : Node) :
    (toPending setting n).parts = toPendings setting n.children := by
  cases n
  rfl

theorem map_node_toPendings (setting : Setting) (ns : List Node) :
    (toPendings setting ns).map Pending.node = ns := by
  induction ns with
  | nil => rfl
  | cons n ns ih => rw [toPendings, List.map_cons, ih, node_toPending]

namespace Walked

variable {n n' : Node}

theorem place (walked : Walked setting n)
    (run : Runs (toPending setting n).rewrite p n' p') :
    Walks setting q [.place] [n] [n'] p p' :=
  walked .place q p n' p' run

theorem body (walked : Walked setting n)
    (run : Runs (rewriteBody setting q (toPending setting n)) p n' p') :
    Walks setting q [.body] [n] [n'] p p' :=
  walked .body q p n' p' run

theorem arrowBody {r : Node × List String} (walked : Walked setting n)
    (run : Runs (withHolder q (toPending setting n).rewrite) p r p') :
    Walks setting q [.arrowBody] [n] [Transform.arrowBody r.2 r.1] p p' :=
  walked .arrowBody q p _ p' (runs_bind.2 ⟨r, p', run, runs_pure.2 ⟨rfl, rfl⟩⟩)

theorem function {ns' : List Node} (walked : Walked setting n)
    (run : Runs
      (rewriteFunction setting q (toPendings setting n.children)) p ns' p') :
    Walks setting q [.function] [n] [.node n.kind n.span ns'] p p' := by
  refine walked .function q p _ p'
    (runs_bind.2 ⟨ns', p', ?_, runs_pure.2 ⟨?_, rfl⟩⟩)
  · rwa [parts_toPending]
  · rw [node_toPending]

theorem items {ns' : List Node} (walked : Walked setting n)
    (run : Runs
      (rewriteItems setting (toPendings setting n.children)) p ns' p') :
    Walks setting q [.items] [n] [.node n.kind n.span ns'] p p' := by
  refine walked .items q p _ p'
    (runs_bind.2 ⟨ns', p', ?_, runs_pure.2 ⟨?_, rfl⟩⟩)
  · rwa [parts_toPending]
  · rw [node_toPending]

end Walked

/-- Nodes that are kept stay as they are. -/
theorem walks_keep (ns : List Node) :
    Walks setting q (ns.map fun _ => .keep) ns ns p p := by
  induction ns with
  | nil => exact .nil
  | cons n ns ih => exact .cons (.keep n) ih

theorem walks_all (children : ∀ n ∈ ns, Walked setting n) {ns' : List Node}
    (run : Runs (rewriteAll (toPendings setting ns)) p ns' p') :
    Walks setting q (ns.map fun _ => .place) ns ns' p p' := by
  induction ns generalizing p ns' with
  | nil =>
    obtain ⟨rfl, rfl⟩ := runs_pure.1 run
    exact .nil
  | cons n ns ih =>
    rw [rewriteAll, toPendings, List.mapM_cons, runs_bind] at run
    obtain ⟨n', r, first, run⟩ := run
    rw [runs_bind] at run
    obtain ⟨rest, r', others, run⟩ := run
    obtain ⟨rfl, rfl⟩ := runs_pure.1 run
    exact .cons ((children n List.mem_cons_self).place first)
      (ih (fun n hn => children n (List.mem_cons_of_mem _ hn)) others)

/-- Items are rewritten in place; then some are dropped, and comments move. -/
theorem walks_items (children : ∀ n ∈ ns, Walked setting n) {items : List Node}
    (run : Runs (rewriteItems setting (toPendings setting ns)) p items p') :
    ∃ ns' r comments, Walks setting q (ns.map fun _ => .place) ns ns' p r ∧
      items = ns'.filter (staysIn setting.removals) ∧
      p' = { r with comments := comments } := by
  rw [rewriteItems, runs_bind] at run
  obtain ⟨ns', r, all, run⟩ := run
  have walk := walks_all (q := q) children all
  dsimp only at run
  split at run
  · obtain ⟨rfl, rfl⟩ := runs_pure.1 run
    exact ⟨ns', p', p'.comments, walk, rfl, rfl⟩
  · obtain ⟨kept, rfl⟩ := Prod.mk.inj (runs_modifyGet.1 run)
    rw [retainItems_some] at kept
    exact ⟨ns', r, _, walk, kept.symm, rfl⟩

/-- Items that hold what is made in them. -/
theorem walks_holder (children : ∀ n ∈ ns, Walked setting n)
    {priority : HoistPriority} {result : List Node × List String}
    (run : Runs (withHolder priority
      (rewriteItems setting (toPendings setting ns))) p result p') :
    ∃ ns' r comments, Walks setting q (ns.map fun _ => .place) ns ns'
      { p with holder := some ⟨priority, []⟩ } r ∧
      result = (ns'.filter (staysIn setting.removals), r.held) ∧
        p' = { r with holder := p.holder, comments := comments } := by
  obtain ⟨r, inside, names, rfl⟩ := runs_withHolder.1 run
  obtain ⟨ns', r, comments, walk, items, rfl⟩ :=
    walks_items (q := q) children inside
  exact ⟨ns', r, comments, walk, Prod.ext items names, rfl⟩

/-- As many nodes come out of a rewrite as go into it. -/
theorem Walks.length_eq {js : List Treatment} {ns' : List Node}
    (walk : Walks setting q js ns ns' p p') : ns'.length = ns.length := by
  induction walk with
  | cons head tail ih ih' => rw [List.length_cons, List.length_cons, ih']
  | _ => rfl

/-- Only of three parts or more the first two change places. -/
theorem inTurn_of_length {α : Type} {parts : List α} (few : parts.length < 3) :
    inTurn parts = parts := by
  rcases parts with _ | ⟨a, _ | ⟨b, _ | ⟨c, rest⟩⟩⟩
  · rfl
  · rfl
  · rfl
  · rw [List.length_cons, List.length_cons, List.length_cons] at few
    omega

theorem perm_inTurn {α : Type} (parts : List α) :
    (inTurn parts).Perm parts := by
  unfold inTurn
  split
  · exact .swap _ _ _
  · exact .refl _

theorem length_inTurn {α : Type} (parts : List α) :
    (inTurn parts).length = parts.length :=
  (perm_inTurn parts).length_eq

theorem walks_function (children : ∀ n ∈ ns, Walked setting n) {ns' : List Node}
    (run : Runs (rewriteFunction setting q (toPendings setting ns)) p ns' p') :
    Walks setting q (functionTreatments ns) (inTurn ns) (inTurn ns') p p' := by
  have short (few : ns.length < 3)
      (places : functionTreatments ns = ns.map fun _ => .place) (run :
      Runs (rewriteAll (toPendings setting ns)) p ns' p') : Walks setting q
      (functionTreatments ns) (inTurn ns) (inTurn ns') p p' := by
    have walk := walks_all (q := q) children run
    rwa [places, inTurn_of_length few, inTurn_of_length (walk.length_eq ▸ few)]
  rcases ns with _ | ⟨parameters, _ | ⟨decorators, _ | ⟨body, types⟩⟩⟩
  · exact short (by simp) rfl run
  · exact short (by simp) rfl run
  · exact short (by simp) rfl run
  · have walked {n : Node}
        (hn : n ∈ parameters :: decorators :: body :: types) := children n hn
    simp only [toPendings, rewriteFunction, runs_bind, map_node_toPendings]
      at run
    obtain ⟨decorators', r, second, parameters', r', first, body', r'',
        third, run⟩ := run
    obtain ⟨rfl, rfl⟩ := runs_pure.1 run
    exact .cons ((walked (by simp)).place second)
      (.cons ((walked (by simp)).place first)
      (.cons ((walked (by simp)).body third) (walks_keep types)))

/-- The children of a node that is no program and no function. -/
theorem walks_parts (children : ∀ n ∈ ns, Walked setting n) {k : Kind}
    {s : Option Span} (notProgram : isProgram k = false)
    (notFunction : isFunction (.node k s ns) = false) {ns' : List Node}
    (run : Runs (rewriteParts setting k (toPendings setting ns)) p ns' p') :
    ∃ parts r comments, Walks setting (innerPriority setting.options k ns)
      (treatments k ns) ns parts p r ∧
      ns' = finish setting.removals k parts ∧
        p' = { r with comments := comments } := by
  -- Most kinds rewrite their children in place and tidy them up.
  have plain (q : HoistPriority) (run : Runs
      (do return tidy setting.removals k (← rewriteAll (toPendings setting ns)))
      p ns' p') : ∃ parts r comments,
      Walks setting q (ns.map fun _ => .place) ns parts p r ∧ ns' =
      tidy setting.removals k parts ∧ p' = { r with comments := comments } := by
    obtain ⟨parts, r, all, run⟩ := runs_bind.1 run
    obtain ⟨rfl, rfl⟩ := runs_pure.1 run
    exact ⟨parts, p', p'.comments, walks_all children all, rfl, rfl⟩
  -- The others treat their children in ways of their own, and leave them as
  -- they are.
  have special {q : HoistPriority} {js : List Treatment}
      {parts : List Node} (walk : Walks setting q js ns parts p p') :
      ∃ parts' r comments, Walks setting q js ns parts' p r ∧ parts = parts' ∧
      p' = { r with comments := comments } :=
    ⟨parts, p', p'.comments, walk, rfl, rfl⟩
  cases k
  case program => cases notProgram
  case function => cases notFunction
  case block | moduleBlock => exact walks_items children run
  case switchCase =>
    rcases ns with _ | ⟨test, _ | ⟨items, _ | ⟨more, rest⟩⟩⟩
    case cons.cons.nil =>
      simp only [toPendings, rewriteParts, runs_bind, parts_toPending,
        node_toPending] at run
      obtain ⟨test', r, first, ns', r', second, run⟩ := run
      obtain ⟨rfl, rfl⟩ := runs_pure.1 run
      exact special (.cons ((children test (by simp)).place first)
        (.cons ((children items (by simp)).items second) .nil))
    all_goals exact plain _ run
  case method =>
    rcases ns with _ | ⟨key, _ | ⟨function, _ | ⟨more, rest⟩⟩⟩
    case cons.cons.nil =>
      simp only [toPendings, rewriteParts, runs_bind, parts_toPending,
        node_toPending] at run
      obtain ⟨key', r, first, parts, r', second, run⟩ := run
      obtain ⟨rfl, rfl⟩ := runs_pure.1 run
      exact special (.cons ((children key (by simp)).place first)
        (.cons ((children function (by simp)).function second) .nil))
    all_goals exact plain _ run
  case constructor =>
    rcases ns with _ | ⟨key, _ | ⟨parameters, _ | ⟨body, _ | ⟨more, rest⟩⟩⟩⟩
    case cons.cons.cons.nil =>
      simp only [toPendings, rewriteParts, runs_bind] at run
      obtain ⟨key', r, first, parameters', r', second, body', r'',
          third, run⟩ := run
      obtain ⟨rfl, rfl⟩ := runs_pure.1 run
      exact special (.cons ((children key (by simp)).place first)
        (.cons ((children parameters (by simp)).place second)
        (.cons ((children body (by simp)).body third) .nil)))
    all_goals exact plain _ run
  case getterProp =>
    rcases ns with _ | ⟨key, _ | ⟨type, _ | ⟨body, _ | ⟨more, rest⟩⟩⟩⟩
    case cons.cons.cons.nil =>
      simp only [toPendings, rewriteParts, runs_bind, node_toPending] at run
      obtain ⟨key', r, first, body', r', second, run⟩ := run
      obtain ⟨rfl, rfl⟩ := runs_pure.1 run
      exact special (.cons ((children key (by simp)).place first) (.cons
        (.keep type) (.cons ((children body (by simp)).body second) .nil)))
    all_goals exact plain _ run
  case setterProp =>
    rcases ns
      with _ | ⟨key, _ | ⟨this, _ | ⟨parameter, _ | ⟨body, _ | ⟨more, rest⟩⟩⟩⟩⟩
    case cons.cons.cons.cons.nil =>
      simp only [toPendings, rewriteParts, runs_bind, node_toPending] at run
      obtain ⟨key', r, first, parameter', r', second, body', r'', third, run⟩ :=
        run
      obtain ⟨rfl, rfl⟩ := runs_pure.1 run
      exact special (.cons ((children key (by simp)).place first)
        (.cons (.keep this) (.cons ((children parameter (by simp)).place second)
        (.cons ((children body (by simp)).body third) .nil))))
    all_goals exact plain _ run
  case staticBlock =>
    rcases ns with _ | ⟨body, _ | ⟨more, rest⟩⟩
    case cons.nil =>
      simp only [toPendings, rewriteParts, runs_bind] at run
      obtain ⟨body', r, first, run⟩ := run
      obtain ⟨rfl, rfl⟩ := runs_pure.1 run
      exact special (.cons ((children body (by simp)).body first) .nil)
    all_goals exact plain _ run
  case arrow =>
    rcases ns with _ | ⟨parameters, _ | ⟨body, types⟩⟩
    case cons.cons =>
      simp only [toPendings, rewriteParts, rewriteArrow, runs_bind,
        map_node_toPendings] at run
      obtain ⟨parameters', r, first, result, r', second, run⟩ := run
      obtain ⟨rfl, rfl⟩ := runs_pure.1 run
      exact special (.cons ((children parameters (by simp)).place first)
        (.cons ((children body (by simp)).arrowBody second) (walks_keep types)))
    all_goals exact special (walks_all children run)
  all_goals exact plain _ run

/-- The arguments of a helper call. -/
theorem walks_arguments (children : ∀ n ∈ ns, Walked setting n)
    {ns' : List Node}
    (run : Runs (rewriteArguments (toPendings setting ns)) p ns' p') :
    ∃ arguments, Walks setting q (argumentTreatments ns) ns arguments p p' ∧
      ns' = arguments.map unwrapItem := by
  have plain (run :
      Runs (do return (← rewriteAll (toPendings setting ns)).map unwrapItem)
      p ns' p') : ∃ arguments, Walks setting q (ns.map fun _ => .place) ns
      arguments p p' ∧ ns' = arguments.map unwrapItem := by
    obtain ⟨arguments, r, all, run⟩ := runs_bind.1 run
    obtain ⟨rfl, rfl⟩ := runs_pure.1 run
    exact ⟨arguments, walks_all children all, rfl⟩
  rcases ns with _ | ⟨base, _ | ⟨callback, rest⟩⟩
  · exact plain run
  · exact plain run
  · simp only [toPendings, rewriteArguments, runs_bind] at run
    obtain ⟨base', r, first, callback', r', second, rest', r'', others, run⟩ :=
      run
    obtain ⟨rfl, rfl⟩ := runs_pure.1 run
    exact ⟨_, .cons ((children base (by simp)).place first)
      (.cons (children callback (by simp) .callback q _ _ _ second)
      (walks_all (fun n hn => children n (by simp [hn])) others)), rfl⟩

/-- A helper call. -/
theorem walks_call {n arguments n' : Node}
    (planned : plannedArguments? setting.plan n = some arguments)
    (children : ∀ n ∈ arguments.children, Walked setting n)
    (run : Runs
      (rewriteCall setting n.span (toPending setting arguments)) p n' p') :
    Walks setting q [.place] [n] [n'] p p' := by
  rw [rewriteCall, parts_toPending, runs_bind] at run
  obtain ⟨_, r, first, rest⟩ := run
  obtain ⟨arguments', walk, rfl⟩ :=
    walks_arguments (q := defaultPriority) children first
  obtain ⟨chain, r', isTaken, rest'⟩ := runs_bind.1 rest
  obtain ⟨taken, rfl⟩ := runs_lift.1 isTaken
  obtain ⟨_, r'', counted, last⟩ := runs_bind.1 rest'
  obtain rfl := runs_modify.1 counted
  split at last
  · rename_i needed
    obtain ⟨t, r'', fresh, result⟩ := runs_bind.1 last
    obtain ⟨rfl, rfl⟩ := runs_makeTemporary.1 fresh
    obtain ⟨rfl, rfl⟩ := runs_pure.1 result
    exact .guarded planned walk taken needed
  · rename_i unneeded
    obtain ⟨rfl, rfl⟩ := runs_pure.1 last
    exact .base planned walk taken (by simpa using unneeded)

/-- A node in its own place. -/
theorem walks_place {k : Kind} {s : Option Span}
    (children : ∀ n ∈ ns, Walked setting n)
    (grandchildren : ∀ n ∈ ns, ∀ n' ∈ n.children, Walked setting n') {n' : Node}
    (run : Runs (rewriteOf setting k s (toPendings setting ns)) p n' p') :
    Walks setting q [.place] [.node k s ns] [n'] p p' := by
  cases planned : plannedArguments? setting.plan (.node k s ns) with
  | some arguments =>
    obtain ⟨t, callee, rest, same, isTarget⟩ := planned_cases planned
    cases same
    have call :
        Runs (rewriteCall setting s (toPending setting arguments)) p n' p' := by
      simpa only [toPendings, rewriteOf, node_toPending, isTarget, if_true,
        bind_pure] using run
    exact walks_call planned (grandchildren arguments (by simp)) call
  | none =>
    have inPlace : Runs
        (do return .node k s (← rewriteParts setting k (toPendings setting ns)))
        p n' p' := by
      unfold rewriteOf at run
      split at run
      · rename_i callee arguments rest same
        rcases ns with _ | ⟨first, _ | ⟨second, more⟩⟩
        · cases same
        · cases same
        · cases same
          have other : isPlanned setting.plan first = false := by
            simpa [plannedArguments?] using planned
          simpa only [node_toPending, other, Bool.false_eq_true, if_false]
            using run
      · exact run
    obtain ⟨parts, r, all, last⟩ := runs_bind.1 inPlace
    obtain ⟨rfl, rfl⟩ := runs_pure.1 last
    cases isProgram : Scope.isProgram k with
    | true =>
      cases k with
      | program b i =>
        obtain ⟨result, r, inside, last⟩ := runs_bind.1 all
        obtain ⟨rfl, rfl⟩ := runs_pure.1 last
        obtain ⟨ns', r, comments, walk, rfl, rfl⟩ :=
          walks_holder (q := defaultPriority) children inside
        exact .program walk comments
      | _ => cases isProgram
    | false =>
      cases isFunction : Scope.isFunction (.node k s ns) with
      | false =>
        obtain ⟨ns', r, comments, walk, rfl, rfl⟩ :=
          walks_parts children isProgram isFunction all
        exact .node isProgram isFunction planned walk comments
      | true =>
        cases k with
        | function b g => exact .functionPlace (walks_function children all)
        | _ => cases isFunction

/-- A node as the callback of a helper call. -/
theorem walks_callback {k : Kind} {s : Option Span}
    (children : ∀ n ∈ ns, Walked setting n)
    (inPlace : ∀ {p n' p'}, Runs (rewriteOf setting k s (toPendings setting ns))
      p n' p' → Walks setting q [.place] [.node k s ns] [n'] p p') {n' : Node}
    (run : Runs (inlineOf (rewriteOf setting k s (toPendings setting ns)) k s
      (toPendings setting ns)) p n' p') :
    Walks setting q [.callback] [.node k s ns] [n'] p p' := by
  have other (notArrow : ∀ b parameters body types, k = .arrow b →
      ns ≠ parameters :: body :: types) (notInside : ∀ inner, ns = [inner] →
      k = .paren ∨ k = .spread → isArrow inner = false)
      (run : Runs (rewriteOf setting k s (toPendings setting ns)) p n' p') :
      Walks setting q [.callback] [.node k s ns] [n'] p p' := by
    refine .noCallback ?_ ?_ (inPlace run)
    · rintro b s' parameters body types same
      cases same
      exact notArrow b parameters body types rfl rfl
    · rintro k' s' inner same wraps
      cases same
      exact notInside inner rfl wraps
  have wrapped (inner : Node) (same : ns = [inner])
    (wraps : k = .paren ∨ k = .spread) (run : Runs (if isArrow inner
    then do return .node k s [← (toPending setting inner).inline]
        else rewriteOf setting k s (toPendings setting ns)) p n' p') :
      Walks setting q [.callback] [.node k s ns] [n'] p p' := by
    subst same
    split at run
    · rename_i isArrow
      obtain ⟨inner', r, inside, last⟩ := runs_bind.1 run
      obtain ⟨rfl, rfl⟩ := runs_pure.1 last
      exact .callbackInside wraps isArrow
        (children inner (by simp) .callback _ _ _ _ inside)
    · rename_i notArrow
      refine other (fun b _ _ _ isArrow => ?_) (fun inner same _ => ?_) run
      · rcases wraps with rfl | rfl <;> cases isArrow
      · cases same
        simpa using notArrow
  unfold inlineOf at run
  split at run
  · rename_i b parameters body types same
    rcases ns with _ | ⟨first, _ | ⟨second, more⟩⟩
    · cases same
    · cases same
    · cases same
      obtain ⟨body', r, inside, last⟩ := runs_bind.1 run
      obtain ⟨rfl, rfl⟩ := runs_pure.1 last
      rw [map_node_toPendings, node_toPending]
      exact .callbackArrow ((children second (by simp)).place inside)
  · rename_i inner same
    rcases ns with _ | ⟨first, _ | ⟨second, more⟩⟩
    · cases same
    · cases same
      exact wrapped first rfl (.inl rfl)
        (by simpa only [node_toPending] using run)
    · cases same
  · rename_i inner same
    rcases ns with _ | ⟨first, _ | ⟨second, more⟩⟩
    · cases same
    · cases same
      exact wrapped first rfl (.inr rfl)
        (by simpa only [node_toPending] using run)
    · cases same
  · rename_i notArrow notParen notSpread
    refine other (fun b parameters body types isArrow same => ?_)
      (fun inner same wraps => ?_) run
    · subst same
      exact notArrow b _ _ _ isArrow rfl
    · subst same
      rcases wraps with rfl | rfl
      · exact (notParen _ rfl rfl).elim
      · exact (notSpread _ rfl rfl).elim

/-- **Every successful rewrite is one of the relation.** -/
theorem rewrite_walks (setting : Setting) (n : Node) : Walked setting n := by
  have both : Walked setting n ∧ ∀ n' ∈ n.children, Walked setting n' := by
    induction n using Node.induct with
    | step k s ns ih =>
      have children n (hn : n ∈ ns) : Walked setting n := (ih n hn).1
      have inPlace {q : HoistPriority} {p p' : Progress} {n' : Node}
          (run : Runs (rewriteOf setting k s (toPendings setting ns)) p n' p') :
          Walks setting q [.place] [.node k s ns] [n'] p p' :=
        walks_place children (fun n hn => (ih n hn).2) run
      refine ⟨fun j q p n' p' run => ?_, children⟩
      cases j with
      | keep =>
        obtain ⟨rfl, rfl⟩ := runs_pure.1 run
        exact .keep _
      | place => exact inPlace run
      | callback => exact walks_callback children inPlace run
      | body =>
        unfold treat rewriteBody at run
        dsimp only at run
        split at run
        · rename_i s' ns' same
          rw [node_toPending] at same
          cases same
          obtain ⟨result, r, inside, last⟩ := runs_bind.1 run
          obtain ⟨rfl, rfl⟩ := runs_pure.1 last
          rw [parts_toPending] at inside
          obtain ⟨ns', r, comments, walk, rfl, rfl⟩ :=
            walks_holder (q := defaultPriority) children inside
          exact .block walk comments
        · rename_i notBlock
          refine .noBlock (fun isBlock => ?_) (inPlace run)
          cases isBlock
          exact notBlock s ns (node_toPending ..)
      | arrowBody =>
        obtain ⟨result, r, inside, last⟩ := runs_bind.1 run
        obtain ⟨rfl, rfl⟩ := runs_pure.1 last
        obtain ⟨r, rewriting, names, rfl⟩ := runs_withHolder.1 inside
        rw [names]
        exact .arrowBody (inPlace rewriting)
      | function =>
        obtain ⟨ns', r, inside, last⟩ := runs_bind.1 run
        obtain ⟨rfl, rfl⟩ := runs_pure.1 last
        rw [parts_toPending] at inside
        exact .function (walks_function children inside)
      | items =>
        obtain ⟨items, r, inside, last⟩ := runs_bind.1 run
        obtain ⟨rfl, rfl⟩ := runs_pure.1 last
        rw [parts_toPending] at inside
        obtain ⟨ns', r, comments, walk, rfl, rfl⟩ :=
          walks_items (q := defaultPriority) children inside
        exact .items walk comments
  exact both.1

end Walked

section Programs

variable {setting : Setting} {q : HoistPriority} {tree tree' : Node}
  {p p' : Progress}

/-- Nothing becomes of no nodes, and nothing is done. -/
theorem walks_nil {js : List Treatment} {ns' : List Node}
    (walk : Walks setting q js [] ns' p p') : ns' = [] ∧ p' = p := by
  generalize none : [] = ns at walk
  cases walk with
  | nil => exact ⟨rfl, rfl⟩
  | _ => cases none

/-- **How a program is rewritten**: its items are, and it holds what is made in
them and in no other body. -/
theorem walks_program (isProgram : Scope.isProgram tree.kind = true)
    (walk : Walks setting q [.place] [tree] [tree'] p p') :
    ∃ b i s ns ns' r comments, tree = .node (.program b i) s ns ∧
      tree' = .node (.program b i) s
        (declareIn r.held (ns'.filter (staysIn setting.removals))) ∧
      Walks setting defaultPriority (ns.map fun _ => .place) ns ns'
        { p with holder := some {} } r ∧
      p' = { r with holder := p.holder, comments := comments } := by
  generalize places : [Treatment.place] = js, whole : [tree] = ns,
    result : [tree'] = ns' at walk
  induction walk with
  | cons head tail ih _ =>
    cases places
    cases whole
    obtain ⟨rfl, rfl⟩ := walks_nil tail
    cases result
    exact ih rfl rfl rfl
  | program children comments _ =>
    cases whole
    cases result
    exact ⟨_, _, _, _, _, _, comments, rfl, rfl, children, rfl⟩
  | node notProgram _ _ _ _ =>
    cases whole
    cases notProgram.symm.trans isProgram
  | functionPlace _ _ =>
    cases whole
    cases isProgram
  | base planned | guarded planned =>
    cases whole
    rw [kind_of_planned planned] at isProgram
    cases isProgram
  | nil => cases places
  | _ => cases places

end Programs

end NullGuard.Transform
