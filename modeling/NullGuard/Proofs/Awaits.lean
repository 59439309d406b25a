import NullGuard.Proofs.PlannedCalls

/-!
# Where an `await` may stand

An `await` may stand in an async function, whose nearest function it is, and at
the top of a module. A rewrite moves the keys and arguments in the callback of a
call into the function around the call. The callback is a function, and it may
be an async one where the function around the call is none; then what it awaits
ends up where nothing may be awaited.

So there are two ways to look at a program. As it stands, every function counts.
As a rewrite will leave it, the callbacks of planned calls do not count, because
their bodies move out of them. `Standing` says what a place in a program is, for
a plan: whether an `await` may stand there, and whether the place is one of
those through which a callback reaches its call. `legal` says that all that is
awaited may be. Without planned calls this is the program as it stands.

`rewrites_free` says that what is legal for a plan is legal, as it stands, once
the plan was carried out. What is legal as it stands is legal for a plan if
every async callback that awaits something stands where an `await` may stand
(`legal_of_callbacks`); callbacks that are not async take nothing away.
`awaits_stay_legal` puts both together.
-/

namespace NullGuard.Transform

open NullGuard.Text (Span)
open NullGuard.Tree NullGuard.Chain NullGuard.Scope

/-- Whether an `await` may stand in the child at a position. Keys and decorators
stand outside the function they belong to. -/
def mayAwait (k : Kind) (i : Nat) (allowed : Bool) : Bool :=
  match k with
  | .program isModule _ => isModule
  | .function isAsync _ => if i = 1 then allowed else isAsync
  | .arrow isAsync => isAsync
  | .constructor _ | .getterProp | .setterProp => i == 0 && allowed
  | _ => allowed

/-- What a place is for a planned call. -/
inductive Role where
  | usual
  /-- The arguments of a planned call. -/
  | arguments
  /-- The callback of a planned call, in whatever parentheses. -/
  | callback
  /-- The arguments of a planned call that stands for a callback: its base may
  be one. -/
  | callbackArguments
deriving DecidableEq

/-- What a place in a program is, for a plan. -/
structure Standing where
  plan : Plan
  /-- Whether an `await` may stand there. -/
  allowed : Bool
  role : Role
deriving DecidableEq

namespace Standing

/-- A place that is nothing to a planned call. Nothing is planned where a
rewrite does not look. -/
def usualChild (σ : Standing) (n : Node) (i : Nat) : Standing where
  plan := if (treatments n.kind n.children)[i]? = some .keep
    then ⟨[]⟩ else σ.plan
  allowed := mayAwait n.kind i σ.allowed
  role := .usual

/-- The place of the child at a position. The body of a callback stands where
the call stands. -/
def child (σ : Standing) (n : Node) (i : Nat) : Standing :=
  match σ.role with
  | .usual =>
    if (plannedArguments? σ.plan n).isSome && i == 1
      then { σ with role := .arguments } else σ.usualChild n i
  | .arguments => { σ with role := if i = 1 then .callback else .usual }
  | .callback =>
    if (plannedArguments? σ.plan n).isSome && i == 1
      then { σ with role := .callbackArguments }
    else
      match n.kind with
      | .paren => σ
      | .arrow _ =>
        if i = 1 then { σ with role := .usual } else σ.usualChild n i
      | _ => σ.usualChild n i
  | .callbackArguments => { σ with role := if i = 0 then .callback else .usual }

end Standing

section Throughout

variable (law : Standing → Node → Bool)

mutual

/-- Whether a law holds of a node that stands in a place, and of all nodes in it
in their places. -/
def throughout (σ : Standing) : Node → Bool
  | .node k s ns =>
    law σ (.node k s ns) && throughoutAmong (σ.child (.node k s ns)) 0 ns

/-- Whether a law holds throughout several nodes, the first of which is at a
position. -/
def throughoutAmong (place : Nat → Standing) (i : Nat) : List Node → Bool
  | [] => true
  | n :: ns => throughout (place i) n && throughoutAmong place (i + 1) ns

end

variable {law} {σ : Standing} {k : Kind} {s : Option Span} {ns : List Node}

theorem throughoutAmong_iff {place : Nat → Standing} {i : Nat} :
    throughoutAmong law place i ns = true ↔ ∀ j n, ns[j]? = some n →
      throughout law (place (i + j)) n = true := by
  induction ns generalizing i with
  | nil => exact iff_of_true rfl fun j n there => by cases there
  | cons n ns ih =>
    rw [throughoutAmong, Bool.and_eq_true, ih]
    constructor
    · rintro ⟨first, others⟩ j m there
      cases j with
      | zero =>
        cases there
        exact first
      | succ j =>
        rw [← Nat.succ_add_eq_add_succ]
        exact others j m there
    · intro all
      refine ⟨all 0 n rfl, fun j m there => ?_⟩
      rw [Nat.succ_add_eq_add_succ]
      exact all (j + 1) m there

theorem throughout_node :
    throughout law σ (.node k s ns) = true ↔ law σ (.node k s ns) = true ∧
      ∀ i n, ns[i]? = some n →
        throughout law (σ.child (.node k s ns) i) n = true := by
  rw [throughout, Bool.and_eq_true, throughoutAmong_iff]
  simp only [Nat.zero_add]

end Throughout

/-- Whether an `await` may stand wherever one stands in a node, if the node
stands in a place. -/
def legal (σ : Standing) (n : Node) : Bool :=
  throughout (fun σ n => n.kind != .await || σ.allowed) σ n

/-- All that is awaited in a node may be awaited as it stands. -/
def Free (allowed : Bool) (n : Node) : Prop :=
  legal ⟨⟨[]⟩, allowed, .usual⟩ n = true

section Legal

variable {σ : Standing} {k : Kind} {s : Option Span} {ns ms : List Node}
  {n : Node} {b : Bool}

theorem legal_node :
    legal σ (.node k s ns) = true ↔ (k = .await → σ.allowed = true) ∧
      ∀ i n, ns[i]? = some n → legal (σ.child (.node k s ns) i) n = true := by
  unfold legal
  rw [throughout_node, Bool.or_eq_true, bne_iff_ne, ← imp_iff_not_or]
  rfl

/-- Nothing is planned without a plan. -/
theorem plannedArguments?_nil (n : Node) : plannedArguments? ⟨[]⟩ n = none := by
  unfold plannedArguments?
  split
  · rename_i callee arguments rest
    have none : isPlanned ⟨[]⟩ callee = false := by
      unfold isPlanned
      split <;> rfl
    rw [none]
    rfl
  · rfl

theorem free_node :
    Free b (.node k s ns) ↔ (k = .await → b = true) ∧ ∀ i n, ns[i]? = some n →
      Free (mayAwait k i b) n := by
  rw [Free, legal_node]
  refine and_congr Iff.rfl
    (forall_congr' fun i => forall_congr' fun n => imp_congr Iff.rfl ?_)
  rw [Standing.child]
  simp only [plannedArguments?_nil, Option.isSome_none, Bool.false_and,
    Bool.false_eq_true, if_false, Standing.usualChild, ite_self]
  rfl

/-- Whether an `await` may stand in all children of a node of a kind, if it may
stand where the node stands. -/
def isEven (k : Kind) : Bool :=
  match k with
  | .program _ _ | .function _ _ | .arrow _ | .constructor _ | .getterProp
      | .setterProp =>
    false
  | _ => true

theorem mayAwait_of_isEven (even : isEven k = true) (i : Nat) :
    mayAwait k i b = b := by
  cases k <;> first | rfl | cases even

/-- Everything in several nodes is legal. -/
def AllFree (b : Bool) (ns : List Node) : Prop :=
  ∀ n ∈ ns, Free b n

theorem free_even (even : isEven k = true) :
    Free b (.node k s ns) ↔ (k = .await → b = true) ∧ AllFree b ns := by
  rw [free_node]
  simp only [mayAwait_of_isEven even]
  refine and_congr Iff.rfl ⟨fun all n hn => ?_,
    fun all i n there => all n (List.mem_of_getElem? there)⟩
  obtain ⟨i, there⟩ := List.mem_iff_getElem?.1 hn
  exact all i n there

/-- Nodes of most kinds are legal if their parts are. -/
theorem free_around (around : (isEven k && k != .await) = true) :
    Free b (.node k s ns) ↔ AllFree b ns := by
  rw [Bool.and_eq_true, bne_iff_ne] at around
  exact (free_even around.1).trans
    (and_iff_right fun same => absurd same around.2)

theorem allFree_cons : AllFree b (n :: ns) ↔ Free b n ∧ AllFree b ns :=
  List.forall_mem_cons

theorem allFree_append : AllFree b (ns ++ ms) ↔ AllFree b ns ∧ AllFree b ms :=
  List.forall_mem_append

theorem free_none : Free b .none :=
  (free_around (by rfl)).2 nofun

/-- Tidying up keeps what is legal. -/
theorem Trims.allFree (trims : Trims ns ms) (all : AllFree b ns) :
    AllFree b ms := by
  induction trims with
  | nil => exact all
  | keep n rest ih =>
    exact allFree_cons.2 ⟨(allFree_cons.1 all).1, ih (allFree_cons.1 all).2⟩
  | drop n rest ih => exact ih (allFree_cons.1 all).2
  | gone n empty rest ih =>
    refine allFree_cons.2 ⟨?_, ih (allFree_cons.1 all).2⟩
    rcases empty with rfl | rfl <;> exact (free_around (by rfl)).2 nofun
  | unwrap inner rest ih =>
    obtain ⟨first, others⟩ := allFree_cons.1 all
    exact allFree_cons.2
      ⟨(free_around (by rfl)).1 first inner List.mem_cons_self, ih others⟩
  | within wraps inside rest ih ih' =>
    obtain ⟨first, others⟩ := allFree_cons.1 all
    refine allFree_cons.2 ⟨?_, ih' others⟩
    rcases wraps with rfl | rfl <;>
      exact (free_around (by rfl)).2 (ih ((free_around (by rfl)).1 first))
  | trans _ _ ih ih' => exact ih' (ih all)

theorem free_varStatement (names : List String) :
    Free b (varStatement names) := by
  refine (free_around (by rfl)).2 fun n hn => ?_
  obtain ⟨x, -, rfl⟩ := List.mem_map.1 hn
  refine (free_around (by rfl)).2
    (allFree_cons.2 ⟨?_, List.forall_mem_singleton.2 free_none⟩)
  exact (free_around (by rfl)).2 (List.forall_mem_singleton.2 free_none)

theorem allFree_declareIn {names : List String} (all : AllFree b ns) :
    AllFree b (declareIn names ns) := by
  rcases declareIn_eq names ns with ⟨same, -⟩ | ⟨front, back, same, rfl⟩
  · rwa [same]
  · obtain ⟨before, behind⟩ := allFree_append.1 all
    rw [same]
    exact allFree_append.2
      ⟨before, allFree_cons.2 ⟨free_varStatement names, behind⟩⟩

theorem free_arrowBody {names : List String} (free : Free b n) :
    Free b (arrowBody names n) := by
  have one : AllFree b [n] := List.forall_mem_singleton.2 free
  unfold arrowBody
  split
  · exact (free_around (by rfl)).2
      (allFree_declareIn ((free_around (by rfl)).1 free))
  · split
    · exact (trimming_unwrapConditional n .nil).allFree one _ List.mem_cons_self
    · refine (free_around (by rfl)).2 (allFree_cons.2
        ⟨free_varStatement names, List.forall_mem_singleton.2 ?_⟩)
      exact (free_around (by rfl)).2 ((trimming_unwrap n .nil).allFree one)

theorem chaining_allFree : Chaining (AllFree b) where
  nil := nofun
  append := allFree_append
  node {k} s ms chained h := by
    refine List.forall_mem_singleton.2 ((free_around ?_).2 h)
    cases k <;> first | rfl | cases chained

/-- What a chain takes out of a body stands where the body stands. -/
theorem allFree_pieces {policy : ChainPolicy} {parameter : String} {body : Node}
    {steps : List Step} (walked : Spine policy parameter body steps)
    (free : Free b body) : AllFree b (pieces steps) := by
  induction walked with
  | leaf s ns => nofun
  | paren s rest ih =>
    exact ih ((free_around (by rfl)).1 free _ List.mem_cons_self)
  | member s clean rest ih =>
    obtain ⟨object, property⟩ := allFree_cons.1 ((free_around (by rfl)).1 free)
    rw [pieces_append]
    exact allFree_append.2 ⟨ih object, property⟩
  | call s l permissive ordinary clean rest ih =>
    obtain ⟨callee, others⟩ := allFree_cons.1 ((free_around (by rfl)).1 free)
    obtain ⟨list, types⟩ := allFree_cons.1 others
    rw [pieces_append]
    refine allFree_append.2 ⟨ih callee, ?_⟩
    rw [pieces, List.flatMap_cons, List.flatMap_nil,
      List.append_nil, stepPieces]
    exact allFree_append.2 ⟨(free_around (by rfl)).1 list, types⟩

end Legal

/-- The body of an arrow function in any parentheses. -/
def callbackBody? (n : Node) : Option Node :=
  match n.stripParens with
  | .node (.arrow _) _ (_ :: body :: _) => some body
  | _ => none

/-- What becomes of a node that is treated in a way is legal if the node is
legal where it will stand. -/
structure Inlines (plan : Plan) (j : Treatment) (n n' : Node) : Prop where
  kept : j = .keep → n' = n
  usual : j ≠ .keep → j ≠ .callback → ∀ b, legal ⟨plan, b, .usual⟩ n =
    true → Free b n'
  /-- As a callback, it has a body that is legal where the call stands. -/
  moved : j = .place ∨ j = .callback → ∀ b, legal ⟨plan, b, .callback⟩ n =
    true → ∀ body, callbackBody? n' = some body → Free b body

section Inlines

variable {plan : Plan} {setting : Setting} {k : Kind} {s : Option Span}
  {ns ns' : List Node} {n n' : Node} {b : Bool}

theorem callbackBody?_stripParens (n : Node) :
    callbackBody? n.stripParens = callbackBody? n := by
  have twice : n.stripParens.stripParens = n.stripParens := by
    fun_induction Node.stripParens n with
    | case1 s inner ih => exact ih
    | case2 n other =>
      unfold Node.stripParens
      split
      · exact (other _ _ rfl).elim
      · rfl
  rw [callbackBody?, callbackBody?, twice]

theorem callbackBody?_unwrap (n : Node) :
    callbackBody? (unwrap n) = callbackBody? n := by
  rw [← callbackBody?_stripParens, stripParens_unwrap,
    callbackBody?_stripParens]

/-- The children of a node are legal after a rewrite where their places are
usual. -/
theorem free_children (children : Each (Inlines plan) (treatments k ns) ns ns')
    (legal : ∀ i n, ns[i]? = some n → Transform.legal
      (Standing.usualChild ⟨plan, b, .usual⟩ (.node k s ns) i) n = true)
    {i : Nat} (there : ns'[i]? = some n') : Free (mayAwait k i b) n' := by
  obtain ⟨j, n, treated, child, inlines⟩ := children.get there
  have own : Transform.legal ⟨if (treatments k ns)[i]? = some .keep then ⟨[]⟩
      else plan, mayAwait k i b, .usual⟩ n = true :=
    legal i n child
  by_cases isKept : j = .keep
  · obtain rfl := inlines.kept isKept
    rw [isKept] at treated
    rw [if_pos treated] at own
    exact own
  · refine inlines.usual isKept ?_ _ ?_
    · rintro rfl
      cases treated_of_treatments treated with
      | body isBody here => cases isBody
    · rw [if_neg] at own
      · exact own
      · intro kept
        exact isKept (Option.some.inj (treated.symm.trans kept))

/-- A node with rewritten children is legal. -/
theorem free_rewritten (removals : List (Option Span))
    (children : Each (Inlines plan) (treatments k ns) ns ns')
    (unplanned : plannedArguments? plan (.node k s ns) = none)
    (legal : Transform.legal ⟨plan, b, .usual⟩ (.node k s ns) = true) :
    Free b (.node k s (finish removals k ns')) := by
  obtain ⟨awaits, below⟩ := legal_node.1 legal
  have each {i : Nat} {n' : Node} (there : ns'[i]? = some n') :
      Free (mayAwait k i b) n' := by
    refine free_children children (s := s) (fun i n child => ?_) there
    have own := below i n child
    rwa [Standing.child, unplanned, Option.isSome_none, Bool.false_and,
      if_neg Bool.false_ne_true] at own
  cases even : isEven k with
  | true =>
    refine (free_even even).2
      ⟨awaits, (trims_finish removals k ns').allFree fun n' hn' => ?_⟩
    obtain ⟨i, there⟩ := List.mem_iff_getElem?.1 hn'
    have free := each there
    rwa [mayAwait_of_isEven even] at free
  | false =>
    have same : finish removals k ns' = ns' := by
      cases k <;> first | rfl | cases even
    rw [same]
    exact free_node.2 ⟨awaits, fun i n' there => each there⟩

/-- **A helper call becomes a legal expression** where it stands, if its
arguments are legal there. -/
theorem free_expression {policy : ChainPolicy} {span : Option Span}
    {items : List Node} {chain : AccessChain} {t : String}
    (taken : decompose policy span (items.map unwrapItem) = .ok chain)
    (base : ∀ n', items[0]? = some n' → Free b n')
    (callback : ∀ n', items[1]? = some n' → ∀ body, callbackBody? n' =
      some body → Free b body) :
    Free b (chain.expression t) := by
  obtain ⟨call, helper, walked, same, -⟩ := decompose_ok taken
  generalize given : items.map unwrapItem = arguments at helper
  cases helper with
  | @intro first second body name a o s l i ascription rest _ notSpread
      isArrow _ =>
    rcases items with _ | ⟨n, _ | ⟨m, _ | ⟨more, others⟩⟩⟩
    case cons.cons.nil =>
      cases given
      have freeBase : Free b (unwrapItem n) :=
        (trimming_unwrapItem n .nil).allFree
          (List.forall_mem_singleton.2 (base n rfl)) _ List.mem_cons_self
      have freeBody : Free b body := by
        refine callback m rfl body ?_
        rw [callbackBody?, ← stripParens_unwrapItem notSpread, isArrow]
      exact chaining_allFree.expression (allFree_cons.2
        ⟨same ▸ freeBase, allFree_pieces walked freeBody⟩) _ List.mem_cons_self
    all_goals cases given

/-- The arguments of a planned call are legal in their places. -/
theorem legal_arguments {role : Role} {n arguments : Node}
    (planned : plannedArguments? plan n = some arguments)
    (usual : role = .usual ∨ role = .callback)
    (legal : Transform.legal ⟨plan, b, role⟩ n = true) {i : Nat} {m : Node}
    (there : arguments.children[i]? = some m) :
    Transform.legal ⟨plan, b, if i = (if role = .usual then 1 else 0)
      then .callback else .usual⟩ m = true := by
  obtain ⟨k, s, ns⟩ := n
  obtain ⟨k', s', items⟩ := arguments
  have second : ns[1]? = some (.node k' s' items) := by
    obtain ⟨t, callee, rest, same, -⟩ := planned_cases planned
    cases same
    rfl
  have list := (legal_node.1 legal).2 1 _ second
  have own := (legal_node.1 list).2 i m there
  rcases usual with rfl | rfl
  all_goals
    simp only [Standing.child, planned, Option.isSome_some, Bool.true_and,
      beq_self_eq_true, if_true] at own
    exact own

/-- The expression of a call stands for a callback only if it is the base of the
call. -/
theorem callbackBody?_expression {chain : AccessChain} {t : String}
    {body : Node} (h : callbackBody? (chain.expression t) = some body) :
    callbackBody? chain.base = some body := by
  rw [← callbackBody?_stripParens] at h ⊢
  unfold AccessChain.expression at h
  split at h
  · exact h
  · cases h

/-- The base of a call that is taken apart is its first argument. -/
theorem base_of_decompose {policy : ChainPolicy} {span : Option Span}
    {items : List Node} {chain : AccessChain}
    (taken : decompose policy span (items.map unwrapItem) = .ok chain) :
    ∃ n, items[0]? = some n ∧ callbackBody? chain.base = callbackBody? n := by
  obtain ⟨call, helper, -, same, -⟩ := decompose_ok taken
  generalize given : items.map unwrapItem = arguments at helper
  cases helper with
  | @intro base _ _ _ _ _ _ _ _ _ _ notSpread =>
    cases items with
    | nil => cases given
    | cons n rest =>
      obtain rfl : unwrapItem n = base := (List.cons.inj given).1
      refine ⟨n, rfl, ?_⟩
      rw [same, ← callbackBody?_stripParens, stripParens_unwrapItem notSpread,
        callbackBody?_stripParens]

/-- **A planned call**, taken apart: the expression is legal where the call
is. -/
theorem inlines_call {n arguments : Node} {items : List Node}
    {policy : ChainPolicy} {chain : AccessChain} {t : String}
    (planned : plannedArguments? plan n = some arguments)
    (children : Each (Inlines plan)
      (argumentTreatments arguments.children) arguments.children items)
    (taken : decompose policy n.span (items.map unwrapItem) = .ok chain) :
    Inlines plan .place n (chain.expression t) where
  kept := nofun
  usual _ _ b legal := by
    refine free_expression taken (fun n' there => ?_) (fun n' there => ?_)
    all_goals
      obtain ⟨j, m, treated, child, inlines⟩ := children.get there
      have own := legal_arguments planned (.inl rfl) legal child
    · rcases treatment_of_argument treated with rfl | rfl
      · exact inlines.usual nofun nofun b own
      · cases eq_one_of_callback treated
    · exact inlines.moved (treatment_of_argument treated) b own
  moved _ b legal body isBody := by
    obtain ⟨n', there, same⟩ := base_of_decompose taken
    obtain ⟨j, m, treated, child, inlines⟩ := children.get there
    have own := legal_arguments planned (.inr rfl) legal child
    refine inlines.moved (treatment_of_argument treated) b own body ?_
    rw [← same]
    exact callbackBody?_expression isBody

/-- A node stands for a callback if it is an arrow function, or parentheses
around a node that does. -/
theorem callbackBody?_node {body : Node}
    (h : callbackBody? (.node k s ns) = some body) :
    (k = .paren ∧ ∃ inner, ns = [inner] ∧ callbackBody? inner = some body) ∨
      ∃ isAsync parameters rest, k = .arrow isAsync ∧
      ns = parameters :: body :: rest := by
  unfold callbackBody? Node.stripParens at h
  split at h
  · rename_i stripped
    split at stripped
    · rename_i same
      cases same
      exact .inl ⟨rfl, _, rfl, by rw [callbackBody?, stripped]; exact h⟩
    · cases stripped
      cases h
      exact .inr ⟨_, _, _, rfl, rfl⟩
  · cases h

/-- Where the body of a callback stands. -/
theorem legal_callbackArrow {isAsync : Bool}
    (legal : Transform.legal ⟨plan, b, .callback⟩
      (.node (.arrow isAsync) s ns) = true) (there : ns[1]? = some n) :
    Transform.legal ⟨plan, b, .usual⟩ n = true :=
  (legal_node.1 legal).2 1 n there

/-- Where a callback in parentheses stands. -/
theorem legal_callbackParen
    (legal : Transform.legal ⟨plan, b, .callback⟩ (.node .paren s ns) = true)
    {i : Nat} (there : ns[i]? = some n) :
    Transform.legal ⟨plan, b, .callback⟩ n = true :=
  (legal_node.1 legal).2 i n there

/-- As a callback, a node with rewritten children has a body that is legal where
the call stands. -/
theorem moved_rewritten (removals : List (Option Span))
    (children : Each (Inlines plan) (treatments k ns) ns ns')
    (legal : Transform.legal ⟨plan, b, .callback⟩ (.node k s ns) = true)
    {body : Node}
    (isBody : callbackBody? (.node k s (finish removals k ns')) = some body) :
    Free b body := by
  rcases callbackBody?_node isBody
    with ⟨rfl, inner, same, isBody⟩ | ⟨isAsync, parameters, rest, rfl, same⟩
  · obtain ⟨m, rfl, rfl⟩ : ∃ m, ns' = [m] ∧ inner = unwrap m := by
      rcases ns' with _ | ⟨m, _ | ⟨m', more⟩⟩ <;> cases same
      exact ⟨m, rfl, rfl⟩
    obtain ⟨j, n, treated, child, inlines⟩ := children.get (i := 0) rfl
    cases eq_of_map treated
    rw [callbackBody?_unwrap] at isBody
    exact inlines.moved (.inl rfl) b
      (legal_callbackParen legal child) body isBody
  · have there : ns'[1]? = some body := congrArg (·[1]?) same
    obtain ⟨j, n, treated, child, inlines⟩ := children.get there
    refine inlines.usual ?_ ?_ b (legal_callbackArrow legal child)
    · rintro rfl
      cases treated_of_treatments treated with
      | keep aside => cases aside
      | body isBody _ => cases isBody
    · rintro rfl
      cases treated_of_treatments treated with
      | body isBody _ => cases isBody

/-- All children of a sequence of statements or items have usual places. -/
theorem legal_placed (placed : treatments k ns = ns.map fun _ => .place)
    (notCall : k ≠ .call)
    (legal : Transform.legal ⟨plan, b, .usual⟩ (.node k s ns) = true) {i : Nat}
    (there : ns[i]? = some n) :
    Transform.legal ⟨plan, mayAwait k i b, .usual⟩ n = true := by
  have unplanned : plannedArguments? plan (.node k s ns) = none := by
    unfold plannedArguments?
    split
    · rename_i same
      cases same
      exact (notCall rfl).elim
    · rfl
  have own : Transform.legal ⟨if (treatments k ns)[i]? = some .keep then ⟨[]⟩
      else plan, mayAwait k i b, .usual⟩ n = true := by
    have own := (legal_node.1 legal).2 i n there
    rwa [Standing.child, unplanned, Option.isSome_none, Bool.false_and,
      if_neg Bool.false_ne_true] at own
  rwa [if_neg] at own
  rw [placed]
  intro kept
  cases eq_of_map kept

theorem legal_even (even : isEven k = true)
    (placed : treatments k ns = ns.map fun _ => .place) (notCall : k ≠ .call)
    (legal : Transform.legal ⟨plan, b, .usual⟩ (.node k s ns) = true) :
    ∀ n ∈ ns, Transform.legal ⟨plan, b, .usual⟩ n = true := by
  intro n hn
  obtain ⟨i, there⟩ := List.mem_iff_getElem?.1 hn
  have own := legal_placed placed notCall legal there
  rwa [mayAwait_of_isEven even] at own

/-- Items that are rewritten in their places are legal. -/
theorem allFree_placed
    (children : Each (Inlines plan) (ns.map fun _ => .place) ns ns')
    (legal : ∀ n ∈ ns, Transform.legal ⟨plan, b, .usual⟩ n = true) :
    AllFree b ns' := by
  intro n' hn'
  obtain ⟨i, there⟩ := List.mem_iff_getElem?.1 hn'
  obtain ⟨j, n, treated, child, inlines⟩ := children.get there
  cases eq_of_map treated
  exact inlines.usual nofun nofun b (legal n (List.mem_of_getElem? child))

/-- **What was legal for a plan is legal once the plan was carried out.** -/
theorem rewrites_free {js : List Treatment} {h : List String}
    {a : List RewrittenCall} (rewritten : Rewrites setting js ns ns' h a)
    (fit : AllFit js ns) :
    Each (Inlines setting.plan) js ns ns' := by
  induction rewritten with
  | nil => exact .nil
  | cons head tail ih ih' =>
    exact .cons (ih (.single fit.head)).single (ih' fit.tail)
  | keep n => exact .cons ⟨fun _ => rfl, nofun, nofun⟩ .nil
  | @node k s ns ns' h a notProgram unplanned children ih =>
    have each := ih (fit_treatments fit.head.regular)
    exact .cons ⟨nofun, fun _ _ b => free_rewritten _ each unplanned,
      fun _ b legal body => moved_rewritten _ each legal⟩ .nil
  | program children all ih => cases fit.head.inner
  | @items k s ns ns' h a children ih =>
    have isList : k = .list := eq_of_beq (fit.head.items rfl)
    subst isList
    obtain ⟨-, below, outer⟩ := regular_node.1 fit.head.regular
    have each := ih (fit_place fun n hn => ⟨below n hn, outer n hn⟩)
    refine .cons ⟨nofun, fun _ _ b legal => ?_, nofun⟩ .nil
    exact (free_around (by rfl)).2 ((Trims.filter _ ns').allFree
      (allFree_placed each (legal_even (by rfl) (by rfl) (by nofun) legal)))
  | @block s ns ns' names h a children all ih =>
    obtain ⟨-, below, outer⟩ := regular_node.1 fit.head.regular
    have each := ih (fit_place fun n hn => ⟨below n hn, outer n hn⟩)
    refine .cons ⟨nofun, fun _ _ b legal => ?_, nofun⟩ .nil
    exact (free_around (by rfl)).2
      (allFree_declareIn ((Trims.filter _ ns').allFree
      (allFree_placed each (legal_even (by rfl) (by rfl) (by nofun) legal))))
  | noBlock notBlock inPlace ih =>
    have inlines := (ih
      (.single (fit_plain fit.head.regular fit.head.inner nofun nofun))).single
    exact .cons ⟨nofun, fun _ _ => inlines.usual nofun nofun, nofun⟩ .nil
  | @function k s ns ns' h a parts ih =>
    have fits := fit.head.function rfl
    cases k with
    | function isAsync isGenerator =>
      have each : Each (Inlines setting.plan)
          (treatments (.function isAsync isGenerator) ns) ns ns' :=
        ih (fit_treatments fit.head.regular)
      exact .cons ⟨nofun, fun _ _ b => free_rewritten [] each rfl, nofun⟩ .nil
    | _ => cases fits
  | @arrowBody n n' names h a inPlace all ih =>
    have inlines := (ih
      (.single (fit_plain fit.head.regular fit.head.inner nofun nofun))).single
    exact .cons ⟨nofun, fun _ _ b legal => free_arrowBody
      (inlines.usual nofun nofun b legal), nofun⟩ .nil
  | @base n arguments arguments' chain h a planned children taken bare ih =>
    exact .cons (inlines_call planned (ih (fit_arguments
      (regular_plannedArguments planned fit.head.regular))) taken) .nil
  | @guarded n arguments arguments' chain t h a planned children taken
      needed ih =>
    exact .cons (inlines_call planned (ih (fit_arguments
      (regular_plannedArguments planned fit.head.regular))) taken) .nil
  | @callbackArrow isAsync s parameters body body' types h a inner ih =>
    obtain ⟨-, below, outer⟩ := regular_node.1 fit.head.regular
    have second : body ∈ parameters :: body :: types :=
      List.mem_cons_of_mem _ List.mem_cons_self
    have inlines := (ih (.single
      (fit_plain (below _ second) (outer _ second) nofun nofun))).single
    refine .cons ⟨nofun, fun _ other => absurd rfl other,
      fun _ b legal found isBody => ?_⟩ .nil
    cases isBody
    exact inlines.usual nofun nofun b (legal_callbackArrow legal rfl)
  | @callbackInside k s n n' h a wraps arrow inner ih =>
    obtain ⟨-, below, outer⟩ := regular_node.1 fit.head.regular
    have inlines := (ih (.single (fit_plain (below _ List.mem_cons_self)
      (outer _ List.mem_cons_self) nofun nofun))).single
    refine .cons ⟨nofun, fun _ other => absurd rfl other,
      fun _ b legal body isBody => ?_⟩ .nil
    rcases wraps with rfl | rfl
    · exact inlines.moved (.inr rfl) b
        (legal_callbackParen (i := 0) legal rfl) body isBody
    · cases isBody
  | noCallback notArrow notInside inPlace ih =>
    have inlines := (ih
      (.single (fit_plain fit.head.regular fit.head.inner nofun nofun))).single
    exact .cons ⟨nofun, fun _ other => absurd rfl other,
      fun _ => inlines.moved (.inl rfl)⟩ .nil

end Inlines

/-- Whether a callback may give up its body to the place where it stands: it is
not async, or something may be awaited there, or it awaits nothing itself. -/
def mayMove (σ : Standing) : Node → Bool
  | .node (.arrow true) _ ns =>
    σ.role != .callback || σ.allowed || ns.all (legal ⟨⟨[]⟩, false, .usual⟩)
  | _ => true

/-- Every async callback of a planned call stands where an `await` may stand, or
awaits nothing itself. -/
def callbacksLegal (σ : Standing) (n : Node) : Bool :=
  throughout mayMove σ n

section Callbacks

variable {σ : Standing} {k : Kind} {s : Option Span} {ns : List Node} {n : Node}
  {b c : Bool}

/-- Where more may be awaited around a node, more may be awaited in it. -/
theorem mayAwait_mono (more : c = true → b = true) {i : Nat}
    (awaits : mayAwait k i c = true) : mayAwait k i b = true := by
  cases k <;> simp only [mayAwait, Bool.and_eq_true] at awaits ⊢
  case function =>
    split at awaits <;> rename_i here
    · rw [if_pos here]
      exact more awaits
    · rw [if_neg here]
      exact awaits
  case constructor | getterProp | setterProp => exact ⟨awaits.1, more awaits.2⟩
  case program | arrow => exact awaits
  all_goals exact more awaits

/-- The body of a callback is the one child that may lose by its place, and it
does so only if the callback awaits. -/
theorem allowed_child (more : c = true → σ.allowed = true)
    (list : σ.role = .arguments ∨ σ.role = .callbackArguments → k = .list)
    (law : mayMove σ (.node k s ns) = true) {i : Nat} (there : ns[i]? = some n)
    (free : Free (mayAwait k i c) n) :
    ∃ d, Free d n ∧ (d = true → (σ.child (.node k s ns) i).allowed = true) := by
  have usual : mayAwait k i c = true → (σ.usualChild (.node k s ns) i).allowed =
      true := mayAwait_mono more
  have call (planned : (plannedArguments? σ.plan (.node k s ns)).isSome =
      true) : mayAwait k i c = true → σ.allowed = true := by
    obtain ⟨arguments, planned⟩ := Option.isSome_iff_exists.1 planned
    obtain rfl : k = .call := kind_of_planned planned
    exact more
  obtain ⟨plan, b, role⟩ := σ
  cases role with
  | usual =>
    refine ⟨_, free, fun awaits => ?_⟩
    unfold Standing.child
    dsimp only
    split
    · rename_i planned
      exact call (Bool.and_eq_true_iff.1 planned).1 awaits
    · exact usual awaits
  | arguments =>
    obtain rfl := list (.inl rfl)
    exact ⟨_, free, more⟩
  | callbackArguments =>
    obtain rfl := list (.inr rfl)
    exact ⟨_, free, more⟩
  | callback =>
    unfold Standing.child
    dsimp only
    split
    · rename_i planned
      exact ⟨_, free, call (Bool.and_eq_true_iff.1 planned).1⟩
    · split
      · rename_i isParen
        cases isParen
        exact ⟨_, free, more⟩
      · rename_i isAsync isArrow
        cases isArrow
        split
        · cases isAsync with
          | false => exact ⟨_, free, nofun⟩
          | true =>
            rcases Bool.or_eq_true_iff.1 law with may | none
            · exact ⟨_, free, fun _ => may⟩
            · exact ⟨false,
                List.all_eq_true.1 none n (List.mem_of_getElem? there), nofun⟩
        · exact ⟨_, free, usual⟩
      · exact ⟨_, free, usual⟩

/-- A child stands for the arguments of a planned call only if it is those. -/
theorem role_child {i : Nat}
    (role : (σ.child n i).role = .arguments ∨
      (σ.child n i).role = .callbackArguments) :
    (plannedArguments? σ.plan n).isSome = true ∧ i = 1 := by
  obtain ⟨plan, b, place⟩ := σ
  cases place
  all_goals
    unfold Standing.child at role
    dsimp only at role
  case usual | callback =>
    split at role
    · rename_i planned
      exact (Bool.and_eq_true_iff.1 planned).imp_right eq_of_beq
    · repeat' split at role
      all_goals rcases role with role | role <;> cases role
  case arguments | callbackArguments =>
    split at role <;> rcases role with role | role <;> cases role

/-- What stands for the arguments of a planned call is a list. -/
theorem list_of_arguments (shaped : wellShaped (.node k s ns) = true) {i : Nat}
    (there : ns[i]? = some n)
    (role : (σ.child (.node k s ns) i).role = .arguments ∨
      (σ.child (.node k s ns) i).role = .callbackArguments) :
    n.kind = .list := by
  obtain ⟨planned, rfl⟩ := role_child role
  obtain ⟨arguments, planned⟩ := Option.isSome_iff_exists.1 planned
  obtain ⟨t, callee, rest, same, -⟩ := planned_cases planned
  cases same
  cases there
  obtain ⟨l, items, rfl⟩ := sequence_of_shaped shaped
  rfl

/-- **Awaits stay legal where callbacks count for nothing**, if they are legal
as they stand and every async callback that awaits something stands where an
`await` may stand. -/
theorem legal_of_callbacks (shaped : ∀ m ∈ subnodes n, wellShaped m = true)
    (more : c = true → σ.allowed = true)
    (list : σ.role = .arguments ∨ σ.role = .callbackArguments → n.kind = .list)
    (free : Free c n) (callbacks : callbacksLegal σ n = true) :
    legal σ n = true := by
  induction n using Node.induct generalizing σ c with
  | step k s ns ih =>
    obtain ⟨awaits, below⟩ := free_node.1 free
    obtain ⟨law, inner⟩ := throughout_node.1 callbacks
    refine legal_node.2 ⟨fun isAwait => more (awaits isAwait),
      fun i n there => ?_⟩
    have hn := List.mem_of_getElem? there
    obtain ⟨d, freeChild, more'⟩ :=
      allowed_child more list law there (below i n there)
    exact ih n hn (fun m hm => shaped m (mem_subnodes.2
      (.inside hn (mem_subnodes.1 hm)))) more' (list_of_arguments
      (shaped _ (mem_subnodes.2 .here)) there) freeChild (inner i n there)

end Callbacks

/-- All that is awaited in a program may be awaited, where the callbacks of the
calls of a plan count as parts of the functions around the calls. -/
def AwaitsLegal (plan : Plan) (tree : Node) : Prop :=
  legal ⟨plan, false, .usual⟩ tree = true

section Performed

variable {options : Options} {text : String} {tree : Node}
  {comments : CommentMap} {transformed : Transformed}

/-- What is legal for the plan of a transformation is legal in its result. -/
theorem Performed.free (p : Performed options tree comments transformed)
    (isProgram : Scope.isProgram tree.kind = true)
    (isRegular : regular tree = true) (legal : AwaitsLegal p.plan tree) :
    AwaitsLegal ⟨[]⟩ transformed.tree := by
  obtain ⟨h, a, rewritten, -⟩ := p.rewrites
  obtain ⟨b, i, s, ns, ns', names, h', rfl, result, -, children, -⟩ :=
    rewrites_program isProgram rewritten
  obtain ⟨-, below, outer⟩ := regular_node.1 isRegular
  have each : Each (Inlines p.plan) _ ns ns' :=
    rewrites_free children (fit_place fun n hn => ⟨below n hn, outer n hn⟩)
  have items : AllFree b
      (declareIn names (ns'.filter (staysIn p.setting.removals))) := by
    refine allFree_declareIn
      ((Trims.filter _ ns').allFree (allFree_placed each fun n hn => ?_))
    obtain ⟨j, there⟩ := List.mem_iff_getElem?.1 hn
    exact legal_placed (by rfl) (by nofun) legal there
  rw [result]
  exact free_node.2
    ⟨nofun, fun j n there => items n (List.mem_of_getElem? there)⟩

/-- **Inlining keeps every `await` legal**, unless the callback of a planned
call is async, awaits something itself and stands, where callbacks do not count
as functions, where nothing may be awaited. Without such a callback, if every
`await` of a program may stand where it stands, so may every `await` of what a
transformation makes of the program. -/
theorem awaits_stay_legal (wellRead : WellRead tree)
    (h : transformProgram options text tree comments = .ok transformed)
    (legal : AwaitsLegal ⟨[]⟩ tree)
    (callbacks : ∀ analysis plan, analyze options.importName tree =
      .ok analysis → Transform.plan analysis.table = .ok plan →
      callbacksLegal ⟨plan, false, .usual⟩ tree = true) :
    AwaitsLegal ⟨[]⟩ transformed.tree := by
  rcases transformProgram_ok h with ⟨-, rfl⟩ | ⟨_, -, -, rfl⟩ | ⟨⟨p⟩⟩
  · exact legal
  · exact legal
  · exact p.free wellRead.isProgram wellRead.regular
      (legal_of_callbacks wellRead.shaped id (by rintro (h | h) <;> cases h)
      legal (callbacks _ _ p.analyzed p.planned))

end Performed

/-- A module whose helper call has an async callback. -/
def awaitingCallText : String :=
  "import idx from 'idx'; idx(a, async _ => _[await b]);"

/-- The callback of `awaitingCallText`. -/
def awaitingCallback : Node :=
  readAt (.arrow true) 30 51
    [.ofList [readAt (.bindingIdent "_" false) 36 37 [.none]],
    readAt .member 41 51 [readAt (.ident "_") 41 42 [], readAt .computed 42 51
    [readAt .await 43 50 [readAt (.ident "b") 49 50 []]]], .none, .none]

/-- The tree of `awaitingCallText`. -/
def awaitingCall : Node :=
  readAt (.program true none) 0 53 [shortImport,
    readAt .exprStmt 23 53 [readAt .call 23 52 [readAt (.ident "idx") 23 26 [],
    .ofList [readAt (.ident "a") 27 28 [], awaitingCallback], .none]]]

theorem wellRead_awaitingCall : WellRead awaitingCall :=
  ⟨rfl, by decide +kernel, by decide +kernel, by decide +kernel,
    by decide +kernel⟩

/-- What an async callback awaits may be awaited at the top of a module, too. -/
theorem awaits_stay_legal_module :
    ∃ transformed, transformProgram {} awaitingCallText awaitingCall {} =
      .ok transformed ∧
      transformed.report.callsRewritten = 1 ∧ AwaitsLegal ⟨[]⟩ awaitingCall ∧
        AwaitsLegal ⟨[]⟩ transformed.tree := by
  obtain ⟨transformed, done⟩ : ∃ transformed, transformProgram
      {} awaitingCallText awaitingCall {} = .ok transformed :=
    ⟨_, rfl⟩
  have legal : AwaitsLegal ⟨[]⟩ awaitingCall := by
    unfold AwaitsLegal
    decide +kernel
  refine ⟨transformed, done, ?_, legal,
    awaits_stay_legal wellRead_awaitingCall done legal ?_⟩
  · cases done
    decide +kernel
  · intro analysis plan analyzed planned
    cases analyzed
    cases planned
    decide +kernel

end NullGuard.Transform
