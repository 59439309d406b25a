import Mathlib.Data.List.TakeWhile
import NullGuard.Proofs.Remainders
import NullGuard.Proofs.Subtrees

/-!
# Where bodies start

A body starts with its directives: statements that are strings and nothing else.
A rewrite declares temporaries behind them, and it changes no directive. But a
declaration that goes away can stand between the directives and another string,
which then becomes a directive.

`BodyKept` says what becomes of the items of a body, and `rewrites_descend`
follows every body through a rewrite. `bodies_kept` is about a whole
transformation: each body of its result comes from one of the program, and its
directives are those that the program's body has once the declarations that go
away are taken out. So no directive is lost (`prologue_prefix_staying`), and
none is gained where the item behind the directives stays
(`prologue_staying_of_next`).
-/

namespace NullGuard.Transform

open NullGuard.Text (Span)
open NullGuard.Tree NullGuard.Chain NullGuard.Scope

/-- How a statement is spelt if it is a directive, and where it stands. -/
def directive? : Node → Option (String × Option Span)
  | .node .exprStmt s [.node (.str raw _) _ _] => some (raw, s)
  | _ => none

/-- The directives that some statements start with. -/
def prologue : List Node → List (String × Option Span)
  | [] => []
  | n :: ns =>
    match directive? n with
    | some d => d :: prologue ns
    | none => []

/-- Whether an item goes away: an import, or a declaration of variables with all
its declarators. -/
def goesAway (removals : List (Option Span)) : Node → Bool
  | .node (.importDecl _) s _ => removals.contains s
  | .node (.varDecl _ _) _ ns => ns.all fun d => removals.contains d.span
  | _ => false

/-- The items that stay. -/
def staying (removals : List (Option Span)) (items : List Node) : List Node :=
  items.filter fun n => !goesAway removals n

/-- The declaration of some names, if there are any. -/
def declaration (names : List String) : List Node :=
  if names.isEmpty then [] else [varStatement names]

section Directives

variable {removals : List (Option Span)} {n : Node} {ns : List Node}

theorem isSome_directive? (n : Node) :
    (directive? n).isSome = isDirective n := by
  fun_cases isDirective n with
  | case1 => rfl
  | case2 _ other =>
    unfold directive?
    split
    · exact (other _ _ _ _ _ rfl).elim
    · rfl

theorem prologue_cons_of_none (h : directive? n = none) :
    prologue (n :: ns) = [] := by
  rw [prologue, h]

theorem prologue_cons_of_some {d : String × Option Span}
    (h : directive? n = some d) :
    prologue (n :: ns) = d :: prologue ns := by
  rw [prologue, h]

/-- No directive goes away. -/
theorem goesAway_of_directive {d : String × Option Span}
    (h : directive? n = some d) :
    goesAway removals n = false := by
  unfold directive? at h
  split at h
  · rfl
  · cases h

theorem staying_cons :
    staying removals (n :: ns) = if goesAway removals n then staying removals ns
      else n :: staying removals ns := by
  rw [staying, List.filter_cons]
  cases goesAway removals n <;> rfl

/-- **No directive is lost** where declarations go away. -/
theorem prologue_prefix_staying (removals : List (Option Span))
    (ns : List Node) :
    prologue ns <+: prologue (staying removals ns) := by
  induction ns with
  | nil => exact List.prefix_refl _
  | cons n ns ih =>
    cases isDirective : directive? n with
    | none =>
      rw [prologue_cons_of_none isDirective]
      exact List.nil_prefix
    | some d =>
      rw [staying_cons, goesAway_of_directive isDirective,
        if_neg Bool.false_ne_true, prologue_cons_of_some isDirective,
        prologue_cons_of_some isDirective]
      exact (List.prefix_cons_inj d).2 ih

/-- **No directive is gained** where the item behind the directives stays. -/
theorem prologue_staying_of_next
    (stays : ∀ n ∈ (ns.dropWhile isDirective).head?,
      goesAway removals n = false) :
    prologue (staying removals ns) = prologue ns := by
  induction ns with
  | nil => rfl
  | cons n ns ih =>
    cases isDirective : directive? n with
    | none =>
      have other : Transform.isDirective n = false := by
        rw [← isSome_directive?, isDirective, Option.isSome_none]
      rw [List.dropWhile_cons_of_neg (by simp [other])] at stays
      rw [staying_cons, stays n rfl, if_neg Bool.false_ne_true,
        prologue_cons_of_none isDirective, prologue_cons_of_none isDirective]
    | some d =>
      have one : Transform.isDirective n = true := by
        rw [← isSome_directive?, isDirective, Option.isSome_some]
      rw [List.dropWhile_cons_of_pos one] at stays
      rw [staying_cons, goesAway_of_directive isDirective,
        if_neg Bool.false_ne_true, prologue_cons_of_some isDirective,
        prologue_cons_of_some isDirective, ih stays]

/-- Whatever comes behind the directives and is none does not matter. -/
theorem prologue_takeWhile_append {v : Node} {rest : List Node}
    (other : directive? v = none) (ns : List Node) :
    prologue (ns.takeWhile isDirective ++ v :: rest) = prologue ns := by
  induction ns with
  | nil => exact prologue_cons_of_none other
  | cons n ns ih =>
    cases isDirective : directive? n with
    | none =>
      have no : Transform.isDirective n = false := by
        rw [← isSome_directive?, isDirective, Option.isSome_none]
      rw [List.takeWhile_cons_of_neg (by simp [no]),
        prologue_cons_of_none isDirective]
      exact prologue_cons_of_none other
    | some d =>
      have one : Transform.isDirective n = true := by
        rw [← isSome_directive?, isDirective, Option.isSome_some]
      rw [List.takeWhile_cons_of_pos one, List.cons_append,
        prologue_cons_of_some isDirective,
        prologue_cons_of_some isDirective, ih]

theorem prologue_declareIn (names : List String) (ns : List Node) :
    prologue (declareIn names ns) = prologue ns := by
  unfold declareIn
  split
  · rfl
  · exact prologue_takeWhile_append rfl ns

/-- Temporaries are declared right behind the directives. -/
theorem declareIn_split (names : List String) (ns : List Node) :
    declareIn names ns = (declareIn names ns).takeWhile isDirective ++
      declaration names ++ ns.dropWhile isDirective ∧
      (declareIn names ns).takeWhile isDirective =
        ns.takeWhile isDirective := by
  unfold declareIn declaration
  split
  · rw [List.append_nil, List.takeWhile_append_dropWhile]
    exact ⟨rfl, rfl⟩
  · have front : (ns.takeWhile isDirective ++ varStatement names :: ns.dropWhile
        isDirective).takeWhile isDirective = ns.takeWhile isDirective := by
      rw [List.takeWhile_append_of_pos fun n hn => List.mem_takeWhile_imp hn,
        List.takeWhile_cons_of_neg (by nofun), List.append_nil]
    rw [front, List.append_assoc]
    exact ⟨rfl, rfl⟩

end Directives

/-- The items of a block. -/
def blockItems? : Node → Option (List Node)
  | .node .block _ items => some items
  | _ => none

/-- The items of the body of a node: those of a program, or of the block of a
function or its like. -/
def bodyItems? (n : Node) : Option (List Node) :=
  if isProgram n.kind then some n.children
  else (bodyIndex n.kind).bind fun i => n.children[i]?.bind blockItems?

/-- **What becomes of the items of a body.** -/
structure BodyKept (removals : List (Option Span)) (items items' : List Node) :
    Prop where
  /-- The directives are those that the body has without the declarations that
  go away. -/
  directives : prologue items' = prologue (staying removals items)
  /-- The items that stay are what they were, and there is at most a declaration
  right behind the directives. -/
  declared : ∃ names rest, items' = items'.takeWhile isDirective ++
    declaration names ++ rest ∧
    List.Forall₂ Stays (staying removals items)
      (items'.takeWhile isDirective ++ rest)

/-- Where the items of a body come from, for the items that were there. -/
inductive BodyFrom (removals : List (Option Span)) :
    Option (List Node) → List Node → Prop where
  | same (items : List Node) : BodyFrom removals (some items) items
  | kept {items items' : List Node} (h : BodyKept removals items items') :
      BodyFrom removals (some items) items'
  /-- The body of an arrow function that was an expression. -/
  | made (names : List String) (value : Node) :
      BodyFrom removals none [varStatement names, made .returnStmt [value]]

/-- Each body in some nodes comes from one in others, of the same kind and with
the same span. -/
def AllBodied (removals : List (Option Span)) (ns ms : List Node) : Prop :=
  ∀ m' ∈ subnodesAmong ms, ∀ items', bodyItems? m' = some items' →
    ∃ m ∈ subnodesAmong ns, m.kind = m'.kind ∧
    m.span = m'.span ∧ BodyFrom removals (bodyItems? m) items'

section Bodies

variable {removals : List (Option Span)} {k : Kind} {s : Option Span}
  {ns ms ls : List Node}

/-- A node that has no body. -/
theorem bodyItems?_of_kind (inner : isProgram k = false)
    (none : bodyIndex k = none) :
    bodyItems? (.node k s ns) = Option.none := by
  rw [bodyItems?, Node.kind_node, inner, none]
  rfl

/-- What a rewrite puts around other nodes has no body. -/
theorem bodyItems?_of_frame (frame : isFrame k = true) :
    bodyItems? (.node k s ns) = Option.none := by
  unfold isFrame at frame
  split at frame <;> first | rfl | cases frame

/-- Nor has what the expression of a chain is put together with. -/
theorem bodyItems?_of_chained (chained : isChained k = true) :
    bodyItems? (.node k s ns) = Option.none := by
  unfold isChained at chained
  split at chained <;> first | rfl | cases chained

/-- The body of a node comes from one in some nodes, if it has one. -/
def Bodied (removals : List (Option Span)) (ns : List Node) (m' : Node) :
    Prop :=
  ∀ items', bodyItems? m' = some items' → ∃ m ∈ subnodesAmong ns,
    m.kind = m'.kind ∧
    m.span = m'.span ∧ BodyFrom removals (bodyItems? m) items'

theorem bodied_of_none {m : Node} (none : bodyItems? m = none) :
    Bodied removals ns m := by
  intro items' has
  cases none.symm.trans has

theorem bodied_frames (k : Kind) (s : Option Span) (ms : List Node)
    (frame : isFrame k = true) :
    Bodied removals ns (.node k s ms) :=
  bodied_of_none (bodyItems?_of_frame frame)

theorem bodied_declarator (x : String) :
    Bodied removals ns (made (.declarator false)
      [made (.bindingIdent x false) [.none], .none]) :=
  bodied_of_none rfl

/-- Tidying up adds no body. -/
theorem AllBodied.trim (h : AllBodied removals ns ms) (trims : Trims ms ls) :
    AllBodied removals ns ls :=
  trims.everywhere bodied_frames h

theorem AllBodied.declareIn (names : List String)
    (h : AllBodied removals ns ms) :
    AllBodied removals ns (declareIn names ms) :=
  everywhere_declareIn bodied_frames bodied_declarator names h

/-- The expression of a chain has no bodies but those of its pieces. -/
theorem chaining_allBodied (removals : List (Option Span)) (ns : List Node) :
    Chaining (AllBodied removals ns) where
  nil := everywhere_nil
  append := everywhere_append
  node _ _ chained h :=
    everywhere_node.2 ⟨bodied_of_none (bodyItems?_of_chained chained), h⟩

/-- The bodies in the expression of a helper call are those of its arguments. -/
theorem AllBodied.call {policy : ChainPolicy} {span : Option Span}
    {given : List Node} {c : AccessChain} (t : String)
    (taken : decompose policy span (given.map unwrapItem) = .ok c)
    (h : AllBodied removals ns given) :
    AllBodied removals ns [c.expression t] :=
  (chaining_allBodied removals ns).expression
    (everywhere_decompose bodied_frames taken h)

end Bodies

/-- **What is known of a node** that is treated in a way and what becomes of
it. -/
structure Descends (removals : List (Option Span)) (j : Treatment)
    (n n' : Node) : Prop where
  stays : j = .place → Stays n n'
  item : j = .place → directive? n' = directive? n ∧
    staysIn removals n' = !goesAway removals n
  /-- A block comes from a block, whatever is declared in it then. -/
  items : j = .place → ∀ s items', n' = .node .block s items' →
    ∃ s' items, n = .node .block s' items ∧
    ∀ names, BodyKept removals items (declareIn names items')
  block : j = .place ∨ isBody j = true → ∀ items', blockItems? n' =
    some items' → BodyFrom removals (blockItems? n) items'
  bodies : AllBodied removals [n] [n']

section Descends

variable {setting : Setting} {removals : List (Option Span)} {j : Treatment}
  {js : List Treatment} {n n' : Node} {k : Kind} {s : Option Span}
  {ns ns' ms ls : List Node} {h : List String} {a : List RewrittenCall}

theorem AllBodied.refl (ns : List Node) : AllBodied removals ns ns := by
  intro m hm items has
  exact ⟨m, hm, rfl, rfl, has ▸ .same items⟩

theorem AllBodied.mono (h : AllBodied removals ns ls)
    (sub : ∀ m ∈ subnodesAmong ns, m ∈ subnodesAmong ms) :
    AllBodied removals ms ls := by
  intro m' hm' items' has
  obtain ⟨m, hm, rest⟩ := h m' hm' items' has
  exact ⟨m, sub m hm, rest⟩

/-- A node around other nodes, with its own body if it has one. -/
theorem AllBodied.node (inside : AllBodied removals ns ms)
    (own : ∀ items', bodyItems? (.node k s ms) = some items' →
      BodyFrom removals (bodyItems? (.node k s ns)) items') :
    AllBodied removals [.node k s ns] [.node k s ms] := by
  refine everywhere_node.2 ⟨fun items' has => ?_, inside.mono fun m hm => ?_⟩
  · exact ⟨_, mem_subnodesAmong_single.2 (mem_subnodes_node.2 (.inl rfl)), rfl,
      rfl, own items' has⟩
  · exact mem_subnodesAmong_single.2 (mem_subnodes_node.2 (.inr hm))

/-- A node without a body around other nodes. -/
theorem AllBodied.around (inside : AllBodied removals ns ms)
    (inner : isProgram k = false) (none : bodyIndex k = none) :
    AllBodied removals [.node k s ns] [.node k s ms] :=
  inside.node fun items' has => by
    rw [bodyItems?_of_kind inner none] at has
    cases has

/-- Nodes side by side. -/
theorem AllBodied.beside (head : AllBodied removals [n] [n'])
    (tail : AllBodied removals ns ns') :
    AllBodied removals (n :: ns) (n' :: ns') := by
  refine everywhere_cons.2 ⟨head.mono fun m hm => ?_,
    tail.mono fun m hm => mem_subnodesAmong_cons.2 (.inr hm)⟩
  exact mem_subnodesAmong_cons.2 (.inl (mem_subnodesAmong_single.1 hm))

theorem allBodied_of_each (each : Each (Descends removals) js ns ns') :
    AllBodied removals ns ns' := by
  induction each with
  | nil => exact .refl []
  | cons head tail ih => exact head.bodies.beside ih

/-- The spelling of a string. -/
def spelling? : Kind → Option String
  | .str raw _ => some raw
  | _ => none

theorem directive?_exprStmt (s : Option Span) (c : Node) :
    directive? (.node .exprStmt s [c]) = (spelling? c.kind).map fun raw =>
      (raw, s) := by
  obtain ⟨k, s', ns⟩ := c
  cases k <;> rfl

/-- What becomes of the expression of a statement is a string just if it was
one. -/
theorem directive?_rewritten (s : Option Span) {c c' : Node}
    (stays : Stays c c') :
    directive? (.node .exprStmt s [unwrapConditional c']) =
      directive? (.node .exprStmt s [c]) := by
  have unwrapped : spelling? (unwrapConditional c').kind = spelling? c'.kind :=
    by
    unfold unwrapConditional
    split <;> rfl
  rw [directive?_exprStmt, directive?_exprStmt, unwrapped]
  rcases stays with ⟨same, -⟩ | ⟨isCall, isParen⟩
  · rw [same]
  · rw [isCall, isParen]
    rfl

/-- A declaration has no declarators left just if all of them go away. -/
theorem isEmpty_filter_declarators (stay : List.Forall₂ Stays ns ns')
    (declarators : ∀ n ∈ ns, isDeclarator n.kind = true) :
    (ns'.filter fun d => !removals.contains d.span).isEmpty =
      ns.all fun d => removals.contains d.span := by
  induction stay with
  | nil => rfl
  | @cons n n' ns ns' head tail ih =>
    obtain ⟨first, others⟩ := List.forall_mem_cons.1 declarators
    have span : n'.span = n.span := by
      rcases head with ⟨-, same⟩ | ⟨isCall, -⟩
      · exact same
      · rw [isCall] at first
        cases first
    rw [List.filter_cons, List.all_cons, ← ih others, span]
    cases removals.contains n.span <;> rfl

/-- Whether an item of a list stays is known before it is rewritten. -/
theorem staysIn_node (written : Written (.node k s ns))
    (stay : ∀ w d, k = .varDecl w d → List.Forall₂ Stays ns ns') :
    staysIn removals (.node k s (finish removals k ns')) =
      !goesAway removals (.node k s ns) := by
  cases k
  case varDecl w d =>
    rw [goesAway, ← isEmpty_filter_declarators (stay w d rfl)
      (declarators_of_written written w d rfl)]
    change (!isEmptied (.node (.varDecl w d) s
      (ns'.filter fun d => !removals.contains d.span))) = _
    generalize ns'.filter _ = left
    cases left <;> rfl
  all_goals rfl

/-- The items of a list that stay are what they were. -/
theorem forall₂_staying
    (each : List.Forall₂ (Descends removals .place) ns ns') :
    List.Forall₂ Stays (staying removals ns) (ns'.filter (staysIn removals)) ∧
      prologue (ns'.filter (staysIn removals)) =
        prologue (staying removals ns) := by
  induction each with
  | nil => exact ⟨.nil, rfl⟩
  | @cons n n' ns ns' head tail ih =>
    obtain ⟨stay, same⟩ := ih
    obtain ⟨directive, stays⟩ := head.item rfl
    rw [staying_cons, List.filter_cons, stays]
    cases goesAway removals n with
    | true => exact ⟨stay, same⟩
    | false =>
      refine ⟨.cons (head.stays rfl) stay, ?_⟩
      rw [if_neg Bool.false_ne_true, Bool.not_false, if_pos rfl, prologue,
        prologue, directive, same]

/-- The items of a body that declares some names. -/
theorem bodyKept_of_each (names : List String)
    (each : List.Forall₂ (Descends removals .place) ns ns') :
    BodyKept removals ns (declareIn names (ns'.filter (staysIn removals))) := by
  obtain ⟨stay, same⟩ := forall₂_staying each
  obtain ⟨split, front⟩ := declareIn_split names (ns'.filter (staysIn removals))
  refine ⟨(prologue_declareIn names _).trans same, names, _, split, ?_⟩
  rwa [front, List.takeWhile_append_dropWhile]

/-- The body of a node comes from its body. -/
theorem bodyFrom_of_each
    (each : Each (Descends removals) (treatments k ns) ns ns')
    (inner : isProgram k = false) {items' : List Node}
    (has : bodyItems? (.node k s ns') = some items') :
    BodyFrom removals (bodyItems? (.node k s ns)) items' := by
  rw [bodyItems?, Node.kind_node, inner, if_neg Bool.false_ne_true] at has ⊢
  obtain ⟨i, here, has⟩ := Option.bind_eq_some_iff.1 has
  obtain ⟨b', there, isBlock⟩ := Option.bind_eq_some_iff.1 has
  obtain ⟨j, b, treated, child, descends⟩ := each.get there
  rw [here, Option.bind_some, Node.children_node, child, Option.bind_some]
  refine descends.block ?_ items' isBlock
  cases treated_of_treatments treated with
  | keep aside => cases k <;> cases here <;> cases aside
  | place => exact .inl rfl
  | body body _ => exact .inr body
  | function isMethod _ =>
    rw [isMethod] at here
    cases here
  | items isCase _ =>
    rw [isCase] at here
    cases here

/-- The bodies of a node whose children descend. -/
theorem allBodied_node
    (each : Each (Descends removals) (treatments k ns) ns ns')
    (inner : isProgram k = false) :
    AllBodied removals [.node k s ns] [.node k s (finish removals k ns')] := by
  cases here : bodyIndex k with
  | none =>
    exact ((allBodied_of_each each).trim (trims_finish removals k ns')).around
      inner here
  | some i =>
    rw [finish_of_bodyIndex here]
    exact (allBodied_of_each each).node fun _ => bodyFrom_of_each each inner

theorem eq_of_blockItems? {items : List Node} (h : blockItems? n = some items) :
    ∃ s, n = .node .block s items := by
  unfold blockItems? at h
  split at h
  · cases h
    exact ⟨_, rfl⟩
  · cases h

/-- Of a node that is not rewritten in its own place and is no body only the
bodies matter. -/
theorem Descends.of_bodies (notPlace : j ≠ .place) (notBody : isBody j = false)
    (bodies : AllBodied removals [n] [n']) : Descends removals j n n' where
  stays same := absurd same notPlace
  item same := absurd same notPlace
  items same := absurd same notPlace
  block same := by
    rcases same with same | same
    · exact absurd same notPlace
    · cases same.symm.trans notBody
  bodies := bodies

/-- A node that is rewritten in its own place. -/
theorem Descends.of_place (stays : Stays n n')
    (item : directive? n' = directive? n ∧ staysIn removals n' =
      !goesAway removals n)
    (items : ∀ s items', n' = .node .block s items' →
      ∃ s' items, n = .node .block s' items ∧
      ∀ names, BodyKept removals items (declareIn names items'))
    (bodies : AllBodied removals [n] [n']) :
    Descends removals .place n n' where
  stays _ := stays
  item _ := item
  items _ := items
  block _ items' isBlock := by
    obtain ⟨s, rfl⟩ := eq_of_blockItems? isBlock
    obtain ⟨s', before, rfl, kept⟩ := items s items' rfl
    exact .kept (kept [])
  bodies := bodies

/-- A node that keeps its kind and span. -/
theorem descends_node (inner : isProgram k = false)
    (written : Written (.node k s ns))
    (each : Each (Descends removals) (treatments k ns) ns ns') :
    Descends removals .place (.node k s ns)
      (.node k s (finish removals k ns')) := by
  refine .of_place (.inl ⟨rfl, rfl⟩) ⟨?_, staysIn_node written fun w d isVar =>
    ?_⟩ (fun s' items' isBlock => ?_) (allBodied_node each inner)
  · cases k
    case exprStmt =>
      have placed : List.Forall₂ (Descends removals .place) ns ns' :=
        each.placed
      cases placed with
      | nil => rfl
      | cons head tail =>
        cases tail with
        | nil => exact directive?_rewritten s (head.stays rfl)
        | cons => simp [directive?, finish, tidy]
    all_goals rfl
  · subst isVar
    have placed : List.Forall₂ (Descends removals .place) ns ns' := each.placed
    exact placed.imp fun _ _ descends => descends.stays rfl
  · cases k
    case block =>
      cases isBlock
      have placed : List.Forall₂ (Descends removals .place) ns ns' :=
        each.placed
      exact ⟨s, ns, rfl, fun names => bodyKept_of_each names placed⟩
    all_goals cases isBlock

/-- The body of an arrow function. -/
theorem descends_arrowBody (names : List String)
    (descends : Descends removals .place n n') :
    Descends removals .arrowBody n (arrowBody names n') where
  stays same := nomatch same
  item same := nomatch same
  items same := nomatch same
  block _ items' isBlock := by
    unfold arrowBody at isBlock
    split at isBlock
    · rename_i s items
      cases isBlock
      obtain ⟨s', before, rfl, kept⟩ := descends.items rfl s items rfl
      exact .kept (kept names)
    · rename_i notBlock
      have expression : blockItems? n = none := by
        cases isBlock' : blockItems? n with
        | none => rfl
        | some items =>
          obtain ⟨s, rfl⟩ := eq_of_blockItems? isBlock'
          obtain ⟨k', s', ms⟩ := n'
          cases (descends.stays rfl).kind nofun
          exact (notBlock _ _ rfl).elim
      rw [expression]
      split at isBlock
      · obtain ⟨s, same⟩ := eq_of_blockItems? isBlock
        unfold unwrapConditional at same
        split at same
        · cases same
        · exact (notBlock _ _ same).elim
      · cases isBlock
        exact .made names _
  bodies :=
    everywhere_arrowBody bodied_frames bodied_declarator names descends.bodies

/-- A helper call becomes an expression in parentheses, and its bodies are those
of its arguments. -/
theorem descends_call {arguments : Node} {arguments' : List Node}
    {policy : ChainPolicy} {c : AccessChain} {plan : Plan} (t : String)
    (planned : plannedArguments? plan n = some arguments)
    (each : Each (Descends removals)
      (argumentTreatments arguments.children) arguments.children arguments')
    (taken : decompose policy n.span (arguments'.map unwrapItem) = .ok c) :
    Descends removals .place n (c.expression t) := by
  have isCall := kind_of_planned planned
  obtain ⟨inner, same⟩ : ∃ inner, c.expression t = .node .paren none [inner] :=
    by
    unfold AccessChain.expression
    split <;> exact ⟨_, rfl⟩
  have bodies : AllBodied removals [n] [c.expression t] := by
    refine ((allBodied_of_each each).call t taken).mono fun m hm => ?_
    obtain ⟨g, hg, inside⟩ := mem_subnodesAmong.1 hm
    obtain ⟨k, s, ns⟩ := n
    obtain ⟨k', s', items⟩ := arguments
    refine mem_subnodesAmong_single.2 (mem_subnodes.2 ?_)
    exact .inside (occurs_of_planned planned)
      (.inside hg (mem_subnodes.1 inside))
  rw [same] at bodies ⊢
  obtain ⟨k, s, ns⟩ := n
  cases isCall
  exact .of_place (.inr ⟨rfl, rfl⟩) ⟨rfl, rfl⟩ nofun bodies

/-- **Every rewrite lets bodies descend** from bodies. -/
theorem rewrites_descend (rewritten : Rewrites setting js ns ns' h a)
    (fit : AllFit js ns) (written : ∀ n ∈ ns, Written n) :
    Each (Descends setting.removals) js ns ns' := by
  induction rewritten with
  | nil => exact .nil
  | cons head tail ih ih' =>
    obtain ⟨first, others⟩ := List.forall_mem_cons.1 written
    exact .cons (ih (.single fit.head)
      (List.forall_mem_singleton.2 first)).single (ih' fit.tail others)
  | keep n => exact .cons (.of_bodies nofun rfl (.refl [n])) .nil
  | node notProgram unplanned children ih =>
    have whole := written _ List.mem_cons_self
    exact .cons (descends_node notProgram whole
      (ih (fit_treatments fit.head.regular) fun n hn => whole.child hn)) .nil
  | program => cases fit.head.inner
  | @items k s ns ns' h a children ih =>
    have whole := written _ List.mem_cons_self
    obtain ⟨-, below, outer⟩ := regular_node.1 fit.head.regular
    have each := ih (fit_place fun n hn => ⟨below n hn, outer n hn⟩) fun n hn =>
      whole.child hn
    have isList : k = .list := eq_of_beq (fit.head.items rfl)
    subst isList
    exact .cons (.of_bodies nofun rfl
      (((allBodied_of_each each).trim (Trims.filter _ _)).around rfl rfl)) .nil
  | @block s ns ns' names h a children all ih =>
    have whole := written _ List.mem_cons_self
    obtain ⟨-, below, outer⟩ := regular_node.1 fit.head.regular
    have each := ih (fit_place fun n hn => ⟨below n hn, outer n hn⟩) fun n hn =>
      whole.child hn
    refine .cons ⟨nofun, nofun, nofun, fun _ items' isBlock => ?_, ?_⟩ .nil
    · cases isBlock
      exact .kept (bodyKept_of_each names each.placed)
    · exact (((allBodied_of_each each).trim (Trims.filter _ _)).declareIn
        names).around rfl rfl
  | noBlock notBlock inPlace ih =>
    have descends := (ih (.single
      (fit_plain fit.head.regular fit.head.inner nofun nofun)) written).single
    exact .cons ⟨nofun, nofun, nofun, fun _ => descends.block (.inl rfl),
      descends.bodies⟩ .nil
  | @function k s ns ns' h a parts ih =>
    have whole := written _ List.mem_cons_self
    have fits := fit.head.function rfl
    cases k with
    | function b g =>
      have each : Each (Descends setting.removals)
          (treatments (.function b g) ns) ns ns' :=
        ih (fit_treatments fit.head.regular) fun n hn => whole.child hn
      exact .cons (.of_bodies nofun rfl (allBodied_node each rfl)) .nil
    | _ => cases fits
  | @arrowBody n n' names h a inPlace all ih =>
    have descends := (ih (.single
      (fit_plain fit.head.regular fit.head.inner nofun nofun)) written).single
    exact .cons (descends_arrowBody names descends) .nil
  | base planned children taken bare ih
      | guarded planned children taken needed ih =>
    have each :=
      ih (fit_arguments (regular_plannedArguments planned fit.head.regular))
      fun n hn => (written _ List.mem_cons_self).argument planned hn
    exact .cons (descends_call _ planned each taken) .nil
  | @callbackArrow b s parameters body body' types h a inner ih =>
    have whole := written _ List.mem_cons_self
    obtain ⟨-, below, outer⟩ := regular_node.1 fit.head.regular
    have second : body ∈ parameters :: body :: types :=
      List.mem_cons_of_mem _ List.mem_cons_self
    have descends :=
      (ih (.single (fit_plain (below _ second) (outer _ second) nofun nofun))
      (List.forall_mem_singleton.2 (whole.child second))).single
    have front : AllBodied setting.removals [parameters] [parameters] := .refl _
    have inside : AllBodied setting.removals (parameters :: body :: types)
        (parameters :: body' :: types) :=
      front.beside (descends.bodies.beside (.refl types))
    exact .cons (.of_bodies nofun rfl
      (inside.node fun items' => descends.block (.inl rfl) items')) .nil
  | @callbackInside k s n n' h a wraps isArrow inside ih =>
    have whole := written _ List.mem_cons_self
    obtain ⟨-, below, outer⟩ := regular_node.1 fit.head.regular
    have descends := (ih (.single (fit_plain (below _ List.mem_cons_self)
      (outer _ List.mem_cons_self) nofun nofun))
      (List.forall_mem_singleton.2 (whole.child List.mem_cons_self))).single
    refine .cons (.of_bodies nofun rfl ?_) .nil
    rcases wraps with rfl | rfl <;> exact descends.bodies.around rfl rfl
  | noCallback _ _ inPlace ih =>
    have descends := (ih (.single
      (fit_plain fit.head.regular fit.head.inner nofun nofun)) written).single
    exact .cons (.of_bodies nofun rfl descends.bodies) .nil

end Descends

/-- **Every body of the result comes from one of the program**, of the same kind
and with the same span. Its directives are those of the program's body without
the declarations that go away, its temporaries are declared right behind them,
and its other items are what they were. -/
theorem bodies_kept {options : Options} {text : String} {tree : Node}
    {comments : CommentMap} {transformed : Transformed}
    (wellRead : WellRead tree) (written : Written tree)
    (h : transformProgram options text tree comments = .ok transformed) :
    transformed.tree = tree ∨ ∃ analysis plan, analyze options.importName tree =
      .ok analysis ∧
      Transform.plan analysis.table = .ok plan ∧
        AllBodied plan.removals [tree] [transformed.tree] := by
  rcases transformProgram_ok h with ⟨-, rfl⟩ | ⟨_, -, -, rfl⟩ | ⟨⟨p⟩⟩
  · exact .inl rfl
  · exact .inl rfl
  · refine .inr ⟨p.analysis, p.plan, p.analyzed, p.planned, ?_⟩
    obtain ⟨_, _, rewritten, -⟩ := p.rewrites
    obtain ⟨b, i, s, ns, ns', names, h', rfl, result, -, children, -⟩ :=
      rewrites_program wellRead.isProgram rewritten
    obtain ⟨-, below, outer⟩ := regular_node.1 wellRead.regular
    have each := rewrites_descend children (fit_place fun n hn =>
      ⟨below n hn, outer n hn⟩) fun n hn => written.child hn
    have inside : AllBodied p.plan.removals ns
        (declareIn names (ns'.filter (staysIn p.plan.removals))) :=
      ((allBodied_of_each each).trim (Trims.filter _ _)).declareIn names
    rw [result]
    refine inside.node fun items' has => ?_
    cases has
    exact .kept (bodyKept_of_each names each.placed)

/-- A program with a string behind the import of the helper. -/
def importedStringText : String :=
  "import idx from 'idx'; 'x'; idx(a, _ => _.b);"

/-- The tree of `importedStringText`. -/
def importedString : Node :=
  readAt (.program true none) 0 45 [shortImport,
    readAt .exprStmt 23 27 [readAt (.str "'x'" (some "x")) 23 26 []],
    readAt .exprStmt 28 45 [shortCall 28 "a" "b"]]

/-- The string becomes a directive, because the import in front of it goes
away. -/
theorem bodies_kept_importedString :
    ∃ transformed, transformProgram {} importedStringText importedString {} =
      .ok transformed ∧
      AllBodied [some ⟨0, 22⟩] [importedString] [transformed.tree] ∧
        prologue importedString.children = [] ∧
        prologue transformed.tree.children = [("'x'", some ⟨23, 27⟩)] := by
  obtain ⟨transformed, done⟩ : ∃ transformed, transformProgram
      {} importedStringText importedString {} = .ok transformed :=
    ⟨_, rfl⟩
  have wellRead : WellRead importedString :=
    ⟨rfl, by decide +kernel, by decide +kernel, by decide +kernel,
      by decide +kernel⟩
  have written : Written importedString := by
    unfold Written
    decide +kernel
  have gained : prologue transformed.tree.children = [("'x'", some ⟨23, 27⟩)] :=
    by
    cases done
    decide +kernel
  refine ⟨transformed, done, ?_, by decide +kernel, gained⟩
  rcases bodies_kept wellRead written done
    with same | ⟨analysis, plan, analyzed, planned, kept⟩
  · rw [same] at gained
    exact absurd gained (by decide +kernel)
  · cases analyzed
    cases planned
    exact kept

end NullGuard.Transform
