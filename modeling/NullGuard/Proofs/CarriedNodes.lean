import NullGuard.Proofs.CarriedCalls
import NullGuard.Proofs.Meanings

/-!
# What a node carries over

The edit that a rewrite makes is known before: the temporaries are new, the
parameters of callbacks and the declarations of helpers go away (`Scene`), and
of the identifiers those are left that stand in the result (`Left`). As no
identifier is copied, what is left of a node stands in what became of this node
and nowhere else, so that a declaration that is dropped takes its uses with it
(`carries_removed`).

A node that keeps its kind is carried over if its children are
(`faithful_node`). For most kinds the step is `said_related`, for the relation
`Carries`; the cases are for nodes that look at more than that, and for those
that drop some of their children.
-/

namespace NullGuard.Transform

open NullGuard.Text (Span)
open NullGuard.Tree NullGuard.Chain NullGuard.Scope

/-- Whether nodes of a kind are imports or declarators. -/
def isDeclaration (k : Kind) : Bool :=
  isImport k || isDeclarator k

/-- What an edit knows about nodes that are rewritten: their identifiers have
spans of their own, and it counts the parameters of callbacks and what removed
declarations declare among what goes away. -/
structure Scene (e : Edit) (setting : Setting) (m : String) (ns : List Node) :
    Prop where
  given : none ∉ spansAmong ns
  distinct : (spansAmong ns).Nodup
  parameters : ∀ n ∈ subnodesAmong ns,
    ∀ s ∈ callbackParameters setting.plan n, e.isGone s
  removed : ∀ n ∈ subnodesAmong ns, isDeclaration n.kind = true → n.span ∈
    setting.removals → ∀ c, Inside c → ∀ r, ∀ d ∈ reachingAll r (said m c n),
    e.isGone d.span

/-- What is left of the identifiers of some nodes is among others. -/
def Left (e : Edit) (ns ns' : List Node) : Prop :=
  ∀ s ∈ spansAmong ns, e.isLeft s → s ∈ spansAmong ns'

/-- Some nodes have no identifiers that others do not have, but for made
ones. -/
def Within (ns ns' : List Node) : Prop :=
  ∀ s, s ≠ none → s ∈ spansAmong ns' → s ∈ spansAmong ns

section Scene

variable {e : Edit} {setting : Setting} {m : String} {c : Context} {k : Kind}
  {s : Option Span} {n n' : Node} {ns ns' ms : List Node}

theorem spansAmong_append (ns ms : List Node) :
    spansAmong (ns ++ ms) = spansAmong ns ++ spansAmong ms := by
  induction ns with
  | nil => rfl
  | cons n ns ih =>
    rw [spansAmong, List.cons_append, mentionsAmong, List.map_append] at *
    rw [spansAmong, mentionsAmong, List.map_append, List.append_assoc]
    exact congrArg _ ih

theorem spansAmong_children_sublist (k : Kind) (s : Option Span)
    (ns : List Node) :
    (spansAmong ns).Sublist (spansAmong [.node k s ns]) := by
  rw [spansAmong_single, spans, mentions, List.map_append]
  exact List.sublist_append_right _ _

namespace Scene

theorem sub (h : Scene e setting m ns)
    (spans : (spansAmong ms).Sublist (spansAmong ns))
    (nodes : ∀ n ∈ subnodesAmong ms, n ∈ subnodesAmong ns) :
    Scene e setting m ms where
  given none := h.given (spans.subset none)
  distinct := h.distinct.sublist spans
  parameters n hn := h.parameters n (nodes n hn)
  removed n hn := h.removed n (nodes n hn)

theorem left (h : Scene e setting m (ns ++ ms)) : Scene e setting m ns := by
  refine h.sub ?_ fun n hn => ?_
  · rw [spansAmong_append]
    exact List.sublist_append_left _ _
  · rw [subnodesAmong_append]
    exact List.mem_append_left _ hn

theorem right (h : Scene e setting m (ns ++ ms)) : Scene e setting m ms := by
  refine h.sub ?_ fun n hn => ?_
  · rw [spansAmong_append]
    exact List.sublist_append_right _ _
  · rw [subnodesAmong_append]
    exact List.mem_append_right _ hn

theorem head (h : Scene e setting m (n :: ns)) : Scene e setting m [n] := by
  rw [← List.singleton_append] at h
  exact h.left

theorem tail (h : Scene e setting m (n :: ns)) : Scene e setting m ns := by
  rw [← List.singleton_append] at h
  exact h.right

theorem children (h : Scene e setting m [.node k s ns]) :
    Scene e setting m ns := by
  refine h.sub (spansAmong_children_sublist k s ns) fun n' hn' => ?_
  rw [subnodesAmong, subnodes, subnodesAmong, List.append_nil]
  exact List.mem_cons_of_mem _ hn'

theorem of_mem (h : Scene e setting m ns) (hn : n ∈ ns) :
    Scene e setting m [n] := by
  obtain ⟨front, back, rfl⟩ := List.append_of_mem hn
  exact h.right.head

end Scene

/-- **What is left of nodes that stand side by side** is left of each of them
where it is. -/
theorem Left.split {ms ms' : List Node} (h : Left e (ns ++ ms) (ns' ++ ms'))
    (scene : Scene e setting m (ns ++ ms)) (within : Within ns ns')
    (within' : Within ms ms') :
    Left e ns ns' ∧ Left e ms ms' := by
  have distinct := scene.distinct
  rw [spansAmong_append, List.nodup_append] at distinct
  have given (s : Option Span) (hs : s ∈ spansAmong ns ∨ s ∈ spansAmong ms) :
      s ≠ none := by
    rintro rfl
    refine scene.given ?_
    rwa [spansAmong_append, List.mem_append]
  rw [Left, spansAmong_append, spansAmong_append] at h
  constructor
  · intro s hs isLeft
    refine (List.mem_append.1
      (h s (List.mem_append_left _ hs) isLeft)).resolve_right fun other => ?_
    exact distinct.2.2 s hs s (within' s (given s (.inl hs)) other) rfl
  · intro s hs isLeft
    refine (List.mem_append.1
      (h s (List.mem_append_right _ hs) isLeft)).resolve_left fun other => ?_
    exact distinct.2.2 s (within s (given s (.inr hs)) other) s hs rfl

/-- What is left of the children of a node is among the children of what it
becomes. -/
theorem Left.children (h : Left e [.node k s ns] [.node k s ns'])
    (scene : Scene e setting m [.node k s ns]) : Left e ns ns' := by
  intro t ht isLeft
  have there := h t ((spansAmong_children_sublist k s ns).subset ht) isLeft
  have distinct := scene.distinct
  rw [spansAmong_single, spans, mentions, List.map_append, List.nodup_append]
    at distinct
  rw [spansAmong_single, spans, mentions, List.map_append, List.mem_append]
    at there
  exact there.resolve_left fun own => distinct.2.2 t own t ht rfl

theorem Left.mono (h : Left e ns ns')
    (more : ∀ s ∈ spansAmong ns', s ≠ none → s ∈ spansAmong ms)
    (scene : Scene e setting m ns) : Left e ns ms := by
  intro s hs isLeft
  refine more s (h s hs isLeft) ?_
  rintro rfl
  exact scene.given hs

/-- **A declaration that is removed is carried over to nothing**: what it
declares goes away, and nothing is left of what it uses. -/
theorem carries_removed (scene : Scene e setting m [n]) (left : Left e [n] [])
    (declares : isDeclaration n.kind = true)
    (removed : n.span ∈ setting.removals) (hc : Inside c) :
    Carries e (said m c n) [] := by
  refine carries_nothing (scene.removed n ?_ declares removed c hc)
    fun frames u hu isLeft => ?_
  · rw [subnodesAmong, subnodesAmong, List.append_nil]
    exact mem_subnodes.2 .here
  · cases left u.span (span_mem_of_use hu) isLeft

/-- **Some of several nodes are dropped**: what is kept is carried over, if what
is dropped is carried over to nothing. -/
theorem carries_filter {P : Node → Node → Prop} (keep : Node → Bool)
    (pairs : List.Forall₂ P ns ns') (within : ∀ n n', P n n' → Within [n] [n'])
    (kept : ∀ n n', P n n' → Carries e (said m c n) (said m c n'))
    (dropped : ∀ n n', P n n' → keep n' = false → Scene e setting m [n] →
      Left e [n] [] → Carries e (said m c n) []) (scene : Scene e setting m ns)
    (left : Left e ns (ns'.filter keep)) :
    Carries e (saidAmong m c ns) (saidAmong m c (ns'.filter keep)) := by
  induction pairs with
  | nil => exact .refl _
  | @cons n n' ns ns' head tail ih =>
    have behind : Within ns (ns'.filter keep) := by
      clear ih left scene
      induction tail with
      | nil => exact fun _ _ => id
      | @cons q q' qs qs' first rest ih =>
        intro s given hs
        have parts : s ∈ spansAmong [q'] ∨ s ∈ spansAmong (qs'.filter keep) :=
          by
          rw [List.filter_cons] at hs
          split at hs
          · rw [← List.singleton_append, spansAmong_append] at hs
            exact List.mem_append.1 hs
          · exact .inr hs
        rw [← List.singleton_append, spansAmong_append, List.mem_append]
        exact parts.imp (within q q' first s given) (ih s given)
    rw [List.filter_cons] at left ⊢
    cases keeps : keep n' with
    | true =>
      rw [keeps, if_pos rfl] at left
      rw [if_pos rfl]
      rw [← List.singleton_append,
        ← List.singleton_append (l := ns'.filter keep)] at left
      obtain ⟨here, others⟩ := left.split scene (within n n' head) behind
      exact (composed_carries e).append (kept n n' head) (ih scene.tail others)
    | false =>
      rw [keeps, if_neg Bool.false_ne_true] at left
      rw [if_neg Bool.false_ne_true]
      rw [← List.singleton_append, ← List.nil_append (ns'.filter keep)] at left
      obtain ⟨here, others⟩ := left.split scene (fun _ _ => nofun) behind
      exact (composed_carries e).append
        (dropped n n' head keeps scene.head here) (ih scene.tail others)

end Scene

/-- What a node says is carried over, as a node, as a body and as a sequence,
and so is what a function or class expression says besides its name. -/
structure Faithful (e : Edit) (m : String) (n n' : Node) :
    Prop extends Pair (Carries e) Inside m n n' where
  own : n.kind = .fnExpr ∨ n.kind = .classExpr →
    Alike (child n.children 0) (child n'.children 0) ∧
    ∀ c, Inside c → Carries e (Scope.said m c (child n.children 1))
      (Scope.said m c (child n'.children 1))

/-- What becomes of a node carries it over; of the body of an arrow function
only what it says as a body. -/
structure Carried (e : Edit) (m : String) (j : Treatment) (n n' : Node) :
    Prop where
  faithful : j ≠ .arrowBody → Faithful e m n n'
  body : ∀ c, Inside c →
    Carries e (bodyOutline (toPart m n) c) (bodyOutline (toPart m n') c)

/-- All that is known of a node and what becomes of it. -/
structure Moved (e : Edit) (m : String) (j : Treatment) (n n' : Node) :
    Prop where
  carried : Carried e m j n n'
  kept : Kept j n n'
  plain : StaysPlain j n n'
  within : Within [n] [n']
  bare : j = .place → e.keepsWrites → bareIdentifier? n = none →
    bareIdentifier? n' = none

section Node

variable {e : Edit} {setting : Setting} {m : String} {c : Context} {k : Kind}
  {s : Option Span} {n n' : Node} {ns ns' ms : List Node} {js : List Treatment}
  {h : List String} {a : List RewrittenCall}

/-- Where names are not declared as imports, they are not further in either. -/
theorem passing_inside : Passing Inside :=
  passing_allowing fun _ => id

theorem Faithful.carried {j : Treatment} (h : Faithful e m n n') :
    Carried e m j n n' :=
  ⟨fun _ => h, h.body⟩

theorem Faithful.refl (n : Node) : Faithful e m n n :=
  ⟨⟨fun _ _ => .refl _, fun _ _ => .refl _, fun _ _ _ => .refl _⟩,
    fun _ => ⟨⟨rfl, fun _ => rfl, rfl, rfl⟩, fun _ _ => .refl _⟩⟩

/-- Most nodes are carried over if what they say is. -/
theorem faithful_of_said (notBlock : n.kind ≠ .block)
    (notBlock' : n'.kind ≠ .block) (notList : n.kind ≠ .list)
    (notOwn : n.kind ≠ .fnExpr ∧ n.kind ≠ .classExpr)
    (told : ∀ c, Inside c → Carries e (said m c n) (said m c n')) :
    Faithful e m n n' where
  said := told
  body c hc := by
    rw [bodyOutline_of_other notBlock, bodyOutline_of_other notBlock']
    exact told c hc
  among isList := absurd isList notList
  own isOwn := (isOwn.elim notOwn.1 notOwn.2).elim

/-- Parts that are tidied up are carried over as they were. -/
theorem pair_tidied {n'' : Node} (pair : Pair (Carries e) Inside m n n')
    (replaces : Replaces n n') (tidied : Tidied n' n'') :
    Pair (Carries e) Inside m n n'' where
  said c hc := by
    rw [tidied.said]
    exact pair.said c hc
  body c hc := by
    rw [tidied.body]
    exact pair.body c hc
  among isList c hc := by
    rw [tidied.among (replaces.same isList (by decide))]
    exact pair.among isList c hc

/-- A part in its place, once it is rewritten and tidied up. -/
structure InPlace (e : Edit) (m : String) (n n' : Node) : Prop where
  pair : Pair (Carries e) Inside m n n'
  kind : Supersedes n.kind n'.kind

theorem inPlace_tidied {ls : List Node} (moved : Each (Moved e m) js ns ns')
    (noArrowBody : ∀ j ∈ js, j ≠ .arrowBody)
    (tidied : List.Forall₂ Tidied ns' ls) :
    List.Forall₂ (InPlace e m) ns ls := by
  induction moved generalizing ls with
  | nil =>
    cases tidied
    exact .nil
  | @cons j js n n' ns ns' head tail ih =>
    cases tidied with
    | cons first rest =>
      have replaces := head.plain.replaces (noArrowBody j List.mem_cons_self)
      have pair :=
        (head.carried.faithful (noArrowBody j List.mem_cons_self)).toPair
      exact .cons
        ⟨pair_tidied pair replaces first, replaces.kind.trans first.kind⟩
        (ih (fun j hj => noArrowBody j (List.mem_cons_of_mem _ hj)) rest)

/-- Children at the same position are related, unless both are missing. -/
theorem Each.child {P : Treatment → Node → Node → Prop} (all : Each P js ns ns')
    (i : Nat) :
    Scope.child ns i = .none ∧ Scope.child ns' i = .none ∨
      ∃ j, js[i]? = some j ∧ ns[i]? = some (Scope.child ns i) ∧
      P j (Scope.child ns i) (Scope.child ns' i) := by
  induction all generalizing i with
  | nil => exact .inl ⟨rfl, rfl⟩
  | cons head tail ih =>
    cases i with
    | zero => exact .inr ⟨_, rfl, rfl, head⟩
    | succ i => exact ih i

/-- The first child of a node stays what it is, unless it is a body. -/
theorem stays_first (moved : Each (Moved e m) (treatments k ns) ns ns')
    (noBody : bodyIndex k ≠ some 0) :
    Stays (child ns 0) (child ns' 0) := by
  rcases moved.child 0 with ⟨missing, missing'⟩ | ⟨j, treated, -, moved⟩
  · rw [missing, missing']
    exact .refl _
  · refine moved.kept.stays ?_
    rw [← Bool.not_eq_true]
    exact fun isBody => noBody (bodyIndex_of_treatments treated isBody)

/-- What stays what it is, and is no call, is the same as far as the node around
it looks. -/
theorem Stays.alike (h : Stays n n') (notCall : n.kind ≠ .call) :
    Alike n n' := by
  have same : n'.kind = n.kind ∧ n'.span = n.span :=
    h.resolve_right fun isCall => notCall isCall.1
  obtain ⟨k, s, ns⟩ := n
  obtain ⟨k', s', ns'⟩ := n'
  obtain ⟨rfl, rfl⟩ := same
  refine ⟨rfl, fun _ => rfl, ?_, rfl⟩
  cases k' <;> rfl

theorem Stays.declares (h : Stays n n') :
    isVariables n'.kind = isVariables n.kind := by
  rcases h with ⟨same, -⟩ | ⟨isCall, isParen⟩
  · rw [same]
  · rw [isCall, isParen]
    rfl

/-- Where a name is declared by what declares it, it is declared alike. -/
theorem declare_of_alike (h : Alike n n') (kind : BindingKind) :
    declare n' kind = declare n kind := by
  unfold declare
  rw [h.name]
  split
  · rename_i x isName
    rw [h.span (by rw [isName]; nofun)]
  · rfl

/-- **An item that is dropped is carried over to nothing**: it is an import that
is removed, or it has no declarators left. -/
theorem dropped_item (moved : Moved e m .place n n')
    (goes : staysIn setting.removals n' = false) (scene : Scene e setting m [n])
    (left : Left e [n] []) (hc : Inside c) :
    Carries e (said m c n) [] := by
  unfold staysIn at goes
  split at goes
  · rename_i b isImport
    have stays := moved.kept.stays rfl
    have same : n'.kind = n.kind ∧ n'.span = n.span := by
      refine stays.resolve_right fun isCall => ?_
      rw [isCall.2] at isImport
      cases isImport
    refine carries_removed scene left ?_ ?_ hc
    · rw [← same.1, isImport]
      rfl
    · rw [← same.2]
      simpa using goes
  · obtain ⟨word, isDeclared, s, rfl⟩ := eq_of_isEmptied (by simpa using goes)
    have nothing : said m c (.node (.varDecl word isDeclared) s []) = [] := by
      cases word <;> rfl
    rw [← nothing]
    exact (moved.carried.faithful (by decide)).said c hc

/-- Items of which some are dropped are carried over. -/
theorem carries_items (moved : Each (Moved e m) (ns.map fun _ => .place) ns ns')
    (scene : Scene e setting m ns)
    (left : Left e ns (ns'.filter (staysIn setting.removals))) (hc : Inside c) :
    Carries e (saidAmong m c ns)
      (saidAmong m c (ns'.filter (staysIn setting.removals))) := by
  have pairs : List.Forall₂ (Moved e m .place) ns ns' :=
    moved.forall₂ fun j hj n n' h => by
    obtain ⟨-, -, rfl⟩ := List.mem_map.1 hj
    exact h
  exact carries_filter (P := Moved e m .place) _ pairs (fun _ _ h => h.within)
    (fun _ _ h => (h.carried.faithful (by decide)).said c hc)
    (fun _ _ h goes scene left => dropped_item h goes scene left hc) scene left

/-- Declarators of which some are removed are carried over. -/
theorem carries_declarators
    (moved : Each (Moved e m) (ns.map fun _ => .place) ns ns')
    (declarators : ∀ n ∈ ns, isDeclarator n.kind = true)
    (scene : Scene e setting m ns)
    (left : Left e ns (ns'.filter fun d => !setting.removals.contains d.span))
    (hc : Inside c) :
    Carries e (saidAmong m c ns) (saidAmong m c
      (ns'.filter fun d => !setting.removals.contains d.span)) := by
  have pairs : List.Forall₂ (fun n n' => isDeclarator n.kind = true ∧
      Moved e m .place n n') ns ns' :=
    List.forall₂_and_left _ _ |>.2
      ⟨declarators, moved.forall₂ fun j hj n n' h => by
      obtain ⟨-, -, rfl⟩ := List.mem_map.1 hj
      exact h⟩
  refine carries_filter _ pairs (fun _ _ h => h.2.within)
    (fun _ _ h => (h.2.carried.faithful (by decide)).said c hc)
    (fun n n' h goes scene left => ?_) scene left
  have same : n'.span = n.span := by
    rcases h.2.kept.stays rfl with same | isCall
    · exact same.2
    · have declares := h.1
      rw [isCall.1] at declares
      cases declares
  refine carries_removed scene left ?_ ?_ hc
  · rw [isDeclaration, h.1, Bool.or_true]
  · rw [← same]
    simpa using goes

/-- The child at a position is carried over as a body. -/
theorem carries_body (moved : Each (Moved e m) js ns ns') (i : Nat)
    (hc : Inside c) :
    Carries e (bodyOutline (toPart m (child ns i)) c)
      (bodyOutline (toPart m (child ns' i)) c) := by
  rcases moved.child i with ⟨missing, missing'⟩ | ⟨j, -, -, moved⟩
  · rw [missing, missing']
    exact .refl _
  · exact moved.carried.body c hc

/-- **An arrow function is carried over** if its parameters and its body are. -/
theorem faithful_arrow {b : Bool}
    (parameters : ∀ c, Inside c → Carries e (saidAmong m c
      (child ns 0).children) (saidAmong m c (child ns' 0).children))
    (body : ∀ c, Inside c → Carries e (bodyOutline (toPart m (child ns 1)) c)
      (bodyOutline (toPart m (child ns' 1)) c)) :
    Faithful e m (.node (.arrow b) s ns) (.node (.arrow b) s ns') := by
  refine faithful_of_said Kind.noConfusion Kind.noConfusion Kind.noConfusion
    ⟨Kind.noConfusion, Kind.noConfusion⟩ fun c hc => ?_
  have inner := passing_inside.inScope hc
  have parameter : Inside (c.inScope.declaring .param) :=
    passing_inside.declaring (by decide) inner
  rw [said_node, said_node]
  simp only [outlineOf, part_toParts, functionOutline, parts_toPart,
    outlines_toParts]
  have composed := composed_carries e
  exact composed.scope _ (composed.append composed.nil
    (composed.append (parameters _ parameter) (body _ inner)))

/-- The parameters of an arrow function are a sequence, and are carried over as
one. -/
theorem carries_parameters {b : Bool}
    (isRegular : regular (.node (.arrow b) s ns) = true)
    (moved : Each (Moved e m) (treatments (.arrow b) ns) ns ns')
    (hc : Inside c) :
    Carries e (saidAmong m c (child ns 0).children)
      (saidAmong m c (child ns' 0).children) := by
  rcases moved.child 0 with ⟨missing, missing'⟩ | ⟨j, treated, there, moved⟩
  · rw [missing, missing']
    exact .refl _
  · have notBody : j ≠ .arrowBody := by
      rintro rfl
      cases bodyIndex_of_treatments treated rfl
    have isList : (child ns 0).kind = .list :=
      eq_of_beq (all_take.1 (regular_node.1 isRegular).1 0 _ Nat.one_pos there)
    exact (moved.carried.faithful notBody).among isList c hc

/-- A node of which children are dropped is carried over. -/
theorem faithful_dropping (dropping : drops k = true)
    (plain : isPlain (.node k s ns) = true)
    (moved : Each (Moved e m) (treatments k ns) ns ns')
    (scene : Scene e setting m [.node k s ns])
    (left : Left e ns (finish setting.removals k ns')) :
    Faithful e m (.node k s ns)
      (.node k s (finish setting.removals k ns')) := by
  have composed := composed_carries e
  cases k
  case varDecl word isDeclared =>
    have declarators : ∀ n ∈ ns, isDeclarator n.kind = true := by
      obtain ⟨here, -⟩ := isPlain_node.1 plain
      rw [plainAt, Bool.and_eq_true, Bool.and_eq_true] at here
      exact List.all_eq_true.1 here.1.1
    refine faithful_of_said Kind.noConfusion Kind.noConfusion Kind.noConfusion
      ⟨Kind.noConfusion, Kind.noConfusion⟩ fun c hc => ?_
    have told (word : VarWord) (ms : List Node) :
        said m c (.node (.varDecl word isDeclared) s ms) = saidAmong m
        { c with varKind := if word = .var then .var else .lexical } ms := by
      rw [said_node]
      cases word <;> exact outlines_toParts ..
    rw [told, told]
    exact carries_declarators moved declarators scene.children left
      (passing_inside.declarators (by split <;> decide) hc)
  case block =>
    have items (c : Context) (hc : Inside c) :=
      carries_items moved scene.children left hc
    refine ⟨⟨fun c hc => ?_, fun c hc => ?_, Kind.noConfusion⟩,
      by rintro (same | same) <;> cases same⟩
    · have told (ms : List Node) : said m c (.node .block s ms) =
          [.scope .block (saidAmong m c.inScope ms)] := by
        rw [said_node]
        exact congrArg (fun os => [Outline.scope .block os])
          (outlines_toParts ..)
      rw [told, told]
      exact composed.scope _ (items _ (passing_inside.inScope hc))
    · rw [bodyOutline_block, bodyOutline_block]
      exact items c hc
  case moduleBlock =>
    refine faithful_of_said Kind.noConfusion Kind.noConfusion Kind.noConfusion
      ⟨Kind.noConfusion, Kind.noConfusion⟩ fun c hc => ?_
    have told (ms : List Node) : said m c (.node .moduleBlock s ms) =
        saidAmong m c ms := by
      rw [said_node]
      exact outlines_toParts ..
    rw [told, told]
    exact carries_items moved scene.children left hc
  all_goals cases dropping

/-- The children at a position stand in their places. -/
theorem inPlace_child (all : List.Forall₂ (InPlace e m) ns ms) (i : Nat) :
    InPlace e m (child ns i) (child ms i) := by
  induction all generalizing i with
  | nil => exact ⟨(Faithful.refl _).toPair, .refl _⟩
  | cons head tail ih =>
    cases i with
    | zero => exact head
    | succ i => exact ih i

/-- A node whose first two children are inert says what it said. -/
theorem said_inert (plain : isPlain (.node k s ns) = true)
    (outer : (∃ b, k = .importDecl b) ∨ ∃ b b', k = .exportNamed b b')
    (replaced : List.Forall₂ Replaces ns ns') (c : Context) :
    said m c (.node k s ns') = said m c (.node k s ns) := by
  obtain ⟨here, -⟩ := isPlain_node.1 plain
  rw [plainAt, Bool.and_eq_true, Bool.and_eq_true] at here
  have inert : (ns.take 2).all isInert = true := by
    rcases outer with ⟨b, rfl⟩ | ⟨b, b', rfl⟩ <;> exact here.1.1
  have same {i : Nat} (bound : i < 2) : child ns' i = child ns i := by
    refine (replaces_child replaced i).inert ?_
    rw [← child_take bound]
    rcases child_mem_or (ns.take 2) i with mem | missing
    · exact List.all_eq_true.1 inert _ mem
    · rw [missing]
      rfl
  rw [said_node, said_node]
  rcases outer with ⟨b, rfl⟩ | ⟨b, b', rfl⟩ <;>
    simp only [outlineOf, part_toParts, node_toPart, same (i := 0) (by decide),
    same (i := 1) (by decide)]

/-- **A node that looks at more than the shape of its children is carried
over.** -/
theorem faithful_special (special : isSpecial k = true)
    (plain : isPlain (.node k s ns) = true)
    (moved : Each (Moved e m) (treatments k ns) ns ns')
    (after : isPlain (.node k s (finish setting.removals k ns')) = true) :
    Faithful e m (.node k s ns)
      (.node k s (finish setting.removals k ns')) := by
  have composed := composed_carries e
  have passing := passing_inside
  have notArrow : ∀ j ∈ treatments k ns, j ≠ .arrowBody :=
    noArrowBody fun b same => by
    rw [same] at special
    cases special
  have below' := plain_of_each (moved.imp fun _ _ _ h => h.plain)
  have noDrop : drops k = false := by cases k <;> first | rfl | cases special
  have inPlace :=
    inPlace_tidied moved notArrow (tidied_finish setting.removals below' noDrop)
  have part i c (hc : Inside c) := (inPlace_child inPlace i).pair.said c hc
  have all c (hc : Inside c) :=
    related_among composed (inPlace.imp fun _ _ h => h.pair) c hc
  have other {k' : Kind} (notSpecial : isSpecial k' = false) : k ≠ k' := by
    rintro rfl
    exact Bool.noConfusion (special.symm.trans notSpecial)
  refine faithful_of_said (other rfl) (other rfl) (other rfl)
    ⟨other rfl, other rfl⟩ fun c hc => ?_
  obtain ⟨here, -⟩ := isPlain_node.1 plain
  rw [plainAt, Bool.and_eq_true, Bool.and_eq_true] at here
  have sorted := here.1.1
  have replaced : List.Forall₂ Replaces ns ns' :=
    moved.forall₂ fun j hj _ _ h => h.plain.replaces (notArrow j hj)
  have bare (placed : treatments k ns = ns.map fun _ => .place) :
      e.keepsWrites → bareIdentifier? (child ns 0) = none →
        bareIdentifier? (child ns' 0) = none := by
    rcases moved.child 0 with ⟨-, missing⟩ | ⟨j, treated, -, moved⟩
    · rw [missing]
      exact fun _ _ => rfl
    · rw [placed] at treated
      exact moved.bare (eq_of_map treated)
  cases k
  case importDecl b =>
    have same : finish setting.removals (.importDecl b) ns' = ns' := rfl
    rw [same, said_inert plain (.inl ⟨b, rfl⟩) replaced]
    exact .refl _
  case exportNamed b b' =>
    have same : finish setting.removals (.exportNamed b b') ns' = ns' := rfl
    rw [same, said_inert plain (.inr ⟨b, b', rfl⟩) replaced]
    exact .refl _
  case exportDefaultDecl =>
    have same : finish setting.removals .exportDefaultDecl ns' = ns' := rfl
    have first : Faithful e m (child ns 0) (child ns' 0) := by
      rcases moved.child 0 with ⟨missing, missing'⟩ | ⟨j, treated, -, moved⟩
      · rw [missing, missing']
        exact .refl _
      · exact moved.carried.faithful (notArrow j (List.mem_of_getElem? treated))
    rw [sortedAt, Bool.or_eq_true, beq_iff_eq, beq_iff_eq] at sorted
    have kind : (child ns' 0).kind = (child ns 0).kind := by
      refine (replaces_child replaced 0).kind.same ?_ ?_ ?_ <;> rcases sorted
        with same | same <;> rw [same] <;> decide
    obtain ⟨alike, function⟩ := first.own sorted
    rw [same, said_node, said_node]
    simp only [outlineOf, part_toParts, node_toPart, parts_toPart,
      outlines_toParts, outline_toPart, kind]
    rcases sorted with same | same <;>
      simp only [same] <;> rw [declare_of_alike alike] <;>
      exact composed.append (.refl _) (function c hc)
  case declarator b =>
    refine synonymous_declarator.carries.trans
      (Carries.trans ?_ synonymous_declarator.symm.carries)
    exact composed.append (part 0 _ (passing.own hc)) (part 1 c hc)
  case call =>
    exact (synonymous_call plain).carries.trans
      ((all c hc).trans (synonymous_call after).symm.carries)
  case update op before =>
    have same : finish setting.removals (.update op before) ns' = ns' := rfl
    rw [same] at after part ⊢
    rw [said_update plain, said_update after]
    exact carries_target (part 0 c hc) (bare rfl)
  case assign op =>
    have follows : Supersedes (child ns 0).kind
        (child (finish setting.removals (.assign op) ns') 0).kind :=
      (inPlace_child inPlace 0).kind
    have same : targetContext (child (finish setting.removals (.assign op) ns')
        0) c = targetContext (child ns 0) c := by
      rw [sortedAt, Bool.and_eq_true, Bool.or_eq_true] at sorted
      unfold targetContext
      rcases sorted.1 with isExpr | takesApart
      · have isExpr' := follows.expression isExpr
        have none {k : Kind} (isExpr : isExpression k = true) :
            isDestructuring k = false := by
          cases k <;> first | rfl | cases isExpr
        rw [none isExpr, none isExpr']
      · have isPat : isPattern (child ns 0).kind = true := by
          cases kind : (child ns 0).kind <;>
            first | rfl | (rw [kind] at takesApart; cases takesApart)
        rw [Replaces.pattern follows isPat]
    have first : child (finish setting.removals (.assign op) ns') 0 =
        child ns' 0 := by
      cases ns' <;> rfl
    rw [said_assign, said_assign, same]
    refine composed.append (carries_target (part 0 _ ?_) (first ▸ bare rfl))
      (part 1 c hc)
    unfold targetContext
    split
    · exact passing.writing hc
    · exact hc
  case importEquals => cases sorted
  case ident | bindingIdent | shorthand => exact .refl _
  case markup form =>
    cases form
    case name => exact .refl _
    all_goals cases special
  case type form => cases sorted
  all_goals cases special

/-- **A node that keeps its kind is carried over**, if what becomes of its
children carries them over. -/
theorem faithful_node (isRegular : regular (.node k s ns) = true)
    (plain : isPlain (.node k s ns) = true)
    (moved : Each (Moved e m) (treatments k ns) ns ns')
    (after : isPlain (.node k s (finish setting.removals k ns')) = true)
    (scene : Scene e setting m [.node k s ns])
    (left : Left e ns (finish setting.removals k ns')) :
    Faithful e m (.node k s ns)
      (.node k s (finish setting.removals k ns')) := by
  by_cases isArrow : ∃ b, k = .arrow b
  · obtain ⟨b, rfl⟩ := isArrow
    exact faithful_arrow (fun c hc => carries_parameters isRegular moved hc)
      fun c hc => carries_body moved 1 hc
  cases dropping : drops k with
  | true => exact faithful_dropping dropping plain moved scene left
  | false =>
    cases special : isSpecial k with
    | true => exact faithful_special special plain moved after
    | false =>
      have composed := composed_carries e
      have notArrow : ∀ j ∈ treatments k ns, j ≠ .arrowBody :=
        noArrowBody fun b same => isArrow ⟨b, same⟩
      have below' := plain_of_each (moved.imp fun _ _ _ h => h.plain)
      have pairs : List.Forall₂ (Pair (Carries e) Inside m) ns
          (finish setting.removals k ns') :=
        (inPlace_tidied moved notArrow (tidied_finish setting.removals below'
          dropping)).imp fun _ _ h => h.pair
      have first : SameFirst k (child ns 0)
          (child (finish setting.removals k ns') 0) := by
        refine ⟨fun named => ?_, fun isPass => ?_⟩
        · rw [first_finish setting.removals (by rw [named]; rfl)]
          refine (stays_first moved ?_).alike ?_
          · intro isBody
            cases k <;> first | (cases isBody; done) | cases named
          · obtain ⟨here, -⟩ := isPlain_node.1 plain
            rw [plainAt, Bool.and_eq_true, named] at here
            simpa using here.2
        · rw [first_finish setting.removals (by rw [isPass, Bool.or_true])]
          refine (stays_first moved ?_).declares
          intro isBody
          cases k <;> first | (cases isBody; done) | cases isPass
      have told c (hc : Inside c) := said_related composed
        passing_inside special (regular_node.1 isRegular).1 pairs
        first (fun _ n _ kind _ => Carries.refl (declare n kind)) c hc (s := s)
      refine ⟨⟨told, fun c hc => ?_,
        fun _ c hc => related_among composed pairs c hc⟩, fun isOwn => ?_⟩
      · have notBlock : k ≠ .block := by
          rintro rfl
          cases dropping
        rw [bodyOutline_of_other (n := .node k s ns) notBlock,
          bodyOutline_of_other (n := .node k s _) notBlock]
        exact told c hc
      · refine ⟨first.alike ?_,
          fun c hc => (pair_child composed pairs 1).said c hc⟩
        rcases isOwn with rfl | rfl <;> rfl

end Node

end NullGuard.Transform
