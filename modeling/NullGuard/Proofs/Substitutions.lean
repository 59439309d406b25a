import NullGuard.Proofs.TypeQueries

/-!
# Putting other nodes in place of parts of a program

A substitution puts other nodes in place of some parts of functions, annotations
and asserted types (`isHolder`), in all of a program at once
(`Substitution.apply`). Every node keeps its kind and its span, so that what the
analysis recognises by the shape of a node (a name that is called or assigned
to, a variable that requires a module) is recognised as before.

If what is put in place of a part says something related to what the part says,
or stands where the analysis does not look, then what the whole program says is
related as well (`related_apply`), for every relation that is kept by putting
outlines together. For most kinds of nodes the step is `said_related`; the
others have a case in `related_special`.
-/

namespace NullGuard.Scope

open NullGuard.Text (Span)
open NullGuard.Tree
open NullGuard.Transform (bodyOutline_of_other bodyOutline_block)

/-- Whether parts of nodes of a kind may have other nodes put in their place. -/
def isHolder : Kind → Bool
  | .function _ _ | .arrow _ | .constructor _ | .getterProp | .setterProp
      | .bindingIdent _ _ | .type .ascription
  | .typeAssertion | .asType | .satisfies => true
  | _ => false

/-- Whether the names in nodes of a kind are read without looking at the parts
one by one. -/
def isTakenWhole : Kind → Bool
  | .importDecl _ | .exportNamed _ _ | .importEquals _ _ | .type .query => true
  | _ => false

/-- What is put in place of the part of a node, by the kind and the span of the
node and the position of the part. A part that nothing is put in place of stays,
and is looked into. -/
structure Substitution where
  instead? : Kind → Option Span → Nat → Node → Option Node
  held {k : Kind} {s : Option Span} {i : Nat} {n n' : Node} :
      instead? k s i n = some n' → isHolder k = true

namespace Substitution

mutual

/-- A node with everything put in place. -/
def apply (σ : Substitution) : Node → Node
  | .node k s ns =>
    .node k s (if isTakenWhole k then ns else σ.applyFrom k s 0 ns)

/-- The parts of a node from a position on with everything put in place. -/
def applyFrom (σ : Substitution) (k : Kind) (s : Option Span) (i : Nat) :
    List Node → List Node
  | [] => []
  | n :: ns =>
    (σ.instead? k s i n).getD (σ.apply n) :: σ.applyFrom k s (i + 1) ns

end

/-- The parts that something is put in place of. -/
def replaced (σ : Substitution) (n : Node) : List Node :=
  (subnodes n).flatMap fun p => (p.children.zipIdx.filter fun q =>
    (σ.instead? p.kind p.span q.2 q.1).isSome).map Prod.fst

/-- What is put in place of a part of a program says what is related to what the
part says, or is not looked at. -/
def Fits (σ : Substitution) (R : List Outline → List Outline → Prop)
    (C : Context → Prop) (m : String) (n : Node) : Prop :=
  ∀ k s ns, .node k s ns ∈ subnodes n → ∀ i part part', ns[i]? = some part →
    σ.instead? k s i part = some part' → isUnseenType k ns i = true ∨
    Pair R C m part part'

end Substitution

section Replaced

variable {σ : Substitution} {k : Kind} {s : Option Span} {i : Nat} {n n' : Node}
  {ns : List Node}

/-- A part that something is put in place of is among those parts. -/
theorem mem_replaced {tree : Node} (there : .node k s ns ∈ subnodes tree)
    (part : ns[i]? = some n) (found : σ.instead? k s i n = some n') :
    n ∈ σ.replaced tree := by
  refine List.mem_flatMap.2
    ⟨_, there, List.mem_map.2 ⟨(n, i), List.mem_filter.2 ⟨?_, ?_⟩, rfl⟩⟩
  · exact List.mem_zipIdx_iff_getElem?.2 part
  · rw [Node.kind_node, Node.span_node, found]
    rfl

/-- If what is put in place has no more identifiers than what was there, the
whole has no more either. -/
theorem mentions_apply_sublist
    (fewer : ∀ k s i n n', σ.instead? k s i n = some n' →
      (mentions n').Sublist (mentions n)) (n : Node) :
    (mentions (σ.apply n)).Sublist (mentions n) := by
  induction n using Node.induct with
  | step k s ns ih =>
    rw [Substitution.apply, mentions, mentions]
    refine (List.Sublist.refl _).append ?_
    split
    · exact .refl _
    · generalize 0 = i
      induction ns generalizing i with
      | nil =>
        rw [Substitution.applyFrom]
      | cons n ns rest =>
        rw [Substitution.applyFrom, mentionsAmong, mentionsAmong]
        refine List.Sublist.append ?_
          (rest (fun n hn => ih n (List.mem_cons_of_mem _ hn)) (i + 1))
        cases found : σ.instead? k s i n with
        | none => exact ih n List.mem_cons_self
        | some n' => exact fewer k s i n n' found

end Replaced

section Apply

variable {σ : Substitution} {R : List Outline → List Outline → Prop}
  {C : Context → Prop} {m : String} {k : Kind} {s : Option Span} {i : Nat}
  {n : Node} {ns : List Node}

@[simp] theorem kind_apply (σ : Substitution) (n : Node) :
    (σ.apply n).kind = n.kind := by
  cases n
  rw [Substitution.apply]
  rfl

@[simp] theorem span_apply (σ : Substitution) (n : Node) :
    (σ.apply n).span = n.span := by
  cases n
  rw [Substitution.apply]
  rfl

@[simp] theorem length_applyFrom :
    (σ.applyFrom k s i ns).length = ns.length := by
  induction ns generalizing i with
  | nil => rw [Substitution.applyFrom]
  | cons n ns ih =>
    rw [Substitution.applyFrom, List.length_cons, List.length_cons, ih]

theorem getElem?_applyFrom (j : Nat) :
    (σ.applyFrom k s i ns)[j]? = ns[j]?.map fun n =>
      (σ.instead? k s (i + j) n).getD (σ.apply n) := by
  induction ns generalizing i j with
  | nil => rw [Substitution.applyFrom, List.getElem?_nil, Option.map_none]
  | cons n ns ih =>
    rw [Substitution.applyFrom]
    cases j with
    | zero => rfl
    | succ j =>
      rw [List.getElem?_cons_succ, List.getElem?_cons_succ, ih]
      congr 2
      funext n
      rw [Nat.add_right_comm, Nat.add_assoc]

/-- Where nothing can be put in place, the parts are looked into. -/
theorem applyFrom_eq_map (stays : isHolder k = false) :
    σ.applyFrom k s i ns = ns.map σ.apply := by
  induction ns generalizing i with
  | nil => rw [Substitution.applyFrom, List.map_nil]
  | cons n ns ih =>
    rw [Substitution.applyFrom, ih, List.map_cons]
    cases found : σ.instead? k s i n with
    | none => rfl
    | some n' =>
      exact absurd (σ.held found) (by rw [stays]; exact Bool.false_ne_true)

theorem apply_node (whole : isTakenWhole k = false)
    (stays : isHolder k = false) :
    σ.apply (.node k s ns) = .node k s (ns.map σ.apply) := by
  rw [Substitution.apply, whole, applyFrom_eq_map stays]
  rfl

theorem apply_none (σ : Substitution) : σ.apply .none = .none := by
  rw [Node.none, apply_node rfl rfl, List.map_nil]

theorem child_map_apply (σ : Substitution) (ns : List Node) (i : Nat) :
    child (ns.map σ.apply) i = σ.apply (child ns i) := by
  rw [child, child, List.getD_eq_getElem?_getD, List.getD_eq_getElem?_getD,
    List.getElem?_map]
  cases ns[i]? with
  | none => exact (apply_none σ).symm
  | some n => rfl

theorem alike_apply (σ : Substitution) (n : Node) : Alike n (σ.apply n) where
  name := by rw [kind_apply]
  span _ := span_apply σ n
  missing := by
    obtain ⟨k, s, ns⟩ := n
    rw [Substitution.apply]
    cases k <;> rfl
  element := by rw [kind_apply]

/-- A name is used as it was. -/
theorem refer_apply (σ : Substitution) (n : Node) (kind : ReferenceKind) :
    refer (σ.apply n) kind = refer n kind := by
  unfold refer
  rw [kind_apply, span_apply]

theorem stripParens_apply (σ : Substitution) (n : Node) :
    (σ.apply n).stripParens = σ.apply n.stripParens := by
  fun_induction Node.stripParens n with
  | case1 s inner ih =>
    rw [apply_node rfl rfl]
    exact ih
  | case2 n other =>
    obtain ⟨k, s, ns⟩ := n
    by_cases isParen : k = .paren
    · subst isParen
      rw [apply_node rfl rfl]
      rcases ns with _ | ⟨n, _ | ⟨n', ns⟩⟩
      · rfl
      · exact absurd rfl (other s n)
      · rfl
    · rw [Substitution.apply]
      unfold Node.stripParens
      split
      · rename_i same
        exact absurd (Node.node.inj same).1 isParen
      · rfl

/-- What is a name but for parentheses stays one. -/
theorem bareIdentifier?_apply (σ : Substitution) (n : Node) :
    bareIdentifier? (σ.apply n) = (bareIdentifier? n).map σ.apply := by
  unfold bareIdentifier?
  rw [stripParens_apply, kind_apply]
  split <;> rfl

/-- What requires a module stays so, and nothing else becomes so. -/
theorem isHelperRequire_apply (σ : Substitution) (m : String) (n : Node) :
    isHelperRequire m (σ.apply n) = isHelperRequire m n := by
  obtain ⟨k, s, ns⟩ := n
  by_cases isCall : k = .call
  · subst isCall
    rw [apply_node rfl rfl]
    rcases ns with _ | ⟨callee, _ | ⟨⟨k, t, ms⟩, rest⟩⟩
    · rfl
    · rfl
    · by_cases isList : k = .list
      · subst isList
        rw [List.map_cons, List.map_cons, apply_node rfl rfl]
        cases ms with
        | nil => rfl
        | cons argument others =>
          simp only [isHelperRequire, List.map_cons, kind_apply]
      · rw [List.map_cons, List.map_cons, Substitution.apply]
        unfold isHelperRequire
        split
        · rename_i same
          simp only [Node.node.injEq, List.cons.injEq] at same
          exact absurd same.2.2.2.1.1 isList
        · split
          · rename_i same
            simp only [Node.node.injEq, List.cons.injEq] at same
            exact absurd same.2.2.2.1.1 isList
          · rfl
  · rw [Substitution.apply]
    unfold isHelperRequire
    split
    · rename_i same
      exact absurd (Node.node.inj same).1 isCall
    · split
      · rename_i same
        exact absurd (Node.node.inj same).1 isCall
      · rfl

end Apply

section Related

variable {σ : Substitution} {R : List Outline → List Outline → Prop}
  {C : Context → Prop} {m : String} {k : Kind} {s : Option Span} {n : Node}
  {ns : List Node}

theorem children_apply (whole : isTakenWhole n.kind = false)
    (stays : isHolder n.kind = false) :
    (σ.apply n).children = n.children.map σ.apply := by
  obtain ⟨k, s, ns⟩ := n
  rw [Node.kind_node] at whole stays
  rw [apply_node whole stays]
  rfl

/-- **A node that looks at more than the shape of its parts** says what is
related, if its parts do. -/
theorem related_special (composed : Composed R) (refl : ∀ os, R os os)
    (passing : Passing C) (special : isSpecial k = true)
    (looked : isTakenWhole k = false)
    (parts : ∀ i, Pair R C m (child ns i) (σ.apply (child ns i)))
    (own : (child ns 0).kind = .fnExpr ∨ (child ns 0).kind = .classExpr →
      Pair R C m (child (child ns 0).children 1)
      (σ.apply (child (child ns 0).children 1)))
    (all : ∀ c, C c → R (saidAmong m c ns) (saidAmong m c (ns.map σ.apply)))
    (c : Context) (hc : C c) :
    R (said m c (.node k s ns)) (said m c (.node k s (ns.map σ.apply))) := by
  have part i c (hc : C c) := (parts i).said c hc
  rw [said_node, said_node]
  cases k
  case declarator b =>
    simp only [outlineOf, part_toParts, declaratorOutline, node_toPart,
      outline_toPart, child_map_apply, isHelperRequire_apply,
      kind_apply, span_apply]
    have plain := composed.append (part 0 _ (passing.own hc)) (part 1 c hc)
    split
    · split
      · exact composed.append (refl [_]) (part 1 c hc)
      · exact composed.append (refl [_]) plain
    · exact plain
  case exportDefaultDecl =>
    simp only [outlineOf, part_toParts, node_toPart, parts_toPart,
      outlines_toParts, outline_toPart, child_map_apply, kind_apply]
    have behind (isOwn : (child ns 0).kind = .fnExpr ∨
        (child ns 0).kind = .classExpr) (kind : BindingKind) :
        R (declare (child (child ns 0).children 0) kind ++
        said m c (child (child ns 0).children 1))
        (declare (child (σ.apply (child ns 0)).children 0) kind ++
        said m c (child (σ.apply (child ns 0)).children 1)) := by
      have same : (σ.apply (child ns 0)).children =
          (child ns 0).children.map σ.apply := by
        apply children_apply <;> rcases isOwn with isOwn | isOwn <;>
          rw [isOwn] <;> rfl
      rw [same, child_map_apply, child_map_apply, (alike_apply σ _).declare]
      exact composed.append (refl _) ((own isOwn).said c hc)
    split
    · exact behind (.inl ‹_›) _
    · exact behind (.inr ‹_›) _
    · exact all c hc
  case call =>
    simp only [outlineOf, part_toParts, outlines_toParts, node_toPart,
      outline_toPart, child_map_apply, bareIdentifier?_apply]
    cases bareIdentifier? (child ns 0) with
    | none => exact all c hc
    | some name =>
      simp only [Option.map_some, refer_apply]
      exact composed.append (refl _) (part 1 c hc)
  case assign op =>
    simp only [outlineOf, part_toParts, assignOutline_eq, node_toPart,
      outline_toPart, child_map_apply, bareIdentifier?_apply]
    refine composed.append ?_ (part 1 c hc)
    cases bareIdentifier? (child ns 0) with
    | none =>
      simp only [Option.map_none, targetContext, kind_apply]
      split
      · exact part 0 _ (passing.writing hc)
      · exact part 0 c hc
    | some name =>
      simp only [Option.map_some, refer_apply]
      exact refl _
  case update =>
    simp only [outlineOf, part_toParts, outlines_toParts, node_toPart,
      child_map_apply, bareIdentifier?_apply]
    cases bareIdentifier? (child ns 0) with
    | none => exact all c hc
    | some name =>
      simp only [Option.map_some, refer_apply]
      exact refl _
  case importDecl | exportNamed | importEquals => cases looked
  case ident | bindingIdent | shorthand => exact refl _
  case markup form =>
    cases form
    case name => exact refl _
    all_goals cases special
  case type form =>
    cases form
    case query => cases looked
    all_goals cases special
  all_goals cases special

/-- Whether a part is a type that is not looked at does not depend on the parts,
where something can be put in place. -/
theorem isUnseenType_holder (holds : isHolder k = true) (ns ms : List Node)
    (i : Nat) :
    isUnseenType k ns i = isUnseenType k ms i := by
  cases k
  case type form => cases form <;> rfl
  case call => cases holds
  all_goals rfl

/-- Where something can be put in place, the node declares no name of a part,
and is neither a tag nor a loop. -/
theorem plain_holder (holds : isHolder k = true) :
    namesChild k = false ∧ isTag k = false ∧ isPass k = false := by
  cases k <;> first | exact ⟨rfl, rfl, rfl⟩ | cases holds

/-- **A node that parts are put in place of** says what is related. -/
theorem related_holder (composed : Composed R) (refl : ∀ os, R os os)
    (passing : Passing C) (holds : isHolder k = true)
    (isRegular : regularParts k ns = true)
    (below : ∀ n ∈ ns, Pair R C m n (σ.apply n))
    (fits : ∀ i part part', ns[i]? = some part → σ.instead? k s i part =
      some part' → isUnseenType k ns i = true ∨ Pair R C m part part')
    (c : Context) (hc : C c) :
    R (said m c (.node k s ns))
      (said m c (.node k s (σ.applyFrom k s 0 ns))) := by
  cases special : isSpecial k with
  | true =>
    obtain ⟨x, o, rfl⟩ : ∃ x o, k = .bindingIdent x o := by
      cases k
      case bindingIdent x o => exact ⟨x, o, rfl⟩
      case type form =>
        cases form <;> first | (cases special; done) | cases holds
      all_goals first | (cases special; done) | cases holds
    exact refl _
  | false =>
    -- The parts that are not looked at stay, so that all parts are related.
    let ms := ns.mapIdx fun i n => if isUnseenType k ns i then n
      else child (σ.applyFrom k s 0 ns) i
    have there (i : Nat) : (σ.applyFrom k s 0 ns)[i]? =
        ns[i]?.map fun n => (σ.instead? k s i n).getD (σ.apply n) := by
      rw [getElem?_applyFrom, Nat.zero_add]
    have pairs : List.Forall₂ (Pair R C m) ns ms := by
      refine List.forall₂_iff_get.2 ⟨List.length_mapIdx.symm,
        fun i bound bound' => ?_⟩
      simp only [List.get_eq_getElem, ms, List.getElem_mapIdx]
      split
      · exact ⟨fun _ _ => refl _, fun _ _ => refl _, fun _ _ _ => refl _⟩
      · rename_i seen
        have here : ns[i]? = some ns[i] := List.getElem?_eq_getElem bound
        have placed : child (σ.applyFrom k s 0 ns) i =
            (σ.instead? k s i ns[i]).getD (σ.apply ns[i]) := by
          rw [child, List.getD_eq_getElem?_getD, there, here]
          rfl
        rw [placed]
        cases found : σ.instead? k s i ns[i] with
        | none => exact below _ (List.getElem_mem bound)
        | some part' => exact (fits i _ _ here found).resolve_left seen
    have first : SameFirst k (child ns 0) (child ms 0) := by
      obtain ⟨notNamed, notTag, notPass⟩ := plain_holder holds
      refine ⟨fun named => ?_, fun isPass => ?_⟩
      · rw [notNamed, notTag] at named
        cases named
      · rw [notPass] at isPass
        cases isPass
    have same : said m c (.node k s ms) =
        said m c (.node k s (σ.applyFrom k s 0 ns)) := by
      refine said_of_seen ?_ (fun i seen => ?_) m c s
      · rw [length_applyFrom, List.length_mapIdx]
      · rw [isUnseenType_holder holds _ ns] at seen
        cases here : ns[i]? with
        | none =>
          rw [child, child, List.getD_eq_getElem?_getD,
            List.getD_eq_getElem?_getD, there, List.getElem?_mapIdx, here]
          rfl
        | some n =>
          refine child_of_getElem? ?_
          rw [List.getElem?_mapIdx, here, Option.map_some,
            if_neg (by rw [seen]; exact Bool.false_ne_true)]
    rw [← same]
    exact said_related composed passing special isRegular pairs
      first (fun _ _ _ _ _ => refl _) c hc

/-- Where everything fits, it fits in a part as well. -/
theorem Substitution.Fits.child (h : σ.Fits R C m (.node k s ns))
    (hn : n ∈ ns) : σ.Fits R C m n :=
  fun k' s' ns' there => h k' s' ns'
    (mem_subnodes.2 (.inside hn (mem_subnodes.1 there)))

/-- **What a program says is related to what it says with everything put in
place**, and so is what its parts say. -/
theorem related_apply (composed : Composed R) (refl : ∀ os, R os os)
    (passing : Passing C) (isRegular : regular n = true)
    (fits : σ.Fits R C m n) :
    Pair R C m n (σ.apply n) ∧
      (isTakenWhole n.kind = false → isHolder n.kind = false →
        ∀ n' ∈ n.children, Pair R C m n' (σ.apply n')) := by
  induction n using Node.induct with
  | step k s ns ih =>
    obtain ⟨parts, below, -⟩ := regular_node.1 isRegular
    have each n (hn : n ∈ ns) := ih n hn (below n hn) (fits.child hn)
    have pairs n (hn : n ∈ ns) : Pair R C m n (σ.apply n) := (each n hn).1
    have mapped : List.Forall₂ (Pair R C m) ns (ns.map σ.apply) := by
      rw [List.forall₂_map_right_iff, List.forall₂_same]
      exact pairs
    refine ⟨?_, fun _ _ => pairs⟩
    cases whole : isTakenWhole k with
    | true =>
      rw [Substitution.apply, whole]
      exact ⟨fun _ _ => refl _, fun _ _ => refl _, fun _ _ _ => refl _⟩
    | false =>
    cases holds : isHolder k with
    | true =>
      have told c hc := related_holder composed refl passing holds parts pairs
        (fun i part part' => fits k s ns (mem_subnodes.2 .here) i part part') c
        hc
      rw [Substitution.apply, whole]
      refine ⟨told, fun c hc => ?_, fun isList => ?_⟩
      · have notBlock : k ≠ .block := by
          rintro rfl
          cases holds
        rw [bodyOutline_of_other (n := .node k s ns) notBlock,
          bodyOutline_of_other (n := .node k s _) notBlock]
        exact told c hc
      · rw [Node.kind_node] at isList
        rw [isList] at holds
        cases holds
    | false =>
      rw [apply_node whole holds]
      have among c (hc : C c) := related_among composed mapped c hc
      have told c (hc : C c) : R (said m c (.node k s ns))
          (said m c (.node k s (ns.map σ.apply))) := by
        cases special : isSpecial k with
        | true =>
          refine related_special composed refl passing special whole
            (fun i => ?_) (fun isOwn => ?_) among c hc
          · rcases child_mem_or ns i with mem | missing
            · exact pairs _ mem
            · rw [missing, apply_none]
              exact pair_none composed
          · rcases child_mem_or ns 0 with mem | missing
            · have open' : isTakenWhole (child ns 0).kind = false ∧
                  isHolder (child ns 0).kind = false := by
                rcases isOwn with isOwn | isOwn <;> rw [isOwn] <;>
                  exact ⟨rfl, rfl⟩
              rcases child_mem_or (child ns 0).children 1 with mem' | missing'
              · exact (each _ mem).2 open'.1 open'.2 _ mem'
              · rw [missing', apply_none]
                exact pair_none composed
            · rw [missing] at isOwn
              rcases isOwn with isOwn | isOwn <;> cases isOwn
        | false =>
          have first : SameFirst k (child ns 0) (child (ns.map σ.apply) 0) := by
            rw [child_map_apply]
            exact ⟨fun _ => alike_apply σ _, fun _ => by rw [kind_apply]⟩
          exact said_related composed passing special parts mapped
            first (fun _ _ _ _ _ => refl _) c hc
      refine ⟨told, fun c hc => ?_, fun _ => among⟩
      by_cases isBlock : k = .block
      · subst isBlock
        rw [bodyOutline_block, bodyOutline_block]
        exact among c hc
      · rw [bodyOutline_of_other (n := .node k s ns) isBlock,
          bodyOutline_of_other (n := .node k s _) isBlock]
        exact told c hc

end Related

end NullGuard.Scope
