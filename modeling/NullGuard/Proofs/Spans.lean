import NullGuard.Proofs.Kept

/-!
# Where the identifiers of a program go

A rewrite moves identifiers, drops some, and makes new ones without a span. It
copies none: the result has each span at most as often as the program, and the
callee of a rewritten call is gone (`rewrites_spans`). So where the identifiers
of a program have spans of their own, the callees of the rewritten calls are
pairwise different and do not stand in the result.
-/

namespace NullGuard.Transform

open NullGuard.Text (Span)
open NullGuard.Tree NullGuard.Chain NullGuard.Scope

/-- The spans of the identifiers in several nodes. -/
def spansAmong (ns : List Node) : List (Option Span) :=
  (mentionsAmong ns).map Prod.snd

/-- How often a span stands in several nodes. -/
def times (s : Option Span) (ns : List Node) : Nat :=
  (spansAmong ns).count s

section Times

variable {s : Option Span} {n : Node} {ns ms : List Node}

theorem mem_spansAmong : s ∈ spansAmong ns ↔ ∃ n ∈ ns, s ∈ spans n := by
  simp only [spansAmong, List.mem_map, mem_mentionsAmong, spans]
  constructor
  · rintro ⟨p, ⟨n, hn, hp⟩, rfl⟩
    exact ⟨n, hn, p, hp, rfl⟩
  · rintro ⟨n, hn, p, hp, rfl⟩
    exact ⟨p, ⟨n, hn, hp⟩, rfl⟩

theorem spansAmong_single (n : Node) : spansAmong [n] = spans n := by
  rw [spansAmong, mentionsAmong, mentionsAmong, List.append_nil, spans]

@[simp] theorem times_nil : times s [] = 0 :=
  rfl

theorem times_append : times s (ns ++ ms) = times s ns + times s ms := by
  have among : mentionsAmong (ns ++ ms) = mentionsAmong ns ++
      mentionsAmong ms := by
    induction ns with
    | nil => rfl
    | cons n ns ih =>
      rw [List.cons_append, mentionsAmong, ih, mentionsAmong, List.append_assoc]
  rw [times, spansAmong, among, List.map_append, List.count_append]
  rfl

theorem times_cons (n : Node) (ns : List Node) :
    times s (n :: ns) = times s [n] + times s ns := by
  rw [← List.singleton_append, times_append]

/-- A node that is no identifier has the spans of its children. -/
theorem times_node {k : Kind} {sp : Option Span}
    (plain : identifier? k = none) :
    times s [.node k sp ns] = times s ns := by
  rw [times, spansAmong, mentionsAmong, mentionsAmong, List.append_nil,
    mentions, plain]
  rfl

/-- An identifier has its own span besides those of its children. -/
theorem times_identifier {k : Kind} {sp : Option Span} {x : String}
    (isName : identifier? k = some x) :
    times s [.node k sp ns] = [sp].count s + times s ns := by
  rw [times, spansAmong, mentionsAmong, mentionsAmong, List.append_nil,
    mentions, isName, List.map_append, List.count_append]
  rfl

/-- The children of a node have at most its spans. -/
theorem times_children_le {k : Kind} {sp : Option Span} :
    times s ns ≤ times s [.node k sp ns] := by
  cases isName : identifier? k with
  | none => exact Nat.le_of_eq (times_node isName).symm
  | some x =>
    rw [times_identifier isName]
    omega

theorem times_stripParens : times s [n.stripParens] = times s [n] := by
  fun_induction Node.stripParens n with
  | case1 sp inner ih => rw [ih, times_node rfl]
  | case2 => rfl

theorem times_pos : 0 < times s ns ↔ s ∈ spansAmong ns :=
  List.count_pos_iff

end Times

section Moves

variable {s : Option Span} {ns ms : List Node}

/-- Tidying up copies nothing. -/
theorem Trims.times_le (h : Trims ns ms) : times s ms ≤ times s ns := by
  induction h with
  | nil => exact Nat.le_refl _
  | @keep n ns ms rest ih =>
    rw [times_cons n ms, times_cons n ns]
    omega
  | @drop n ns ms rest ih =>
    rw [times_cons n ns]
    omega
  | @gone n k ns ms empty rest ih =>
    have nothing : times s [.node k none []] = 0 :=
      times_node (by rcases empty with rfl | rfl <;> rfl)
    rw [times_cons n ns, times_cons (.node k none []) ms, nothing]
    omega
  | @unwrap inner ns ms rest ih =>
    rw [times_cons inner ms, times_cons (.node .paren none [inner]) ns,
      times_node rfl]
    omega
  | @within k sp ns ms ns' ms' wraps inside rest ih ih' =>
    have plain : identifier? k = none := by rcases wraps with rfl | rfl <;> rfl
    rw [times_cons (.node k sp ms) ms', times_cons (.node k sp ns) ns',
      times_node plain, times_node plain]
    omega
  | trans _ _ ih ih' => exact Nat.le_trans ih' ih

/-- The pieces of a chain stand in its body side by side. -/
theorem times_spine {policy : ChainPolicy} {name : String} {body : Node}
    {steps : List Step} (h : Spine policy name body steps) :
    times s (pieces steps) ≤ times s [body] := by
  induction h with
  | leaf sp ns => exact Nat.zero_le _
  | paren sp rest ih => rwa [times_node rfl]
  | @member sp object property steps clean rest ih =>
    rw [pieces_append, times_append, times_node rfl,
      times_cons object [property]]
    exact Nat.add_le_add_right ih _
  | @call sp l callee typeArguments arguments steps permissive ordinary
      clean rest ih =>
    have last : pieces [.call arguments typeArguments] = arguments ++
        [typeArguments] := List.append_nil _
    rw [pieces_append, last, times_append, times_append, times_node rfl,
      times_cons callee _, times_cons (.node .list l arguments) _,
      times_node rfl]
    omega

/-- The pieces of a helper call stand in its arguments side by side. -/
theorem times_decompose {policy : ChainPolicy} {span : Option Span}
    {arguments : List Node} {c : AccessChain}
    (h : decompose policy span arguments = .ok c) :
    times s (c.base :: pieces c.steps) ≤ times s arguments := by
  obtain ⟨call, helper, walked, same, -⟩ := decompose_ok h
  cases helper with
  | @intro base callback body name isAsync isOptional sp l i ascription rest _ _
      isArrow notBlock =>
    have inBody := times_spine (s := s) walked
    have inArrow : times s [body] ≤ times s [callback] := by
      rw [← times_stripParens (n := callback), isArrow, times_node rfl,
        times_cons _ (body :: rest), times_cons body rest]
      omega
    rw [same, times_cons base (pieces c.steps), times_cons base [callback]]
    exact Nat.add_le_add_left (Nat.le_trans inBody inArrow) _

variable {u : String} (given : s ≠ none)

include given

theorem times_made {k : Kind} : times s [made k ns] = times s ns := by
  cases isName : identifier? k with
  | none => exact times_node isName
  | some x =>
    rw [made, times_identifier isName, List.count_singleton,
      if_neg (by simpa using given.symm), Nat.zero_add]

theorem times_apply {object : Node} {l : Level} :
    times s [l.apply object] = times s [object] + times s (levelPieces l) := by
  cases l with
  | member property =>
    rw [Level.apply, times_made given, times_cons object [property]]
    rfl
  | call arguments typeArguments =>
    have last : levelPieces (.call arguments typeArguments) = arguments ++
        [typeArguments] := List.append_nil _
    rw [Level.apply, times_made given, times_cons object _, times_cons
      (.ofList arguments) _, Node.ofList, times_node rfl, last, times_append]
  | method property arguments typeArguments =>
    have last : levelPieces (.method property arguments typeArguments) =
        property :: (arguments ++ [typeArguments]) := by
      simp [levelPieces, Level.steps, pieces, stepPieces]
    rw [Level.apply, times_made given, times_cons
      (made .member [object, property]) _, times_made given, times_cons object
      [property], times_cons (.ofList arguments) _, Node.ofList, times_node rfl,
      last, times_cons property (arguments ++ _), times_append]
    omega

theorem times_guarded {span : Option Span} {value more : Node} :
    times s [guarded span u value more] = times s [value, more] := by
  have temp : times s [temporary u] = 0 := times_made given
  have null : times s [made .null []] = 0 := times_made given
  have assignment : times s [made (.assign .plain) [temporary u, value]] =
      times s [value] := by
    rw [times_made given, times_cons (temporary u) [value], temp, Nat.zero_add]
  have test : times s [made (.binary .notEq) [parenthesized
      (made (.assign .plain) [temporary u, value]), made .null []]] =
      times s [value] := by
    rw [times_made given, times_cons (parenthesized _) [made .null []], null,
      parenthesized, times_made given, assignment]
    rfl
  rw [guarded, times_node rfl, times_cons (made (.binary .notEq) _) _, test,
    times_cons more [temporary u], temp, times_cons value [more]]
  rfl

theorem times_guardedLevels {ls : List Level} :
    times s [guardedLevels u ls] = times s (ls.flatMap levelPieces) := by
  have temp : times s [temporary u] = 0 := times_made given
  fun_induction guardedLevels u ls with
  | case1 => exact temp
  | case2 last =>
    rw [times_apply given, temp, List.flatMap_cons, List.flatMap_nil,
      List.append_nil, Nat.zero_add]
  | case3 level rest _ ih =>
    rw [times_guarded given, times_cons (level.apply _) [_], times_apply given,
      temp, ih, List.flatMap_cons, times_append, Nat.zero_add]

/-- The expression of a chain has the spans of its pieces. -/
theorem times_expression {c : AccessChain} (u : String) :
    times s [c.expression u] ≤ times s (c.base :: pieces c.steps) := by
  rw [← flatMap_levels, times_cons c.base _]
  unfold AccessChain.expression
  split
  · rw [parenthesized, times_made given]
    omega
  · refine Nat.le_of_eq ?_
    rw [parenthesized, times_made given, times_guarded given,
      times_cons c.base [_], times_guardedLevels given]

theorem times_varStatement (names : List String) :
    times s [varStatement names] = 0 := by
  rw [varStatement, times_made given]
  induction names with
  | nil => rfl
  | cons x names ih =>
    have nothing : times s [.none] = 0 := times_node rfl
    rw [List.map_cons, times_cons (made (.declarator false) _) _, ih,
      times_made given, times_cons (made (.bindingIdent x false) _) [.none],
      times_made given, nothing]

theorem times_declareIn (names : List String) (items : List Node) :
    times s (declareIn names items) = times s items := by
  rcases declareIn_eq names items with ⟨same, -⟩ | ⟨front, back, same, rfl⟩
  · rw [same]
  · rw [same, times_append, times_cons (varStatement names) back,
      times_varStatement given, times_append, Nat.zero_add]

theorem times_arrowBody (names : List String) (n : Node) :
    times s [arrowBody names n] ≤ times s [n] := by
  unfold arrowBody
  split
  · refine Nat.le_of_eq ?_
    rw [times_node rfl, times_node rfl, times_declareIn given]
  · split
    · exact (trimming_unwrapConditional n .nil).times_le
    · rw [times_made given, times_cons (varStatement names) [_],
        times_varStatement given, times_made given, Nat.zero_add]
      exact (trimming_unwrap n .nil).times_le

end Moves

section Callees

variable {setting : Setting} {js : List Treatment} {ns ns' : List Node}
  {h : List String} {a : List RewrittenCall}

/-- The callee of a planned call is an identifier that is to be rewritten, and
stands beside the arguments. -/
theorem callee_of_planned {plan : Plan} {n arguments : Node}
    (planned : plannedArguments? plan n = some arguments) :
    plan.isTarget (calleeSpan n) = true ∧
      ∀ s, times s arguments.children + [calleeSpan n].count s ≤
        times s [n] := by
  obtain ⟨sp, callee, rest, rfl, isTarget⟩ := planned_cases planned
  unfold isPlanned at isTarget
  rw [calleeSpan]
  split at isTarget
  · rename_i x t ms stripped
    rw [stripped]
    refine ⟨isTarget, fun s => ?_⟩
    have inCallee : [t].count s ≤ times s [callee] := by
      rw [← times_stripParens, stripped, times_identifier (x := x) rfl]
      exact Nat.le_add_right _ _
    have inArguments : times s arguments.children ≤ times s [arguments] := by
      obtain ⟨k, t', ns⟩ := arguments
      exact times_children_le
    rw [times_node rfl, times_cons callee _, times_cons arguments rest]
    simp only [Node.span_node]
    omega
  · cases isTarget

/-- **A rewrite copies no identifier**, and the callees of the calls that it
rewrites are not in the result. -/
theorem rewrites_spans (rewritten : Rewrites setting js ns ns' h a)
    {s : Option Span} (given : s ≠ none) :
    times s ns' + (a.map RewrittenCall.callee).count s ≤ times s ns := by
  have call {n arguments : Node} {arguments' : List Node} {chain : AccessChain}
      {a : List RewrittenCall} (u : String) (t : Option String) (planned :
      plannedArguments? setting.plan n = some arguments) (taken : decompose
      setting.options.policy n.span (arguments'.map unwrapItem) = .ok chain)
      (ih : times s arguments' + (a.map RewrittenCall.callee).count s ≤
      times s arguments.children) : times s [chain.expression u] + ((a ++
      [RewrittenCall.mk (calleeSpan n) t]).map RewrittenCall.callee).count s ≤
      times s [n] := by
    have outer := (callee_of_planned planned).2 s
    have inner := Nat.le_trans (times_expression given u)
      (Nat.le_trans (times_decompose taken)
      (Trims.map trimming_unwrapItem arguments').times_le)
    have last : [RewrittenCall.mk (calleeSpan n) t].map RewrittenCall.callee =
        [calleeSpan n] := rfl
    rw [List.map_append, List.count_append, last]
    omega
  induction rewritten with
  | nil | keep => exact Nat.le_refl _
  | @cons j js n n' ns ns' h g a b head tail ih ih' =>
    rw [times_cons n' ns', times_cons n ns, List.map_append, List.count_append]
    omega
  | @node k sp ns ns' h a notProgram unplanned children ih =>
    have trimmed := (trims_finish setting.removals k ns').times_le (s := s)
    cases isName : identifier? k with
    | none =>
      rw [times_node isName, times_node isName]
      omega
    | some x =>
      rw [times_identifier isName, times_identifier isName]
      omega
  | program children all ih =>
    rw [times_node rfl, times_node rfl, times_declareIn given]
    exact Nat.le_trans (Nat.add_le_add_right
      (Trims.filter (staysIn setting.removals) _).times_le _) ih
  | @items k sp ns ns' h a children ih =>
    have trimmed :=
      (Trims.filter (staysIn setting.removals) ns').times_le (s := s)
    cases isName : identifier? k with
    | none =>
      rw [times_node isName, times_node isName]
      omega
    | some x =>
      rw [times_identifier isName, times_identifier isName]
      omega
  | block children all ih =>
    rw [times_node rfl, times_node rfl, times_declareIn given]
    exact Nat.le_trans (Nat.add_le_add_right
      (Trims.filter (staysIn setting.removals) _).times_le _) ih
  | noBlock _ _ ih | noCallback _ _ _ ih => exact ih
  | @function k sp ns ns' h a parts ih =>
    cases isName : identifier? k with
    | none => rwa [times_node isName, times_node isName]
    | some x =>
      rw [times_identifier isName, times_identifier isName]
      omega
  | @arrowBody n n' names h a inPlace all ih =>
    exact Nat.le_trans
      (Nat.add_le_add_right (times_arrowBody given names n') _) ih
  | base planned children taken bare ih => exact call _ _ planned taken ih
  | guarded planned children taken needed ih => exact call _ _ planned taken ih
  | @callbackArrow b sp parameters body body' types h a inner ih =>
    rw [times_node rfl, times_node rfl, times_cons parameters (body' :: types),
      times_cons body' types, times_cons parameters (body :: types),
      times_cons body types]
    omega
  | @callbackInside k sp n n' h a wraps arrow inner ih =>
    have plain : identifier? k = none := by rcases wraps with rfl | rfl <;> rfl
    rwa [times_node plain, times_node plain]

/-- The callees of the calls that a rewrite rewrites were to be rewritten, and
stand in what it rewrites. -/
theorem rewrites_targets (rewritten : Rewrites setting js ns ns' h a) :
    ∀ r ∈ a, setting.plan.isTarget r.callee = true ∧
      r.callee ∈ spansAmong ns := by
  have call {n arguments : Node} {a : List RewrittenCall} (t : Option String)
      (planned : plannedArguments? setting.plan n = some arguments) (ih :
      ∀ r ∈ a, setting.plan.isTarget r.callee = true ∧ r.callee ∈ spansAmong
      arguments.children) : ∀ r ∈ a ++ [RewrittenCall.mk (calleeSpan n) t],
      setting.plan.isTarget r.callee = true ∧ r.callee ∈ spansAmong [n] := by
    obtain ⟨isTarget, inside⟩ := callee_of_planned planned
    intro r hr
    rcases List.mem_append.1 hr with hr | hr
    · have there := times_pos.2 (ih r hr).2
      have bound := inside r.callee
      exact ⟨(ih r hr).1, times_pos.1 (by omega)⟩
    · rw [List.mem_singleton.1 hr]
      have bound := inside (calleeSpan n)
      rw [List.count_singleton_self] at bound
      exact ⟨isTarget, times_pos.1 (Nat.le_trans (Nat.le_add_left _ _) bound)⟩
  have under {k : Kind} {sp : Option Span} {ns : List Node} {s : Option Span}
      (there : s ∈ spansAmong ns) : s ∈ spansAmong [.node k sp ns] :=
    times_pos.1 (Nat.lt_of_lt_of_le (times_pos.2 there) times_children_le)
  induction rewritten with
  | nil | keep => nofun
  | cons head tail ih ih' =>
    intro r hr
    rw [mem_spansAmong]
    rcases List.mem_append.1 hr with hr | hr
    · obtain ⟨n, hn, there⟩ := mem_spansAmong.1 (ih r hr).2
      exact ⟨(ih r hr).1, n, List.mem_cons.2 (.inl (List.mem_singleton.1 hn)),
        there⟩
    · obtain ⟨n, hn, there⟩ := mem_spansAmong.1 (ih' r hr).2
      exact ⟨(ih' r hr).1, n, List.mem_cons_of_mem _ hn, there⟩
  | node _ _ _ ih | program _ _ ih | items _ ih | block _ _ ih | function _ ih
      | callbackInside _ _ _ ih =>
    exact fun r hr => ⟨(ih r hr).1, under (ih r hr).2⟩
  | noBlock _ _ ih | noCallback _ _ _ ih | arrowBody _ _ ih => exact ih
  | base planned children taken bare ih => exact call _ planned ih
  | guarded planned children taken needed ih => exact call _ planned ih
  | @callbackArrow b sp parameters body body' types h a inner ih =>
    intro r hr
    refine ⟨(ih r hr).1, under
      (mem_spansAmong.2 ⟨body, List.mem_cons_of_mem _ List.mem_cons_self, ?_⟩)⟩
    rw [← spansAmong_single]
    exact (ih r hr).2

end Callees

end NullGuard.Transform
