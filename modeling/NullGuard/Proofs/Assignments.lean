import NullGuard.Proofs.Occurrences
import NullGuard.Proofs.ParameterUse
import NullGuard.Proofs.PlannedCalls

/-!
# Assignments to a helper

The grammar assigns to a name on the left side of an assignment, under `++` and
`--`, and in the head of a loop that declares nothing. `assigned` lists these
names, whatever parentheses and type assertions are around them.

A helper has to be a constant, so a plan is refused where the analysis finds
that one is written to. The analysis sees a name on its own through parentheses
and the names in a pattern as they are. It does not see through a type
assertion, and not through parentheses within a pattern: a target there is
`disguised`, and passes for a name that is read. `written_only_in_disguise` says
that this is the only way to assign to the helper of a plan.
-/

namespace NullGuard.Scope

open NullGuard.Text (Span)
open NullGuard.Tree

/-- Whether a node stands for the expression in it: parentheses, or a type
assertion. -/
def isWrapper : Kind → Bool
  | .paren | .asType | .satisfies | .nonNull | .typeAssertion => true
  | _ => false

/-- The identifier that an expression is, parentheses and type assertions
aside. -/
def wrappedName : Node → List (String × Option Span)
  | .node (.ident x) s _ => [(x, s)]
  | .node k _ (n :: _) => if isWrapper k then wrappedName n else []
  | _ => []

/-- The identifier that an expression is behind a type assertion. -/
def assertedName (n : Node) : List (String × Option Span) :=
  if (bareIdentifier? n).isSome then [] else wrappedName n

mutual

/-- The names that a pattern assigns to and that are written as expressions in
it. -/
def wrappedTargets : Node → List (String × Option Span)
  | .node .exprPat _ (n :: _) => wrappedName n
  | .node k _ ns => if isTargetPart k then wrappedTargetsAmong ns else []

/-- The names that several patterns assign to and that are written as
expressions in them. -/
def wrappedTargetsAmong : List Node → List (String × Option Span)
  | [] => []
  | n :: ns => wrappedTargets n ++ wrappedTargetsAmong ns

end

/-- The names that a node assigns to. -/
def assignedAt (k : Kind) (_ : Option Span) (ns : List Node) :
    List (String × Option Span) :=
  let target := child ns 0
  match k with
  | .assign _ =>
    if isDestructuring target.kind then targets target ++ wrappedTargets target
      else wrappedName target
  | .update _ _ => wrappedName target
  | .forIn | .forOf _ =>
    if isVariables target.kind then []
      else targets target ++ wrappedTargets target
  | _ => []

/-- The names that a node assigns to and that pass for names that are read. -/
def disguisedAt (k : Kind) (_ : Option Span) (ns : List Node) :
    List (String × Option Span) :=
  let target := child ns 0
  match k with
  | .assign _ =>
    if isDestructuring target.kind then wrappedTargets target
      else assertedName target
  | .update _ _ => assertedName target
  | .forIn | .forOf _ =>
    if isVariables target.kind then [] else wrappedTargets target
  | _ => []

/-- The names that are assigned to in a piece of a program. -/
def assigned (n : Node) : List (String × Option Span) :=
  gathered assignedAt n

/-- The names that are assigned to in a piece of a program and that pass for
names that are read. -/
def disguised (n : Node) : List (String × Option Span) :=
  gathered disguisedAt n

/-- Every use at a span is of one kind. -/
def UsesOnly (kind : ReferenceKind) (s : Option Span) (os : List Outline) :
    Prop :=
  ∀ frames, ∀ u ∈ resolvedAll frames os, u.span = s → u.kind = kind

/-- Every use at a span is an assignment. -/
def WritesOnly (s : Option Span) (os : List Outline) : Prop :=
  ∀ frames, ∀ u ∈ resolvedAll frames os, u.span = s → u.kind = .write

section Uses

variable {kind : ReferenceKind}

theorem usesOnly_closed (notRead : kind ≠ .read) (s : Option Span) :
    Closed (UsesOnly kind s) where
  nil _ := nofun
  append h h' frames u hu := by
    rw [resolvedAll_append] at hu
    exact (List.mem_append.1 hu).elim (h frames u) (h' frames u)
  scope k h frames u hu := by
    rw [resolvedAll, resolved, resolvedAll, List.append_nil] at hu
    exact h _ u hu
  reference {x t} k h frames u hu same := by
    cases List.mem_singleton.1 hu
    exact absurd (h frames
      ⟨x, t, .read, lookUp frames x⟩ List.mem_cons_self same) notRead.symm
  unrecognized _ _ := nofun
  malformed _ _ := nofun

theorem usesOnly_allowsOthers (notRead : kind ≠ .read) (s : Option Span) :
    AllowsOthers (fun p => p.2 = s) (UsesOnly kind s) where
  toClosed := usesOnly_closed notRead s
  declaration _ _ _ := nofun
  helper _ _ _ _ := nofun
  use other frames u hu same := by
    cases List.mem_singleton.1 hu
    exact absurd same other

/-- A use of one kind is no other use. -/
theorem usesOnly_refer (s : Option Span) (x : Node) :
    UsesOnly kind s (refer x kind) := by
  intro frames u hu _
  unfold refer at hu
  split at hu
  · cases List.mem_singleton.1 hu
    rfl
  · cases hu

end Uses

section Writes

variable {m : String} {s : Option Span} {p : String × Option Span} {k : Kind}
  {t : Option Span} {n : Node} {ns : List Node}

theorem writesOnly_closed (s : Option Span) : Closed (WritesOnly s) :=
  usesOnly_closed (by decide) s

theorem writesOnly_allowsOthers (s : Option Span) :
    AllowsOthers (fun p => p.2 = s) (WritesOnly s) :=
  usesOnly_allowsOthers (by decide) s

/-- A use that is an assignment is no other use. -/
theorem writesOnly_write (x : Node) : WritesOnly s (refer x .write) :=
  usesOnly_refer s x

/-- The names of a pattern stand in it. -/
theorem mem_mentions_of_targets (h : p ∈ targets n) : p ∈ mentions n := by
  induction n using Node.induct with
  | step k t ns ih =>
    cases isPart : isTargetPart k with
    | false =>
      have noNames : targets (.node k t ns) = [] := targets_eq_nil isPart
      rw [noNames] at h
      cases h
    | true =>
      by_cases binds : ∃ x b, k = .bindingIdent x b
      · obtain ⟨x, b, rfl⟩ := binds
        cases List.mem_singleton.1 h
        exact mem_mentions_self (n := .node (.bindingIdent x b) t ns) rfl
      · rw [targets_of_isTargetPart isPart fun x b same => binds ⟨x, b, same⟩,
          targetsAmong_eq] at h
        obtain ⟨n, hn, inside⟩ := List.mem_flatMap.1 h
        exact mem_mentions_of_child (n := .node k t ns) hn (ih n hn inside)

theorem mem_spans_of_targets (h : p ∈ targets n) : p.2 ∈ spans n :=
  mem_spans.2 ⟨p.1, mem_mentions_of_targets h⟩

/-- Besides single names, patterns and sequences of them say what their parts
say. -/
theorem said_of_isTargetPart (isPart : isTargetPart k = true)
    (other : ∀ x b, k ≠ .bindingIdent x b) (c : Context) :
    said m c (.node k t ns) = saidAmong m c ns := by
  rw [said_node, ← outlines_toParts]
  cases k
  case bindingIdent x b => exact absurd rfl (other x b)
  all_goals first
    | rfl
    | cases isPart

/-- **Where a pattern is assigned to**, its names are written to. -/
theorem writesOnly_targets (isRegular : regular n = true)
    (distinct : (spans n).Nodup) (h : p ∈ targets n) {c : Context}
    (mode : c.mode = .write) :
    WritesOnly p.2 (said m c n) := by
  induction n using Node.induct with
  | step k t ns ih =>
    cases isPart : isTargetPart k with
    | false =>
      have noNames : targets (.node k t ns) = [] := targets_eq_nil isPart
      rw [noNames] at h
      cases h
    | true =>
      by_cases binds : ∃ x b, k = .bindingIdent x b
      · obtain ⟨x, b, rfl⟩ := binds
        have told : said m c (.node (.bindingIdent x b) t ns) =
            refer (.node (.bindingIdent x b) t ns) .write := by
          rw [said_node]
          simp only [outlineOf, mode]
          rfl
        rw [told]
        exact writesOnly_write _
      · have other : ∀ x b, k ≠ .bindingIdent x b :=
          fun x b same => binds ⟨x, b, same⟩
        rw [targets_of_isTargetPart isPart other, targetsAmong_eq] at h
        obtain ⟨n, hn, inside⟩ := List.mem_flatMap.1 h
        obtain ⟨before, after, rfl⟩ := List.append_of_mem hn
        obtain ⟨inner, alone⟩ := spans_distinct before distinct
        have elsewhere := (alone p.2 (mem_spans_of_targets inside)).2
        have below := fun n hn => regular_child (n := n) isRegular hn
        rw [said_of_isTargetPart isPart other]
        refine (writesOnly_closed p.2).saidAmong fun n' hn' => ?_
        rcases List.mem_append.1 hn' with hb | ha
        · exact said_of_clear (writesOnly_allowsOthers p.2) (below n' hn')
            (clear_of_not_mem (elsewhere n' (List.mem_append_left _ hb))) c
        · rcases List.mem_cons.1 ha with rfl | ha
          · exact ih n' hn (below n' hn') inner inside
          · exact said_of_clear (writesOnly_allowsOthers p.2) (below n' hn')
              (clear_of_not_mem (elsewhere n' (List.mem_append_right _ ha))) c

theorem mem_mentions_of_wrappedName (h : p ∈ wrappedName n) :
    p ∈ mentions n := by
  fun_induction wrappedName n with
  | case1 x t ns =>
    cases List.mem_singleton.1 h
    exact mem_mentions_self (n := .node (.ident x) t ns) rfl
  | case2 k t n rest _ _ ih =>
    exact mem_mentions_of_child (n := .node k t (n :: rest)) List.mem_cons_self
      (ih h)
  | case3 => cases h
  | case4 => cases h

/-- Behind no type assertion, an identifier is bare. -/
theorem bare_of_wrappedName (h : p ∈ wrappedName n)
    (plain : p ∉ assertedName n) :
    ∃ x, bareIdentifier? n = some x := by
  rw [assertedName] at plain
  split at plain
  · exact Option.isSome_iff_exists.1 ‹_›
  · exact absurd h plain

/-- A name stands in a node, and all that is said there about its span is that
it is written to. -/
structure WrittenTo (p : String × Option Span) (n : Node) (os : List Outline) :
    Prop where
  inside : p.2 ∈ spans n
  only : WritesOnly p.2 os

/-- A name on its own is written to. -/
theorem written_name (h : p ∈ wrappedName n) (plain : p ∉ assertedName n) :
    ∃ x, bareIdentifier? n = some x ∧ WrittenTo p n (refer x .write) := by
  obtain ⟨x, isBare⟩ := bare_of_wrappedName h plain
  exact ⟨x, isBare, mem_spans.2 ⟨p.1, mem_mentions_of_wrappedName h⟩,
    writesOnly_write x⟩

/-- The names of a pattern are written to, on the left side of an assignment and
in the head of a loop. -/
theorem written_pattern (isRegular : regular n = true)
    (distinct : (spans n).Nodup) (h : p ∈ targets n ++ wrappedTargets n)
    (plain : p ∉ wrappedTargets n) (c : Context) :
    WrittenTo p n (said m c.writing n) := by
  have inPattern := (List.mem_append.1 h).resolve_right plain
  exact ⟨mem_spans_of_targets inPattern,
    writesOnly_targets isRegular distinct inPattern rfl⟩

/-- **Where a node assigns to a name** that is not disguised, the name is
written to. -/
theorem written_node (isRegular : regular (.node k t ns) = true)
    (distinct : (spans (.node k t ns)).Nodup)
    (isAssigned : p ∈ assignedAt k t ns) (plain : p ∉ disguisedAt k t ns)
    (c : Context) :
    WrittenTo p (.node k t ns) (said m c (.node k t ns)) := by
  cases ns with
  | nil => cases k <;> cases isAssigned
  | cons target rest =>
    have closed := writesOnly_closed p.2
    obtain ⟨inner, alone⟩ := spans_distinct [] distinct
    have whole := regular_child isRegular (n := target) List.mem_cons_self
    -- Nothing behind the target has the span of the name.
    have behind (inside : p.2 ∈ spans target) (n : Node) (hn : n ∈ rest)
        (c : Context) : WritesOnly p.2 (said m c n) :=
      said_of_clear (writesOnly_allowsOthers p.2)
        (regular_child isRegular (List.mem_cons_of_mem _ hn))
        (clear_of_not_mem ((alone p.2 inside).2 n hn)) c
    have around (inside : p.2 ∈ spans target) :
        p.2 ∈ spans (.node k t (target :: rest)) :=
      (Occurs.inside List.mem_cons_self .here).spans inside
    rw [said_node]
    cases k
    case assign op =>
      have value (inside : p.2 ∈ spans target) :
          WritesOnly p.2 (said m c (child rest 0)) := by
        rcases child_mem_or rest 0 with mem | missing
        · exact behind inside _ mem c
        · rw [missing]
          exact closed.nil
      cases takesApart : isDestructuring target.kind with
      | true =>
        simp only [assignedAt, disguisedAt, child, List.getD_cons_zero,
          takesApart, if_true] at isAssigned plain
        have pattern := written_pattern (m := m) whole inner isAssigned plain c
        have other := value pattern.inside
        simp only [outlineOf, part_toParts, assignOutline_eq, node_toPart,
          child, List.getD_cons_zero, targetContext, takesApart, if_true]
        cases bareIdentifier? target with
        | some x =>
          exact ⟨around pattern.inside,
            closed.append (writesOnly_write x) other⟩
        | none =>
          exact ⟨around pattern.inside, closed.append pattern.only other⟩
      | false =>
        simp only [assignedAt, disguisedAt, child, List.getD_cons_zero,
          takesApart] at isAssigned plain
        obtain ⟨x, isBare, written⟩ := written_name isAssigned plain
        simp only [outlineOf, part_toParts, assignOutline_eq, node_toPart,
          child, List.getD_cons_zero, isBare]
        exact ⟨around written.inside,
          closed.append written.only (value written.inside)⟩
    case update =>
      obtain ⟨x, isBare, written⟩ := written_name (n := target) isAssigned plain
      simp only [outlineOf, part_toParts, node_toPart, child,
        List.getD_cons_zero, isBare]
      exact ⟨around written.inside, written.only⟩
    case forIn | forOf =>
      cases declares : isVariables target.kind with
      | true =>
        simp only [assignedAt, child, List.getD_cons_zero, declares, if_true]
          at isAssigned
        cases isAssigned
      | false =>
        simp only [assignedAt, disguisedAt, child, List.getD_cons_zero,
          declares] at isAssigned plain
        have head :=
          written_pattern (m := m) whole inner isAssigned plain c.inScope
        simp only [outlineOf, part_toParts, drop_toParts, outlines_toParts,
          headOutline_eq, child, List.getD_cons_zero, declares]
        exact ⟨around head.inside, closed.scope _ (closed.append head.only
          (closed.saidAmong fun n hn => behind head.inside n hn _))⟩
    all_goals cases isAssigned

end Writes

end NullGuard.Scope

namespace NullGuard.Transform

open NullGuard.Text (Span)
open NullGuard.Tree NullGuard.Scope

section Plans

variable {m : String} {tree : Node} {p : String × Option Span}

/-- What assigns to a name says alone what is assigned to in it. -/
theorem isHome_of_assigned {k : Kind} {t : Option Span} {ns : List Node}
    (h : p ∈ assignedAt k t ns) : IsHome (.node k t ns) := by
  unfold assignedAt at h
  dsimp only at h
  split at h
  · exact ⟨rfl, rfl, nofun, rfl, nofun⟩
  · exact ⟨rfl, rfl, nofun, rfl, nofun⟩
  · exact ⟨rfl, rfl, nofun, rfl, nofun⟩
  · exact ⟨rfl, rfl, nofun, rfl, nofun⟩
  · cases h

/-- **A name that is assigned to without disguise is recorded as one that is
written to**, if it is recorded. -/
theorem write_of_assigned (isRegular : regular tree = true)
    (distinct : (spans tree).Nodup) (isAssigned : p ∈ assigned tree)
    (plain : p ∉ disguised tree) {r : Reference}
    (hr : r ∈ (Table.ofOutline (outline m tree)).references)
    (same : r.span = p.2) : r.kind = .write := by
  obtain ⟨⟨k, t, ns⟩, hn, here⟩ := List.mem_flatMap.1 isAssigned
  have notHere : p ∉ disguisedAt k t ns :=
    fun h => plain (List.mem_flatMap.2 ⟨_, hn, h⟩)
  have occurs := mem_subnodes.1 hn
  have regularHere := occurs.regular isRegular
  have written (c : Context) :=
    written_node (m := m) regularHere (occurs.distinct distinct) here notHere c
  have housed := housed_of_occurs occurs (written {}).inside
    (isHome_of_assigned here) distinct
  have only : WritesOnly p.2 (outline m tree) := by
    refine said_of_housed (writesOnly_allowsOthers p.2)
      (fun n isHere _ c => ?_) isRegular housed {}
    subst isHere
    exact (written c).only
  have listed : (Table.ofOutline (outline m tree)).resolution r ∈
      resolvedAll [reachingAll .root (outline m tree)] (outline m tree) := by
    rw [← Table.resolve_ofOutline]
    exact List.mem_map_of_mem hr
  exact only _ _ listed same

/-- **The helper of a plan is assigned to in disguise only**, and declared
once. -/
theorem written_only_in_disguise (isRegular : regular tree = true)
    (distinct : (spans tree).Nodup) {plan : Plan}
    (planned : Transform.plan (Table.ofOutline (outline m tree)) = .ok plan)
    {d : HelperDeclaration}
    (isHelper : d ∈ (Table.ofOutline (outline m tree)).helpers) :
    ((Table.ofOutline (outline m tree)).bindings.getD d.binding
      default).redeclarations = [] ∧
      ∀ r ∈ (Table.ofOutline (outline m tree)).references, (Table.ofOutline
        (outline m tree)).resolve r.scope r.name = some d.binding →
        ∀ p ∈ assigned tree, r.span = p.2 → p ∈ disguised tree := by
  obtain ⟨h, -, planHelper⟩ :=
    exists_of_forall₂ (planned_each planned).flip isHelper
  refine ⟨(declared_of_planHelper planHelper).1,
    fun r hr resolved p isAssigned same => ?_⟩
  by_contra plain
  have uses : r ∈ (Table.ofOutline (outline m tree)).referencesTo d.binding :=
    List.mem_filter.2 ⟨hr, beq_iff_eq.2 resolved⟩
  exact (attributed_of_planHelper planHelper).noWrite r uses
    (write_of_assigned isRegular distinct isAssigned plain hr same)

/-- `import idx from 'idx'; [(idx)] = x;` -/
def disguisedAssignment : Node :=
  readAt (.program true none) 0 35 [shortImport, readAt .exprStmt 23 35
    [readAt (.assign .plain) 23 34 [readAt (.arrayPat false false) 23 30
    [.ofList [readAt .exprPat 24 29 [readAt .paren 24 29
    [readAt (.ident "idx") 25 28 []]]], .none], readAt (.ident "x") 33 34 []]]]

/-- A helper in parentheses in a pattern is assigned to, and has a plan. -/
theorem written_only_in_disguise_parenthesized :
    (∃ plan, Transform.plan
      (Table.ofOutline (outline "idx" disguisedAssignment)) = .ok plan) ∧
      ("idx", some ⟨25, 28⟩) ∈ assigned disguisedAssignment ∧
        ("idx", some ⟨25, 28⟩) ∈ disguised disguisedAssignment := by
  have isAssigned : ("idx", some ⟨25, 28⟩) ∈ assigned disguisedAssignment := by
    decide +kernel
  refine ⟨⟨_, rfl⟩, isAssigned, ?_⟩
  exact (written_only_in_disguise (m := "idx") rfl (by decide +kernel) rfl
    (d := ⟨0, .imported (some ⟨0, 22⟩)⟩) (by decide +kernel)).2
    ⟨"idx", some ⟨25, 28⟩, .read, 0⟩ (by decide +kernel) rfl _ isAssigned rfl

end Plans

end NullGuard.Transform
