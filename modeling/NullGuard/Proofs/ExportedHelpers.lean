import NullGuard.Proofs.Callees
import NullGuard.Proofs.Hygiene
import NullGuard.Proofs.Remainders

/-!
# Helpers that are exported where they are declared

A helper that `export` declares is marked as exported, and its declaration is
not taken away. The mark is part of the context in which the analysis looks at a
declarator, so one has to know that no other declarator gives the same origin
without it: origins are spans, and no two declarations of a program stand at one
place. `notExported_of_unmarked` follows the outline of a program down to the
declarators with this in hand, and `notExported_of_removal` says what it means
for a plan.
-/

namespace NullGuard.Transform

open NullGuard.Text (Span)
open NullGuard.Tree NullGuard.Scope

/-- Where the imports and declarators in some nodes stand. -/
def declaredAmong (ns : List Node) : List (Option Span) :=
  ((subnodesAmong ns).filter fun n => isDeclaration n.kind).map Node.span

/-- Where the declarators right in a declaration of variables stand. -/
def declaredIn : Node → List (Option Span)
  | .node (.varDecl _ _) _ ns => ns.map Node.span
  | _ => []

/-- Where the declarators in some nodes stand that `export` is in front of. -/
def exportedAmong (ns : List Node) : List (Option Span) :=
  (subnodesAmong ns).flatMap fun m => if m.kind = .exportDecl
    then m.children.flatMap declaredIn else []

/-- Whether a helper is exported where it is declared. -/
def isMarked : Origin → Bool
  | .required _ isExported => isExported
  | .imported _ => false

/-- Where the declarations stand that some outlines call helpers, but not
exported. -/
def unmarked (os : List Outline) : List (Option Span) :=
  (remarksAll os).filterMap fun
    | .helper _ _ _ origin =>
      if isMarked origin then none else some (originSpan origin)
    | _ => none

section Declared

variable {m : String} {c : Context} {n n' : Node} {k : Kind}
  {s s' : Option Span} {ns ms : List Node} {os os' : List Outline}

theorem declaredAmong_append :
    declaredAmong (ns ++ ms) = declaredAmong ns ++ declaredAmong ms := by
  rw [declaredAmong, subnodesAmong_append, List.filter_append, List.map_append]
  rfl

theorem declaredAmong_node :
    declaredAmong [.node k s ns] = (if isDeclaration k then [s] else []) ++
      declaredAmong ns := by
  rw [declaredAmong, subnodesAmong, subnodesAmong, List.append_nil, subnodes,
    List.filter_cons, Node.kind_node]
  split <;> rfl

theorem mem_declaredAmong :
    s ∈ declaredAmong ns ↔ ∃ n ∈ ns, ∃ d, Occurs d n ∧
      isDeclaration d.kind = true ∧ d.span = s := by
  simp only [declaredAmong, List.mem_map, List.mem_filter, mem_subnodesAmong,
    mem_subnodes]
  constructor
  · rintro ⟨d, ⟨⟨n, hn, occurs⟩, declares⟩, rfl⟩
    exact ⟨n, hn, d, occurs, declares, rfl⟩
  · rintro ⟨n, hn, d, occurs, declares, rfl⟩
    exact ⟨d, ⟨⟨n, hn, occurs⟩, declares⟩, rfl⟩

theorem declaredAmong_of_mem (hn : n ∈ ns) (there : s ∈ declaredAmong [n]) :
    s ∈ declaredAmong ns := by
  obtain ⟨n', hn', found⟩ := mem_declaredAmong.1 there
  cases List.mem_singleton.1 hn'
  exact mem_declaredAmong.2 ⟨n, hn, found⟩

/-- Where all declarations stand apart, a place is in one of several nodes
only. -/
theorem eq_of_declaredAmong (apart : (declaredAmong ns).Nodup) (hn : n ∈ ns)
    (hn' : n' ∈ ns) (there : s ∈ declaredAmong [n])
    (there' : s ∈ declaredAmong [n']) : n = n' := by
  induction ns with
  | nil => cases hn
  | cons first rest ih =>
    rw [← List.singleton_append, declaredAmong_append, List.nodup_append]
      at apart
    obtain ⟨-, others, disjoint⟩ := apart
    rcases List.mem_cons.1 hn with rfl | inRest <;> rcases List.mem_cons.1 hn'
      with rfl | inRest'
    · rfl
    · exact absurd rfl
        (disjoint s there s (declaredAmong_of_mem inRest' there'))
    · exact absurd rfl (disjoint s there' s (declaredAmong_of_mem inRest there))
    · exact ih others inRest inRest'

theorem exportedAmong_cons :
    s ∈ exportedAmong (n :: ns) ↔ s ∈ exportedAmong [n] ∨
      s ∈ exportedAmong ns := by
  rw [exportedAmong, ← List.singleton_append, subnodesAmong_append,
    List.flatMap_append, List.mem_append]
  rfl

theorem mem_exportedAmong :
    s ∈ exportedAmong ns ↔ ∃ n ∈ ns, s ∈ exportedAmong [n] := by
  induction ns with
  | nil => exact iff_of_false nofun nofun
  | cons n ns ih => rw [exportedAmong_cons, ih, List.exists_mem_cons_iff]

theorem exportedAmong_node : s' ∈ exportedAmong [.node k s ns] ↔
    k = .exportDecl ∧ s' ∈ ns.flatMap declaredIn ∨ s' ∈ exportedAmong ns := by
  rw [exportedAmong, subnodesAmong, subnodesAmong, List.append_nil, subnodes,
    List.flatMap_cons, List.mem_append, Node.kind_node]
  split
  · rename_i isExport
    simp only [isExport, true_and]
    rfl
  · rename_i other
    simp only [other, false_and, List.not_mem_nil]
    rfl

theorem declaredIn_subset (written : Written n) (h : s ∈ declaredIn n) :
    s ∈ declaredAmong [n] := by
  unfold declaredIn at h
  split at h
  · rename_i w d s' ns
    obtain ⟨q, hq, rfl⟩ := List.mem_map.1 h
    have declares := declarators_of_written written w d rfl q hq
    refine mem_declaredAmong.2 ⟨_, List.mem_cons_self, q,
      .inside hq .here, ?_, rfl⟩
    rw [isDeclaration, declares, Bool.or_true]
  · cases h

/-- What is exported is declared. -/
theorem exported_declared (written : ∀ n ∈ ns, Written n)
    (h : s ∈ exportedAmong ns) : s ∈ declaredAmong ns := by
  obtain ⟨m, hm, found⟩ := List.mem_flatMap.1 h
  split at found
  · obtain ⟨q, hq, direct⟩ := List.mem_flatMap.1 found
    obtain ⟨n, hn, inside⟩ := mem_subnodesAmong.1 hm
    obtain ⟨k, s', ms⟩ := m
    have occurs : Occurs q n :=
      (Occurs.inside hq .here).trans (mem_subnodes.1 inside)
    obtain ⟨q', hq', d, within, declares, there⟩ :=
      mem_declaredAmong.1 (declaredIn_subset (fun l hl => written n hn l
      (mem_subnodes.2 ((mem_subnodes.1 hl).trans occurs))) direct)
    cases List.mem_singleton.1 hq'
    exact mem_declaredAmong.2 ⟨n, hn, d, within.trans occurs, declares, there⟩
  · cases found

theorem unmarked_append :
    unmarked (os ++ os') = unmarked os ++ unmarked os' := by
  rw [unmarked, remarksAll_append, List.filterMap_append]
  rfl

theorem mem_unmarked :
    s ∈ unmarked os ↔ ∃ x t kind origin, .helper x t kind origin ∈
      remarksAll os ∧
      isMarked origin = false ∧ originSpan origin = s := by
  rw [unmarked, List.mem_filterMap]
  constructor
  · rintro ⟨o, ho, same⟩
    split at same
    · rename_i origin
      cases marked : isMarked origin with
      | true => simp [marked] at same
      | false =>
        exact ⟨_, _, _, origin, ho, marked, by simpa [marked] using same⟩
    · cases same
  · rintro ⟨x, t, kind, origin, told, marked, rfl⟩
    exact ⟨_, told, by simp [marked]⟩

/-- What a program calls a helper it declares. -/
theorem unmarked_declared (isRegular : regular n = true)
    (h : s ∈ unmarked (said m c n)) : s ∈ declaredAmong [n] := by
  obtain ⟨x, t, kind, origin, told, -, rfl⟩ := mem_unmarked.1 h
  refine remarks_said (P := fun o => ∀ x t kind origin, o =
    .helper x t kind origin → originSpan origin ∈ declaredAmong [n]) isRegular
    (fun k sp ns there => ?_) c _ told x t kind origin rfl
  have declared (declares : isDeclaration k = true) : sp ∈ declaredAmong [n] :=
    mem_declaredAmong.2 ⟨n, List.mem_cons_self, _, mem_subnodes.1 there,
      declares, rfl⟩
  refine ⟨?_, by rintro _ _ - - - _ _ _ _ ⟨⟩, by rintro _ - - _ _ _ _ ⟨⟩, ?_⟩
  · rintro b here x rfl - - - _ _ _ _ ⟨⟩
    exact declared rfl
  · rintro b x o kind isExported rfl - - _ _ _ _ ⟨⟩
    exact declared rfl

theorem unmarked_saidAmong {t : Option Span}
    (h : t ∈ unmarked (saidAmong m c ns)) :
    ∃ n ∈ ns, t ∈ unmarked (said m c n) := by
  induction ns with
  | nil => cases h
  | cons n ns ih =>
    rw [saidAmong, List.flatMap_cons, unmarked_append, List.mem_append] at h
    rcases h with here | there
    · exact ⟨n, List.mem_cons_self, here⟩
    · obtain ⟨n', hn', found⟩ := ih there
      exact ⟨n', List.mem_cons_of_mem _ hn', found⟩

/-- None of the places that outlines leave unmarked is among some others. -/
theorem stable_unmarked (places : List (Option Span)) :
    Stable (fun _ => True) fun os => ∀ t ∈ unmarked os, t ∉ places where
  usual _ _ := trivial
  nil := nofun
  append h h' t ht := by
    rw [unmarked_append] at ht
    exact (List.mem_append.1 ht).elim (h t) (h' t)
  scope k h t ht := by
    rw [unmarked, remarksAll, remarksAll, List.append_nil, remarks] at ht
    exact h t ht
  declaration _ _ _ _ := nofun
  use _ _ _ _ := nofun

/-- What a node and its parts leave unmarked is not exported. -/
structure Marks (m : String) (n : Node) : Prop where
  whole : ∀ c, ∀ t ∈ unmarked (said m c n), t ∉ exportedAmong [n]
  inner : isOpen n.kind = true → ∀ n' ∈ n.children,
    ∀ c, ∀ t ∈ unmarked (said m c n'), t ∉ exportedAmong [n]
  /-- Behind `export` the declarators of the node are marked. -/
  direct : ∀ c, c.isExported = true → ∀ t ∈ unmarked (said m c n),
    t ∉ declaredIn n ∧ (isDeclarator n.kind = true → t ≠ n.span)

section Step

variable (isRegular : regular (.node k s ns) = true)
  (written : Written (.node k s ns))
  (apart : (declaredAmong [.node k s ns]).Nodup) (each : ∀ n ∈ ns, Marks m n)

include written apart in
/-- What is declared in a child and not exported in it is exported in no
child. -/
theorem not_exported_beside {t : Option Span} (hn : n ∈ ns)
    (there : t ∈ declaredAmong [n]) (none : t ∉ exportedAmong [n]) :
    t ∉ exportedAmong ns := by
  intro exported
  rw [declaredAmong_node, List.nodup_append] at apart
  obtain ⟨n', hn', found⟩ := mem_exportedAmong.1 exported
  have there' :=
    exported_declared (List.forall_mem_singleton.2 (written.child hn')) found
  obtain rfl := eq_of_declaredAmong apart.2.1 hn hn' there there'
  exact none found

include isRegular written apart each

/-- Nothing that is left unmarked in a child is exported in a child. -/
theorem marks_among (hn : n ∈ ns) :
    ∀ t ∈ unmarked (said m c n), t ∉ exportedAmong ns :=
  fun t ht => not_exported_beside written apart hn (unmarked_declared
    (regular_child isRegular hn) ht) ((each n hn).whole c t ht)

/-- An export marks the variables that it declares. -/
theorem marks_export (isExport : k = .exportDecl) :
    ∀ t ∈ unmarked (said m c (.node k s ns)),
      t ∉ exportedAmong [.node k s ns] := by
  subst isExport
  intro t ht
  have told : said m c (.node .exportDecl s ns) =
      saidAmong m { c with isExported := true } ns := by
    rw [said_node]
    simp only [outlineOf, outlines_toParts]
  rw [told] at ht
  obtain ⟨n, hn, ht⟩ := unmarked_saidAmong ht
  rw [exportedAmong_node, not_or]
  refine ⟨?_, marks_among isRegular written apart each hn t ht⟩
  rintro ⟨-, exported⟩
  obtain ⟨n', hn', found⟩ := List.mem_flatMap.1 exported
  rw [declaredAmong_node, List.nodup_append] at apart
  obtain rfl := eq_of_declaredAmong apart.2.1 hn hn'
    (unmarked_declared (regular_child isRegular hn) ht)
    (declaredIn_subset (written.child hn') found)
  exact ((each n hn).direct _ rfl t ht).1 found

/-- What other nodes leave unmarked their children do not export. -/
theorem marks_plain :
    ∀ t ∈ unmarked (said m c (.node k s ns)), t ∉ exportedAmong ns := by
  obtain ⟨parts, below, -⟩ := regular_node.1 isRegular
  have stable := stable_unmarked (exportedAmong ns)
  have own (declares : isDeclaration k = true) {x : String}
      {place : Option Span} {kind : BindingKind}
      {origin : Origin} (here : originSpan origin = s) :
      ∀ t ∈ unmarked [.helper x place kind origin], t ∉ exportedAmong ns := by
    intro t ht exported
    obtain ⟨_, _, _, _, told, -, rfl⟩ := mem_unmarked.1 ht
    cases List.mem_singleton.1 told
    rw [declaredAmong_node, declares, List.nodup_append] at apart
    exact apart.2.2 _ (List.mem_singleton.2 here) _
      (exported_declared (fun n hn => written.child hn) exported) rfl
  refine said_stable stable ⟨parts, fun n hn c _ => marks_among isRegular
    written apart each hn, fun n hn isOpen n' hn' c _ t ht => ?_, ?_,
    fun _ _ => stable.named trivial _, ?_, fun _ _ _ _ _ => nofun,
    fun _ _ _ => nofun, ?_⟩ c (allowing_all c)
  · have there : t ∈ declaredAmong [n] := by
      obtain ⟨k', s', ms⟩ := n
      obtain ⟨_, hd, d, occurs, found⟩ := mem_declaredAmong.1
        (unmarked_declared (regular_child (below _ hn) hn') ht)
      cases List.mem_singleton.1 hd
      exact mem_declaredAmong.2 ⟨_, List.mem_cons_self, d,
        occurs.trans (.inside hn' .here), found⟩
    exact not_exported_beside written apart hn there
      ((each n hn).inner isOpen n' hn' c t ht)
  · rintro - x -
    unfold refer
    split <;> exact nofun
  · rintro b here x rfl - - -
    exact own rfl rfl
  · rintro b x o kind isExported rfl - - -
    exact own rfl rfl

/-- A declaration of variables passes the mark on to its declarators. -/
theorem marks_variables {w : VarWord} {d : Bool} (isDeclared : k = .varDecl w d)
    (isExported : c.isExported = true) :
    ∀ t ∈ unmarked (said m c (.node k s ns)), t ∉ ns.map Node.span := by
  subst isDeclared
  intro t ht direct
  obtain ⟨c', marked, told⟩ : ∃ c' : Context, c'.isExported = true ∧
      said m c (.node (.varDecl w d) s ns) = saidAmong m c' ns := by
    refine ⟨{ c with varKind := if w = .var then .var else .lexical },
      isExported, ?_⟩
    rw [said_node]
    cases w <;> exact outlines_toParts ..
  rw [told] at ht
  obtain ⟨n, hn, ht⟩ := unmarked_saidAmong ht
  obtain ⟨n', hn', rfl⟩ := List.mem_map.1 direct
  have declares := declarators_of_written written w d rfl n' hn'
  have there' : n'.span ∈ declaredAmong [n'] :=
    mem_declaredAmong.2 ⟨n', List.mem_cons_self, n', .here,
      by rw [isDeclaration, declares, Bool.or_true], rfl⟩
  rw [declaredAmong_node, List.nodup_append] at apart
  obtain rfl := eq_of_declaredAmong apart.2.1 hn hn'
    (unmarked_declared (regular_child isRegular hn) ht) there'
  exact ((each n hn).direct c' marked _ ht).2 declares rfl

omit written each in
/-- A declarator behind `export` is marked. -/
theorem marks_declarator {b : Bool} (declares : k = .declarator b)
    (isExported : c.isExported = true) :
    ∀ t ∈ unmarked (said m c (.node k s ns)), t ≠ s := by
  subst declares
  have inside {i : Nat} {c : Context} :
      ∀ t ∈ unmarked (said m c (child ns i)), t ≠ s := by
    rintro t ht rfl
    rcases child_mem_or ns i with mem | missing
    · rw [declaredAmong_node, List.nodup_append] at apart
      have there := declaredAmong_of_mem mem
        (unmarked_declared (regular_child isRegular mem) ht)
      exact apart.2.2 _ (List.mem_singleton_self _) _ there rfl
    · rw [missing] at ht
      cases ht
  have two {os os' : List Outline} (first : ∀ t ∈ unmarked os, t ≠ s) (second :
      ∀ t ∈ unmarked os', t ≠ s) : ∀ t ∈ unmarked (os ++ os'), t ≠ s := by
    rw [unmarked_append]
    exact List.forall_mem_append.2 ⟨first, second⟩
  have behind {o : Outline} {os : List Outline} (marked : unmarked [o] = [])
      (rest : ∀ t ∈ unmarked os, t ≠ s) : ∀ t ∈ unmarked (o :: os), t ≠ s := by
    rw [← List.singleton_append, unmarked_append, marked]
    exact rest
  rw [said_node]
  simp only [outlineOf, part_toParts, declaratorOutline, node_toPart,
    outline_toPart]
  split
  · split
    · rw [isExported]
      exact behind rfl inside
    · exact behind rfl (two inside inside)
  · exact two inside inside

end Step

/-- **Whatever is not marked is not exported**, where all declarations stand
apart. -/
theorem marks (isRegular : regular n = true) (written : Written n)
    (apart : (declaredAmong [n]).Nodup) : Marks m n := by
  induction n using Node.induct with
  | step k s ns ih =>
    have each n (hn : n ∈ ns) : Marks m n := by
      refine ih n hn (regular_child isRegular hn) (written.child hn) ?_
      obtain ⟨front, back, rfl⟩ := List.append_of_mem hn
      rw [declaredAmong_node, declaredAmong_append,
        ← List.singleton_append (l := back), declaredAmong_append] at apart
      exact (List.nodup_append.1
        (List.nodup_append.1 (List.nodup_append.1 apart).2.1).2.1).1
    have inside (other : k ≠ .exportDecl) {t : Option Span}
        (none : t ∉ exportedAmong ns) : t ∉ exportedAmong [.node k s ns] := by
      rw [exportedAmong_node, not_or]
      exact ⟨fun exported => other exported.1, none⟩
    refine ⟨fun c t ht => ?_, fun isOpen n hn c t ht => ?_,
      fun c isExported t ht => ⟨?_, fun declares => ?_⟩⟩
    · by_cases isExport : k = .exportDecl
      · exact marks_export isRegular written apart each isExport t ht
      · exact inside isExport (marks_plain isRegular written apart each t ht)
    · refine inside ?_ (marks_among isRegular written apart each hn t ht)
      rintro rfl
      cases isOpen
    · unfold declaredIn
      split
      · rename_i same
        cases same
        exact marks_variables isRegular written apart each rfl isExported t ht
      · exact List.not_mem_nil
    · cases k with
      | declarator b =>
        exact marks_declarator isRegular apart rfl isExported t ht
      | _ => cases declares

end Declared

/-- **An exported variable is not taken away**, whether it is a helper or
not. -/
theorem Performed.exported_stays {options : Options} {tree : Node}
    {comments : CommentMap} {transformed : Transformed}
    (p : Performed options tree comments transformed)
    (isRegular : regular tree = true) (written : Written tree)
    (apart : DeclaredApart tree) :
    ∀ t ∈ exportedAmong [tree], t ∉ p.plan.removals := by
  intro t exported removed
  rw [Plan.removals, List.mem_eraseDups, List.mem_map] at removed
  obtain ⟨h, hh, rfl⟩ := removed
  obtain ⟨hh, isRemovable⟩ := List.mem_filter.1 hh
  obtain ⟨d, hd, planHelper⟩ := exists_of_forall₂ (planned_each p.planned) hh
  have origin := (declared_of_planHelper planHelper).2.2
  rw [p.table_eq] at hd
  rcases (Table.learned_addAll {} [0] (outline options.importName tree)).helpers
    d hd with none | ⟨x, place, k, told, -⟩
  · cases none
  have unmarked : h.declaration ∈ unmarked (said options.importName {} tree) :=
    by
    rw [HelperPlan.isRemovable, Bool.and_assoc, Bool.and_eq_true,
      Bool.not_eq_true'] at isRemovable
    exact mem_unmarked.2 ⟨x, place, k, d.origin, told, origin ▸ isRemovable.1,
      origin ▸ rfl⟩
  rw [DeclaredApart] at apart
  refine (marks isRegular written ?_).whole {} _ unmarked exported
  rwa [declaredAmong, subnodesAmong, subnodesAmong, List.append_nil]

end NullGuard.Transform
