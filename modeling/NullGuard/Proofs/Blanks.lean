import NullGuard.Proofs.Substitutions

/-!
# Putting blanks in place of parts of a program

A blank is a node without names: nothing reaches out of it, and it uses nothing.
If blanks are put in place of parts of a program, then all that the parts did to
the names outside of them goes away, and this is little: a reference that stands
outside of the parts means what it means with the blanks, or a declaration of
its own name that stands in one of the parts (`references_outside_blanks`).

The two programs are compared as an edit (`cutting`) under which all that stands
in the parts goes away and nothing is new. A part is carried over to a blank
under it (`pair_blank`), and `related_apply` takes this to the whole program.
-/

namespace NullGuard.Transform

open NullGuard.Text (Span)
open NullGuard.Tree NullGuard.Scope

/-- An outline that nothing reaches out of and in which nothing is declared or
used, and without imports. -/
structure Vacant (os : List Outline) : Prop where
  reach : ∀ r, reachingAll r os = []
  contents : ∀ i ∈ contentsAll os, i = .frame []
  fine : malformedAmong? os = none

/-- A node without names, as a node, as a body and as a sequence. -/
structure Blank (n : Node) : Prop where
  nameless : mentions n = []
  said : ∀ m c, Vacant (said m c n)
  body : ∀ m c, Vacant (bodyOutline (toPart m n) c)
  among : ∀ m c, Vacant (saidAmong m c n.children)

theorem vacant_nil : Vacant [] :=
  ⟨fun _ => rfl, nofun, rfl⟩

/-- A node without names that says nothing, nor its parts, is a blank. -/
theorem blank_of_silent {n : Node} (nameless : mentions n = [])
    (silent : ∀ m c, said m c n = [])
    (among : ∀ m c, saidAmong m c n.children = []) : Blank n where
  nameless := nameless
  said m c := by
    rw [silent]
    exact vacant_nil
  body m c := by
    unfold bodyOutline
    split
    · rw [parts_toPart, outlines_toParts, among]
      exact vacant_nil
    · rw [outline_toPart, silent]
      exact vacant_nil
  among m c := by
    rw [among]
    exact vacant_nil

/-- All that stands in some parts of a program goes away. -/
def cutting (parts : List Node) : Edit where
  isNew _ := False
  isGone s := s ∈ spansAmong parts
  isLeft s := s ∉ spansAmong parts
  keepsWrites := True

section Cutting

variable {parts : List Node} {m : String} {n n' : Node} {os os' : List Outline}

/-- What stands in parts that go away is carried over to what nothing reaches
out of. -/
theorem carries_cut (noted : ∀ s ∈ namesAll os, s ∈ spansAmong parts)
    (vacant : Vacant os') :
    Carries (cutting parts) os os' := by
  have nothing : Carries (cutting parts) os [] :=
    carries_nothing (fun _ _ hd => noted _ (mem_namesAll_of_reaching hd))
      fun _ _ hu isLeft => isLeft (noted _ (mem_namesAll_of_use hu))
  refine nothing.trans
    (carries_new (fun r d hd => ?_) (fun i hi => ?_) vacant.fine)
  · rw [vacant.reach r] at hd
    cases hd
  · rw [vacant.contents i hi]
    exact ⟨[], .inl rfl, .refl []⟩

/-- **A part that goes away is carried over to a blank.** -/
theorem pair_blank (goes : ∀ s ∈ spansAmong [n], s ∈ spansAmong parts)
    (blank : Blank n') :
    Pair (Carries (cutting parts)) (fun _ => True) m n n' where
  said c _ := carries_cut (fun _ hs => goes _ (mem_spans_of_noted hs))
    (blank.said m c)
  body c _ := carries_cut (fun _ hs => goes _ (mem_spans_of_noted_body hs))
    (blank.body m c)
  among _ c _ := carries_cut (fun _ hs => goes _ (mem_spans_of_noted_among hs))
    (blank.among m c)

/-- A declaration that a name means has this name. -/
theorem name_of_meaning {t : Table} {scope : Nat} {x : String} {d : Declared}
    (means : t.meaning scope x = some d) : d.name = x := by
  rw [Table.meaning_eq] at means
  obtain ⟨y, -, seen⟩ := List.exists_of_findSome?_eq_some means
  obtain ⟨b, found, rfl⟩ := Option.map_eq_some_iff.1 seen
  have both :=
    List.find?_some (p := fun b : Binding => b.scope == y && b.name == x) found
  exact eq_of_beq (Bool.and_eq_true_iff.1 both).2

end Cutting

/-- **What parts of a program do to the names outside of them.** Where blanks
are put in place of parts of a program that can be analysed, the result can be
analysed, and every reference that stands outside of the parts means there what
it meant, or meant a declaration of its own name that stands in one of the
parts. -/
theorem references_outside_blanks {σ : Substitution}
    (blank : ∀ k s i n n', σ.instead? k s i n = some n' → Blank n') {m : String}
    {tree : Node} (isRegular : regular tree = true)
    (distinct : (spans tree).Nodup) {analysis : Analysis}
    (analyzed : analyze m tree = .ok analysis) :
    ∃ analysis', analyze m (σ.apply tree) = .ok analysis' ∧
      ∀ r ∈ analysis.table.references, r.span ∉ spansAmong (σ.replaced tree) →
        KeepsMeaning analysis.table analysis'.table r ∨
        ∃ d, analysis.table.meaning r.scope r.name = some d ∧
      d.name = r.name ∧ d.span ∈ spansAmong (σ.replaced tree) := by
  have fits : σ.Fits (Carries (cutting (σ.replaced tree)))
      (fun _ => True) m tree := by
    intro k s ns there i part part' here found
    have mem := mem_replaced there here found
    refine .inr (pair_blank (fun t ht => ?_) (blank k s i part part' found))
    exact times_pos.1 (Nat.lt_of_lt_of_le (times_pos.2 ht) (times_mem_le mem))
  have carried : Carries (cutting (σ.replaced tree)) (outline m tree)
      (outline m (σ.apply tree)) :=
    (related_apply (composed_carries _) Carries.refl passing_all isRegular
      fits).1.said {} trivial
  obtain ⟨analysis', analyzed'⟩ : ∃ analysis', analyze m (σ.apply tree) =
      .ok analysis' :=
    analyze_isOk.2 (carried.fine (analyze_isOk.1 ⟨_, analyzed⟩))
  refine ⟨analysis', analyzed', fun r hr outside => ?_⟩
  have agrees : (cutting (σ.replaced tree)).Agrees [reachingAll .root
      (outline m tree)] [reachingAll .root (outline m (σ.apply tree))] :=
    (Edit.Agrees.refl []).cons (carried.reach .root)
  rw [table_of_analyze analyzed] at hr ⊢
  rw [table_of_analyze analyzed']
  rcases carried.uses _ _ agrees _ (mem_uses_root.2 ⟨r, hr, rfl⟩) outside
    with (isNew | ⟨d, means, gone⟩) | there
  · cases isNew
  · exact .inr ⟨d, means, name_of_meaning means, gone⟩
  · refine .inl (keepsMeaning_of_use ?_ there)
    have fewer : (mentions (σ.apply tree)).Sublist (mentions tree) := by
      refine mentions_apply_sublist (fun k s i n n' found => ?_) tree
      rw [(blank k s i n n' found).nameless]
      exact List.nil_sublist _
    rw [times, spansAmong_single]
    exact Nat.le_trans ((fewer.map Prod.snd).count_le _)
      (List.nodup_iff_count_le_one.1 distinct _)

end NullGuard.Transform
