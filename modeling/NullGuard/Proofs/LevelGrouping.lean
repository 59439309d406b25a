import NullGuard.Proofs.Decomposition

/-!
# Levels are the only grouping of steps

A list of levels is *unsplit* if no call stands directly behind a property
access that is a level of its own: a method call that falls apart in this way
loses its object. The levels of a list of steps are unsplit (`unsplit_levels`),
and grouping the steps of an unsplit list gives the list back
(`levels_flatMap_steps`). So there is one unsplit list of levels for a list of
steps, with every key and all arguments where they were
(`levels_only_grouping`).
-/

namespace NullGuard.Chain

open NullGuard.Tree

/-- No level that is a property access has a level that is a call directly
behind it. -/
def Unsplit (ls : List Level) : Prop :=
  ∀ front back property arguments typeArguments,
    ls ≠ front ++ .member property :: .call arguments typeArguments :: back

theorem unsplit_nil : Unsplit [] := by
  intro front back property arguments typeArguments split
  simp at split

/-- A level may stand in front of an unsplit list unless it is a property access
and the list begins with a call. -/
theorem unsplit_cons {l : Level} {ls : List Level} :
    Unsplit (l :: ls) ↔ (∀ property arguments typeArguments rest, l =
      .member property → ls ≠ .call arguments typeArguments :: rest) ∧
      Unsplit ls := by
  constructor
  · intro whole
    refine ⟨?_, ?_⟩
    · intro property arguments typeArguments rest isMember begins
      exact whole [] rest property arguments typeArguments
        (by rw [isMember, begins, List.nil_append])
    · intro front back property arguments typeArguments split
      exact whole (l :: front) back property arguments typeArguments
        (by rw [split, List.cons_append])
  · intro h front back property arguments typeArguments split
    obtain ⟨first, rest⟩ := h
    cases front with
    | nil =>
      rw [List.nil_append, List.cons.injEq] at split
      exact first property arguments typeArguments back split.1 split.2
    | cons m front =>
      rw [List.cons_append, List.cons.injEq] at split
      exact rest front back property arguments typeArguments split.2

/-- The levels of steps begin with a call just if the steps do. -/
theorem call_of_levels {steps : List Step} {arguments : List Node}
    {typeArguments : Node} {rest : List Level}
    (begins : levels steps = .call arguments typeArguments :: rest) :
    ∃ behind, steps = .call arguments typeArguments :: behind := by
  have grouped := flatMap_steps_levels steps
  rw [begins, List.flatMap_cons] at grouped
  exact ⟨rest.flatMap Level.steps, grouped.symm⟩

/-- **The levels of steps are unsplit.** -/
theorem unsplit_levels (steps : List Step) : Unsplit (levels steps) := by
  fun_induction levels steps with
  | case1 => exact unsplit_nil
  | case2 property arguments typeArguments rest ih =>
    refine unsplit_cons.2 ⟨?_, ih⟩
    intro _ _ _ _ isMember
    cases isMember
  | case3 property rest alone ih =>
    refine unsplit_cons.2 ⟨?_, ih⟩
    intro _ arguments typeArguments _ _ begins
    obtain ⟨behind, isCall⟩ := call_of_levels begins
    exact alone arguments typeArguments behind isCall
  | case4 arguments typeArguments rest ih =>
    refine unsplit_cons.2 ⟨?_, ih⟩
    intro _ _ _ _ isMember
    cases isMember

/-- The steps of unsplit levels begin with a call just if the levels do. -/
theorem call_of_steps {ls : List Level} {arguments : List Node}
    {typeArguments : Node} {rest : List Step}
    (begins : ls.flatMap Level.steps = .call arguments typeArguments :: rest) :
    ∃ behind, ls = .call arguments typeArguments :: behind := by
  cases ls with
  | nil => simp at begins
  | cons l ls =>
    rw [List.flatMap_cons] at begins
    cases l with
    | member property => simp [Level.steps] at begins
    | method property own ownTypes => simp [Level.steps] at begins
    | call own ownTypes =>
      simp only [Level.steps, List.singleton_append, List.cons.injEq,
        Step.call.injEq] at begins
      obtain ⟨⟨rfl, rfl⟩, -⟩ := begins
      exact ⟨ls, rfl⟩

/-- **Grouping the steps of unsplit levels gives the levels back.** -/
theorem levels_flatMap_steps {ls : List Level} (unsplit : Unsplit ls) :
    levels (ls.flatMap Level.steps) = ls := by
  induction ls with
  | nil => rfl
  | cons l ls ih =>
    obtain ⟨first, rest⟩ := unsplit_cons.1 unsplit
    have behind := ih rest
    rw [List.flatMap_cons]
    cases l with
    | member property =>
      have alone : ∀ arguments typeArguments more,
          ls.flatMap Level.steps ≠ .call arguments typeArguments :: more := by
        intro arguments typeArguments more begins
        obtain ⟨others, isCall⟩ := call_of_steps begins
        exact first property arguments typeArguments others rfl isCall
      rw [Level.steps, List.singleton_append, levels, behind]
      exact alone
    | call arguments typeArguments =>
      rw [Level.steps, List.singleton_append, levels, behind]
    | method property arguments typeArguments =>
      rw [Level.steps, List.cons_append, List.singleton_append, levels, behind]

/-- **The levels of steps are their only unsplit grouping.** A list of levels
has the given steps in their order, keys, arguments and type arguments included,
and leaves no call behind a property access of its own, just if it is the list
of levels of the steps. -/
theorem levels_only_grouping (steps : List Step) (ls : List Level) :
    ls.flatMap Level.steps = steps ∧ Unsplit ls ↔ ls = levels steps := by
  constructor
  · intro h
    obtain ⟨grouped, unsplit⟩ := h
    rw [← grouped, levels_flatMap_steps unsplit]
  · intro same
    rw [same]
    exact ⟨flatMap_steps_levels steps, unsplit_levels steps⟩

end NullGuard.Chain
