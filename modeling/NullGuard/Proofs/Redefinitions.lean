import NullGuard.Proofs.PlannedCalls
import NullGuard.Proofs.Remarks
import NullGuard.Proofs.TextOrder

/-!
# What is reported of a redefinition

A helper that is declared again or assigned to is no constant, and a program
with such a helper has no plan (`plan_fails_iff`). The rejection is about the
first such helper. It names one of the violations: the first further
declaration, or the assignment that starts first if the helper is declared once
(`named_of_error`).

The table lists further declarations as the analysis comes by them. In a script
that is the order of the text (`places_ascending`), so the rejection names the
further declaration that starts first, and says that the helper is declared
where the first of its declarations stands (`redefinition_reported`). An
assignment in front of the first further declaration is not named, although it
starts before it.
-/

namespace NullGuard.Transform

open NullGuard.Text (Span)
open NullGuard.Tree NullGuard.Scope

/-- Where a binding is assigned to. -/
def writesTo (t : Table) (binding : Nat) : List (Option Span) :=
  ((t.referencesTo binding).filter fun r => r.kind == .write).map Reference.span

/-- Where a binding is declared again or assigned to. -/
def violations (t : Table) (binding : Nat) : List (Option Span) :=
  (t.bindings.getD binding default).redeclarations ++ writesTo t binding

/-- What the span of a rejection is for the binding of a helper. -/
structure Named (t : Table) (binding : Nat) (b : Binding) (span : Option Span) :
    Prop where
  /-- It is the first further declaration that is listed, if there are any. -/
  redeclared : b.redeclarations ≠ [] → b.redeclarations.head? = some span
  /-- Otherwise it is the assignment that starts first. -/
  written : b.redeclarations = [] → span ∈ writesTo t binding ∧
    ∀ s ∈ writesTo t binding, startOf span ≤ startOf s

/-- What the span of a rejection is where declarations are listed as they
stand. -/
structure Reported (t : Table) (binding : Nat) (b : Binding)
    (span : Option Span) : Prop where
  /-- It is the span of a violation. -/
  violates : span ∈ violations t binding
  /-- No violation starts before it, save for assignments to a name that is
  declared again. -/
  first : ∀ s ∈ violations t binding, startOf span ≤ startOf s ∨
    s ∈ writesTo t binding ∧
    b.redeclarations ≠ []
  /-- It is the span of a declaration if the name is declared again. -/
  redeclared : b.redeclarations ≠ [] → span ∈ b.redeclarations
  /-- All further declarations start behind the first one. -/
  declaredFirst : ∀ s ∈ b.redeclarations, startOf b.span < startOf s

section Tables

variable {t : Table} {d : HelperDeclaration} {e : Rejection}

/-- The earliest of several spans is one of them, and none starts before it. -/
theorem earliest?_eq_some {l : List (Option Span)} {s : Option Span}
    (found : earliest? l = some s) :
    s ∈ l ∧ ∀ s' ∈ l, startOf s ≤ startOf s' := by
  induction l generalizing s with
  | nil => cases found
  | cons head rest ih =>
    unfold earliest? at found
    split at found
    · rename_i other behind
      obtain ⟨mem, least⟩ := ih behind
      split at found
      · rename_i before
        cases found
        refine ⟨List.mem_cons_of_mem _ mem,
          List.forall_mem_cons.2 ⟨Nat.le_of_lt before, least⟩⟩
      · rename_i notBefore
        cases found
        have le := Nat.le_of_not_lt notBefore
        exact ⟨List.mem_cons_self, List.forall_mem_cons.2
          ⟨Nat.le_refl _, fun s' hs' => Nat.le_trans le (least s' hs')⟩⟩
    · rename_i behind
      cases found
      have none := earliest?_eq_none behind
      subst none
      exact ⟨List.mem_cons_self, List.forall_mem_singleton.2 (Nat.le_refl _)⟩

/-- A helper with a plan is declared once and never assigned to. -/
theorem violations_of_planned {h : HelperPlan}
    (planned : planHelper t d = .ok h) :
    violations t d.binding = [] := by
  have writes : writesTo t d.binding = [] := by
    rw [writesTo, List.map_eq_nil_iff, List.filter_eq_nil_iff]
    intro r hr written
    exact (attributed_of_planHelper planned).noWrite r hr (beq_iff_eq.1 written)
  rw [violations, (declared_of_planHelper planned).1, writes]
  rfl

/-- **A rejection names the first further declaration**, or the assignment that
starts first if there is none. -/
theorem planHelper_error (failed : planHelper t d = .error e) :
    ∃ span, e = .redefinition span (t.bindings.getD d.binding default).span ∧
      ((∃ rest, (t.bindings.getD d.binding default).redeclarations = span ::
        rest) ∨ (t.bindings.getD d.binding default).redeclarations = [] ∧
        span ∈ writesTo t d.binding ∧ ∀ s ∈ writesTo t d.binding,
          startOf span ≤ startOf s) := by
  unfold planHelper at failed
  dsimp only at failed
  split at failed
  · rename_i again rest redeclared
    cases failed
    exact ⟨again, rfl, .inl ⟨rest, redeclared⟩⟩
  · rename_i once
    split at failed
    · rename_i written found
      cases failed
      exact ⟨written, rfl, .inr ⟨once, earliest?_eq_some found⟩⟩
    · cases failed

/-- **A plan fails at the first helper that has none.** -/
theorem plan_error (failed : Transform.plan t = .error e) :
    ∃ before d after, t.helpers = before ++ d :: after ∧ (∀ d' ∈ before,
      violations t d'.binding = []) ∧ planHelper t d = .error e := by
  have each {ds : List HelperDeclaration} (failed : ds.mapM (planHelper t) =
      .error e) : ∃ before d after, ds = before ++ d :: after ∧ (∀ d' ∈ before,
      violations t d'.binding = []) ∧ planHelper t d = .error e := by
    induction ds with
    | nil => cases failed
    | cons d ds ih =>
      rw [List.mapM_cons] at failed
      cases here : planHelper t d with
      | error e' =>
        rw [here] at failed
        cases failed
        exact ⟨[], d, ds, rfl, nofun, here⟩
      | ok h =>
        cases rest : ds.mapM (planHelper t) with
        | ok hs =>
          rw [here, rest] at failed
          cases failed
        | error e' =>
          rw [here, rest] at failed
          cases failed
          obtain ⟨before, d', after, rfl, fine, failing⟩ := ih rest
          exact ⟨d :: before, d', after, rfl,
            List.forall_mem_cons.2 ⟨violations_of_planned here, fine⟩, failing⟩
  cases all : t.helpers.mapM (planHelper t) with
  | ok hs =>
    rw [Transform.plan, all] at failed
    cases failed
  | error e' =>
    rw [Transform.plan, all] at failed
    cases failed
    exact each all

/-- **There is no plan just if some helper is declared again or assigned
to.** -/
theorem plan_fails_iff :
    (∃ e, Transform.plan t = .error e) ↔ ∃ d ∈ t.helpers,
      violations t d.binding ≠ [] := by
  constructor
  · rintro ⟨e, failed⟩
    obtain ⟨before, d, after, all, -, failing⟩ := plan_error failed
    refine ⟨d, all ▸ List.mem_append_right _ List.mem_cons_self, fun none => ?_⟩
    obtain ⟨once, writes⟩ := List.append_eq_nil_iff.1 none
    obtain ⟨span, -, ⟨rest, redeclared⟩ | ⟨-, written, -⟩⟩ :=
      planHelper_error failing
    · rw [once] at redeclared
      cases redeclared
    · rw [writes] at written
      cases written
  · rintro ⟨d, hd, violated⟩
    cases planned : Transform.plan t with
    | error e => exact ⟨e, rfl⟩
    | ok plan =>
      obtain ⟨h, -, here⟩ := exists_of_forall₂ (planned_each planned).flip hd
      exact absurd (violations_of_planned here) violated

/-- **What a rejection names** is about the binding of its helper. -/
theorem named_of_error {b : Binding} (there : t.bindings[d.binding]? = some b)
    (failed : planHelper t d = .error e) :
    ∃ span, e = .redefinition span b.span ∧ Named t d.binding b span := by
  have same : t.bindings.getD d.binding default = b := by
    rw [List.getD_eq_getElem?_getD, there, Option.getD_some]
  obtain ⟨span, told, reported⟩ := planHelper_error failed
  rw [same] at told reported
  refine ⟨span, told, ?_⟩
  rcases reported with ⟨rest, redeclared⟩ | ⟨once, written, least⟩
  · refine ⟨fun _ => by rw [redeclared, List.head?_cons], fun none => ?_⟩
    rw [redeclared] at none
    cases none
  · exact ⟨fun more => absurd once more, fun _ => ⟨written, least⟩⟩

/-- Where further declarations are listed in the order of the text, and behind
the first one, what is named first starts first. -/
theorem Named.reported {b : Binding} {span : Option Span}
    (there : t.bindings[d.binding]? = some b)
    (ascending : Ascending b.places)
    (named : Named t d.binding b span) : Reported t d.binding b span := by
  obtain ⟨declaredFirst, again⟩ := List.pairwise_cons.1 ascending
  have either {s : Option Span} : s ∈ violations t d.binding ↔
      s ∈ b.redeclarations ∨ s ∈ writesTo t d.binding := by
    rw [violations, List.getD_eq_getElem?_getD, there, Option.getD_some,
      List.mem_append]
  cases listed : b.redeclarations with
  | nil =>
    obtain ⟨written, least⟩ := named.written listed
    refine ⟨either.2 (.inr written), fun s hs => ?_,
      fun more => absurd listed more, declaredFirst⟩
    rcases either.1 hs with hs | hs
    · rw [listed] at hs
      cases hs
    · exact .inl (least s hs)
  | cons first rest =>
    have isFirst : first = span := by
      have head := named.redeclared (by rw [listed]; exact List.cons_ne_nil _ _)
      rwa [listed, List.head?_cons, Option.some_inj] at head
    subst isFirst
    have here : first ∈ b.redeclarations := listed ▸ List.mem_cons_self
    refine ⟨either.2 (.inl here), fun s hs => ?_, fun _ => here, declaredFirst⟩
    rcases either.1 hs with hs | hs
    · rw [listed] at hs again
      rcases List.mem_cons.1 hs with rfl | behind
      · exact .inl (Nat.le_refl _)
      · exact .inl (Nat.le_of_lt (List.rel_of_pairwise_cons again behind))
    · exact .inr ⟨hs, List.ne_nil_of_mem here⟩

end Tables

section Programs

variable {m : String} {n : Node} {a : Analysis} {e : Rejection}

/-- A rejection for a helper, and what it names. -/
theorem rejected_of_error (analyzed : analyze m n = .ok a)
    (failed : Transform.plan a.table = .error e) :
    ∃ before d after b span, a.table.helpers = before ++ d :: after ∧
      (∀ d' ∈ before, violations a.table d'.binding = []) ∧
      a.table.bindings[d.binding]? = some b ∧
      e = .redefinition span b.span ∧ Named a.table d.binding b span := by
  rw [table_of_analyze analyzed] at failed ⊢
  obtain ⟨before, d, after, all, fine, failing⟩ := plan_error failed
  have isHelper : d ∈ (Table.ofOutline (outline m n)).helpers :=
    all ▸ List.mem_append_right _ List.mem_cons_self
  obtain ⟨b, there⟩ :
      ∃ b, (Table.ofOutline (outline m n)).bindings[d.binding]? = some b := by
    rcases (Table.learned_addAll {} [0] (outline m n)).helpers d isHelper with
      none | ⟨x, s, k, -, b, there, -⟩
    · cases none
    · exact ⟨b, there⟩
  obtain ⟨span, told, named⟩ := named_of_error there failing
  exact ⟨before, d, after, b, span, all, fine, there, told, named⟩

/-- **A redefinition is reported at its first further declaration**, or at its
first assignment if there is none. A program has no plan just if some helper is
declared again or assigned to. Then all helpers that the analysis comes by
before the reported one are declared once and not assigned to, and the rejection
says where the reported one is declared first.

The first further declaration is the one that the analysis comes by first. In a
script it is also the first one in the text, behind the first declaration. -/
theorem redefinition_reported (analyzed : analyze m n = .ok a) :
    ((∃ e, Transform.plan a.table = .error e) ↔
      ∃ d ∈ a.table.helpers, violations a.table d.binding ≠ []) ∧
    ∀ e, Transform.plan a.table = .error e →
      ∃ before d after b span, a.table.helpers = before ++ d :: after ∧
        (∀ d' ∈ before, violations a.table d'.binding = []) ∧
        a.table.bindings[d.binding]? = some b ∧
        e = .redefinition span b.span ∧ Named a.table d.binding b span ∧
        (isProgram n.kind = true → isScript n = true → regular n = true →
          isOrdered n = true → Reported a.table d.binding b span) := by
  refine ⟨plan_fails_iff, fun e failed => ?_⟩
  obtain ⟨before, d, after, b, span, all, fine, there, told, named⟩ :=
    rejected_of_error analyzed failed
  refine ⟨before, d, after, b, span, all, fine, there, told, named, ?_⟩
  intro program script isRegular ordered
  have listed := List.mem_of_getElem? there
  rw [table_of_analyze analyzed] at listed
  exact named.reported there
    (places_ascending program script isRegular ordered listed)

/-- `var idx = require('idx'); idx = null; var idx = 2;` -/
def overwrittenHelper : Node :=
  readAt (.program false none) 0 50 [ readAt (.varDecl .var false) 0 25
    [ readAt (.declarator false) 4 24 [readAt (.bindingIdent "idx" false) 4 7
    [.none], readAt .call 10 24 [readAt (.ident "require") 10 17 [],
    .ofList [readAt (.str "'idx'" (some "idx")) 18 23 []], .none]]],
    readAt .exprStmt 26 37 [readAt (.assign .plain) 26 36
    [readAt (.ident "idx") 26 29 [], readAt .null 32 36 []]], readAt
    (.varDecl .var false) 38 50 [ readAt (.declarator false) 42 49 [readAt
    (.bindingIdent "idx" false) 42 45 [.none], readAt (.num "2") 48 49 []]]]

/-- The second declaration of a helper is reported, and not the assignment in
front of it. -/
theorem redefinition_reported_overwrittenHelper :
    ∃ a e, analyze "idx" overwrittenHelper = .ok a ∧
      Transform.plan a.table = .error e ∧
      e = .redefinition (some ⟨42, 45⟩) (some ⟨4, 7⟩) ∧
      some ⟨26, 29⟩ ∈ violations a.table 0 ∧
      (∃ d ∈ a.table.helpers, violations a.table d.binding ≠ []) ∧
      ∃ before d after b span, a.table.helpers = before ++ d :: after ∧
        (∀ d' ∈ before, violations a.table d'.binding = []) ∧
        a.table.bindings[d.binding]? = some b ∧
        e = .redefinition span b.span ∧ Named a.table d.binding b span ∧
        Reported a.table d.binding b span := by
  obtain ⟨a, analyzed⟩ : ∃ a, analyze "idx" overwrittenHelper = .ok a :=
    ⟨_, rfl⟩
  obtain ⟨e, failed⟩ : ∃ e, Transform.plan a.table = .error e := by
    cases analyzed
    exact ⟨_, rfl⟩
  obtain ⟨fails, reported⟩ := redefinition_reported analyzed
  obtain ⟨before, d, after, b, span, all, fine, there, told, named, listed⟩ :=
    reported e failed
  refine ⟨a, e, analyzed, failed, ?_, ?_, fails.1 ⟨e, failed⟩,
    before, d, after, b, span, all, fine, there, told, named,
    listed rfl (by decide +kernel) (by decide +kernel) (by decide +kernel)⟩
  · cases analyzed
    cases failed
    rfl
  · cases analyzed
    decide +kernel

end Programs

end NullGuard.Transform
