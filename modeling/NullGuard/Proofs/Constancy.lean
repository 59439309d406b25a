import NullGuard.Proofs.Redeclarations
import NullGuard.Proofs.Redefinitions
import NullGuard.Proofs.Stems

/-!
# Helpers stay constant

The result of a transformation is a program of its own, and when it is planned,
its helpers may be declared twice or assigned to, or called where nothing was a
call of the helper. They are not, if every call that was rewritten needed a
temporary and the parameters that go away are only read (`ParametersRead`).

A helper of the result is one of the program, and it is declared in as many
places as it was: its places are those in a frame of the result, and a frame has
no more than one of the program had (`helper_stems`). What calls or assigns to
it in the result did so in the program (`used_before`), and a reference that is
left means what it meant. So the result has a plan (`planned_result`), and what
is a call to rewrite in it was one in the program (`targets_stem`).

A parameter that is assigned to in its callback is left without its declaration,
and can come to mean a helper of its name.
-/

namespace NullGuard.Transform

open NullGuard.Text (Span)
open NullGuard.Tree NullGuard.Scope

section Contents

variable {os : List Outline}

/-- The frames in outlines are what they hold as frames. -/
theorem frame_mem_contentsAll {f : List Declared} :
    .frame f ∈ contentsAll os ↔ f ∈ framesAll os := by
  induction os using outlines_induct with
  | nil => exact iff_of_false List.not_mem_nil List.not_mem_nil
  | leaf o os isLeaf ih =>
    rw [contentsAll, framesAll, List.mem_append, List.mem_append, ih]
    refine or_congr ?_ Iff.rfl
    cases o with
    | scope k inside => cases isLeaf
    | _ => simp [contents, frames]
  | scope k inside os inner ih =>
    rw [contentsAll, framesAll, List.mem_append, List.mem_append, ih]
    simp [contents, frames, inner]

/-- The references of a program that assign to a name are what its outline holds
as such. -/
theorem write_mem_contentsAll {x : String} {s : Option Span} :
    .use x s true ∈ contentsAll os ↔ ∃ r ∈ (Table.ofOutline os).references,
      r.name = x ∧ r.span = s ∧ r.kind = .write := by
  have among (frames : List (List Declared)) :
      .use x s true ∈ contentsAll os ↔ ∃ u ∈ resolvedAll frames os,
        u.name = x ∧ u.span = s ∧ u.kind = .write := by
    induction os using outlines_induct generalizing frames with
    | nil => exact iff_of_false List.not_mem_nil nofun
    | leaf o os isLeaf ih =>
      rw [contentsAll, List.mem_append, ih frames, resolvedAll]
      simp only [List.mem_append, or_and_right, exists_or]
      refine or_congr ?_ Iff.rfl
      cases o with
      | scope k inside => cases isLeaf
      | reference y t k =>
        simp [contents, resolved, eq_comm (a := x), eq_comm (a := s)]
      | _ => simp [contents, resolved]
    | scope k inside os inner ih =>
      rw [contentsAll, List.mem_append, ih frames, resolvedAll]
      simp only [List.mem_append, or_and_right, exists_or]
      refine or_congr ?_ Iff.rfl
      rw [contents, resolved, ← inner]
      simp
  rw [among [reachingAll .root os], ← Table.resolve_ofOutline]
  simp [Table.resolution]

end Contents

/-- The parameters of callbacks that go away are only read: what calls or
assigns to a name means none of them. -/
def ParametersRead (t : Table) (plan : Plan) (tree : Node) : Prop :=
  ∀ r ∈ t.references, r.kind ≠ .read → ∀ d,
    t.meaning r.scope r.name = some d → d.span ∉ movedParameters plan tree

namespace Performed

variable {options : Options} {tree : Node} {comments : CommentMap}
  {transformed : Transformed}

/-- **Every rewritten call needs a temporary**, where the callbacks of all
planned calls lead through a step. -/
theorem guarded_of_leads (p : Performed options tree comments transformed)
    (wellRead : WellRead tree)
    (led : ∀ n ∈ subnodes tree, leads p.plan n = true) :
    transformed.report.temporaries.length =
      transformed.report.callsRewritten := by
  obtain ⟨h, a, rewritten, adv, made⟩ := p.rewrites
  obtain ⟨b, i, s, ns, ns', names, h', rfl, -, -, children, -⟩ :=
    rewrites_program wellRead.isProgram rewritten
  obtain ⟨-, below, -⟩ := regular_node.1 wellRead.regular
  have guarded : AllGuarded a := by
    refine rewrites_guarded children fun m hm => ?_
    obtain ⟨n, hn, inside⟩ := mem_subnodesAmong.1 hm
    exact ⟨led m (mem_subnodes_node.2 (.inr hm)),
      (mem_subnodes.1 inside).regular (below n hn)⟩
  have length : (temporaries a).length = a.length :=
    List.filterMap_length_eq_length.2 guarded
  have calls : transformed.report.callsRewritten = a.length := by
    rw [p.report]
    exact adv.calls.trans (Nat.zero_add _)
  rw [calls, ← length, ← (made rfl).length_eq, List.length_map]

/-- **What the result declares was declared**: where it declares a name of the
program, in the order of one of its frames. -/
theorem places_before (p : Performed options tree comments transformed)
    (wellRead : WellRead tree) (plain : isPlain tree = true)
    (apart : DeclaredApart tree) {b' : Binding} (hb' : b' ∈ (Table.ofOutline
      (outline options.importName transformed.tree)).bindings)
    (known : b'.name ∈ identifiers tree) :
    ∃ f ∈ reachingAll .root (outline options.importName tree) ::
        framesAll (outline options.importName tree),
      b'.places.Sublist (placesOf b'.name f) := by
  have carried := p.carries wellRead plain apart
  have notNew : ¬ p.edit.isNew b'.name := fun isNew => isNew known
  obtain ⟨f', hf', same⟩ := Table.places_of_binding hb'
  rw [same]
  rcases List.mem_cons.1 hf' with rfl | inner
  · exact ⟨_, List.mem_cons_self,
      (carried.fewer .root b'.name).resolve_left notNew⟩
  · obtain ⟨f, there, fewer⟩ :=
      carried.holds _ (frame_mem_contentsAll.2 inner)
    have sublist := (fewer b'.name).resolve_left notNew
    rcases there with rfl | there
    · exact ⟨_, List.mem_cons_self, sublist.trans (List.nil_sublist _)⟩
    · exact ⟨f, List.mem_cons_of_mem _ (frame_mem_contentsAll.1 there), sublist⟩

/-- **A helper of the result is one of the program**, declared in one place: it
has a name of the program, and what the program declares there is a helper. -/
theorem helper_stems (p : Performed options tree comments transformed)
    (wellRead : WellRead tree) (written : Written tree)
    (plain : isPlain tree = true) (apart : DeclaredApart tree)
    (guarded : transformed.report.temporaries.length =
      transformed.report.callsRewritten) {d' : HelperDeclaration}
    (hd' : d' ∈ (Table.ofOutline
      (outline options.importName transformed.tree)).helpers) :
    ∃ b', (Table.ofOutline (outline options.importName
        transformed.tree)).bindings[d'.binding]? = some b' ∧
      b'.redeclarations = [] ∧ b'.name ∈ identifiers tree ∧
      BindsHelper b'.span p.analysis.table := by
  obtain ⟨h, a, rewritten, adv, made⟩ := p.rewrites
  have stemming := p.stemming wellRead rewritten
    (p.allGuarded adv (made wellRead.isProgram) guarded)
  obtain ⟨x, place, ⟨n', hn', introduces', -⟩, b', bound, rfl, here⟩ :=
    introduced_of_helper (p.regular_result wellRead) hd'
  obtain ⟨n, hn, introduces⟩ :=
    p.introduced_before wellRead written plain stemming hn' introduces'
  have binds :=
    isHelper_of_introduces wellRead.regular wellRead.distinct hn introduces
  rw [← p.table_eq] at binds
  have known : b'.name ∈ identifiers tree := mem_identifiers.2
    ⟨_, (mem_subnodes.1 hn).mentions introduces.mem_mentions, rfl⟩
  obtain ⟨f, hf, fewer⟩ :=
    p.places_before wellRead plain apart (List.mem_of_getElem? bound) known
  have declared : place ∈ placesOf b'.name f := fewer.subset here
  obtain ⟨b, hb, -, same⟩ :=
    Table.binding_of_frame hf (List.ne_nil_of_mem declared)
  rw [← p.table_eq] at hb
  obtain ⟨id, there⟩ := List.mem_iff_getElem?.1 hb
  obtain ⟨d, hd, rfl⟩ := binds id b there (same ▸ declared)
  have once : b.redeclarations = [] := by
    obtain ⟨_, -, planHelper⟩ :=
      exists_of_forall₂ (planned_each p.planned).flip hd
    have once := (declared_of_planHelper planHelper).1
    rwa [List.getD_eq_getElem?_getD, there] at once
  have once' : b'.redeclarations = [] := by
    have bound := fewer.length_le
    rw [← same, Binding.places, Binding.places, once, List.length_cons,
      List.length_singleton] at bound
    exact List.length_eq_zero_iff.1 (by omega)
  exact ⟨b', bound, once', known, b'.span_of_once once' here ▸ binds⟩

/-- **What is called or assigned to was so before**, where its name is one of
the program. -/
theorem used_before (p : Performed options tree comments transformed)
    (wellRead : WellRead tree) (script : isScript tree = true)
    (apart : DeclaredApart tree)
    (guarded : transformed.report.temporaries.length =
      transformed.report.callsRewritten) {r' : Reference}
    (hr' : r' ∈ (Table.ofOutline
      (outline options.importName transformed.tree)).references)
    (notRead : r'.kind ≠ .read) (known : r'.name ∈ identifiers tree) :
    ∃ r ∈ p.analysis.table.references, r.span = r'.span ∧
      r.kind = r'.kind := by
  have plain : isPlain tree = true := (Bool.and_eq_true_iff.1 script).1
  rw [p.table_eq]
  cases kind : r'.kind with
  | read => exact absurd kind notRead
  | callee =>
    obtain ⟨h, a, rewritten, adv, made⟩ := p.rewrites
    have stemming := p.stemming wellRead rewritten
      (p.allGuarded adv (made wellRead.isProgram) guarded)
    obtain ⟨n', hn', calls'⟩ :=
      called_of_callee (p.regular_result wellRead) hr' kind
    rcases p.called_before wellRead stemming hn' calls'
      with ⟨-, made⟩ | ⟨n, hn, calls⟩
    · have unused := adv.fresh _ made
      rw [p.used_eq, List.mem_eraseDups] at unused
      exact absurd known unused
    · obtain ⟨r, hr, -, here, isCallee⟩ := callee_of_called script
        wellRead.regular wellRead.isProgram wellRead.distinct hn calls
      exact ⟨r, hr, here, isCallee⟩
  | write =>
    rcases (p.carries wellRead plain apart).holds (.use r'.name r'.span true)
      (write_mem_contentsAll.2 ⟨r', hr', rfl, rfl, kind⟩)
      with isNew | ⟨w, there, keeps⟩
    · exact absurd known isNew
    · obtain rfl := keeps guarded rfl
      obtain ⟨r, hr, -, here, isWrite⟩ := write_mem_contentsAll.1 there
      exact ⟨r, hr, here, isWrite⟩

/-- **What calls or assigns to a helper in the result** called or assigned to
one in the program, in the same way. -/
theorem helper_used_before (p : Performed options tree comments transformed)
    (wellRead : WellRead tree) (written : Written tree)
    (script : isScript tree = true) (apart : DeclaredApart tree)
    (guarded : transformed.report.temporaries.length =
      transformed.report.callsRewritten)
    (onlyRead : ParametersRead p.analysis.table p.plan tree)
    {d' : HelperDeclaration} (hd' : d' ∈ (Table.ofOutline
      (outline options.importName transformed.tree)).helpers)
    {r' : Reference} (hr' : r' ∈ (Table.ofOutline (outline options.importName
      transformed.tree)).referencesTo d'.binding) (notRead : r'.kind ≠ .read) :
    ∃ d ∈ p.analysis.table.helpers,
      ∃ r ∈ p.analysis.table.referencesTo d.binding, r.span = r'.span ∧
        r.kind = r'.kind := by
  have plain : isPlain tree = true := (Bool.and_eq_true_iff.1 script).1
  obtain ⟨b', bound, -, known, binds⟩ :=
    p.helper_stems wellRead written plain apart guarded hd'
  obtain ⟨isUsed, resolved⟩ := List.mem_filter.1 hr'
  rw [beq_iff_eq] at resolved
  obtain ⟨_, bound', named, -⟩ := Table.resolve_eq_some.1 resolved
  cases bound.symm.trans bound'
  obtain ⟨r, hr, here, kind⟩ :=
    p.used_before wellRead script apart guarded isUsed notRead (named ▸ known)
  have left : r.span ∈ spans transformed.tree := by
    rw [here, ← spansAmong_single]
    exact span_mem_of_use (mem_uses_root.2 ⟨r', isUsed, rfl⟩)
  rcases p.keepsMeaning wellRead plain apart hr left with
    ⟨r'', only, -, same⟩ | ⟨d, means, moved⟩
  · obtain rfl : r' = r'' := (only r').1 ⟨isUsed, here.symm⟩
    obtain ⟨id, resolves, declared⟩ : ∃ id,
        p.analysis.table.resolve r.scope r.name = some id ∧
        Table.declaredOf (p.analysis.table.bindings.getD id default) =
          Table.declaredOf b' := by
      refine Option.map_eq_some_iff.1 (same.symm.trans ?_)
      rw [Table.meaning, resolved, Option.map_some,
        List.getD_eq_getElem?_getD, bound, Option.getD_some]
    obtain ⟨b, there, -⟩ :
        ∃ b, p.analysis.table.bindings[id]? = some b ∧ _ := by
      rw [p.table_eq] at resolves ⊢
      exact Table.resolve_eq_some.1 resolves
    rw [List.getD_eq_getElem?_getD, there, Option.getD_some] at declared
    have place : b.span = b'.span := congrArg Declared.span declared
    obtain ⟨d, hd, rfl⟩ := binds id b there (place ▸ List.mem_cons_self)
    exact ⟨d, hd, r, List.mem_filter.2 ⟨hr, beq_iff_eq.2 resolves⟩, here, kind⟩
  · exact absurd moved (onlyRead r hr (kind ▸ notRead) d means)

/-- **The result has a plan**: none of its helpers is declared again or assigned
to. -/
theorem planned_result (p : Performed options tree comments transformed)
    (wellRead : WellRead tree) (written : Written tree)
    (script : isScript tree = true) (apart : DeclaredApart tree)
    (guarded : transformed.report.temporaries.length =
      transformed.report.callsRewritten)
    (onlyRead : ParametersRead p.analysis.table p.plan tree) :
    ∃ plan', Transform.plan (Table.ofOutline
      (outline options.importName transformed.tree)) = .ok plan' := by
  have plain : isPlain tree = true := (Bool.and_eq_true_iff.1 script).1
  cases planned : Transform.plan (Table.ofOutline
      (outline options.importName transformed.tree)) with
  | ok plan' => exact ⟨plan', rfl⟩
  | error e =>
    obtain ⟨d', hd', violated⟩ := plan_fails_iff.1 ⟨e, planned⟩
    obtain ⟨b', bound, once, -⟩ :=
      p.helper_stems wellRead written plain apart guarded hd'
    refine absurd ?_ violated
    rw [violations, writesTo, List.append_eq_nil_iff, List.map_eq_nil_iff,
      List.filter_eq_nil_iff, List.getD_eq_getElem?_getD, bound]
    refine ⟨once, fun r' hr' isWrite => ?_⟩
    rw [beq_iff_eq] at isWrite
    obtain ⟨d, hd, r, hr, -, kind⟩ := p.helper_used_before wellRead written
      script apart guarded onlyRead hd' hr' (by rw [isWrite]; decide)
    obtain ⟨_, -, planHelper⟩ :=
      exists_of_forall₂ (planned_each p.planned).flip hd
    exact (attributed_of_planHelper planHelper).noWrite r hr
      (kind.trans isWrite)

/-- **What is a call to rewrite in the result was one in the program**, where
every call that was rewritten needed a temporary. -/
theorem targets_stem (p : Performed options tree comments transformed)
    (wellRead : WellRead tree) (written : Written tree)
    (script : isScript tree = true) (apart : DeclaredApart tree)
    (guarded : transformed.report.temporaries.length =
      transformed.report.callsRewritten)
    (onlyRead : ParametersRead p.analysis.table p.plan tree) {plan' : Plan}
    (planned' : Transform.plan (Table.ofOutline
      (outline options.importName transformed.tree)) = .ok plan')
    {s : Option Span} (isTarget : plan'.isTarget s = true) :
    p.plan.isTarget s = true := by
  obtain ⟨r', hr', calls, rfl⟩ :=
    (isTarget_iff (attributed_of_plan planned')).1 isTarget
  rw [callsHelper, Bool.and_eq_true, beq_iff_eq, List.any_eq_true] at calls
  obtain ⟨isCallee, d', hd', resolved⟩ := calls
  obtain ⟨d, hd, r, hr, here, kind⟩ := p.helper_used_before wellRead written
    script apart guarded onlyRead hd' (List.mem_filter.2 ⟨hr', resolved⟩)
    (by rw [isCallee]; decide)
  obtain ⟨isUsed, resolves⟩ := List.mem_filter.1 hr
  refine (isTarget_iff (attributed_of_plan p.planned)).2 ⟨r, isUsed, ?_, here⟩
  rw [callsHelper, kind, isCallee]
  exact List.any_eq_true.2 ⟨d, hd, resolves⟩

end Performed

end NullGuard.Transform
