import NullGuard.Proofs.PlainScripts

/-!
# What an edit of a program carries over

An edit moves the pieces of a program, drops some declarations and adds others
with new names. An outline is *carried over* to another one (`Carries`) if

* what comes out of it comes out of the other one as well, but for names that
  are new and declarations that go away;
* what is left of its uses is used in the other one, and means the same
  declaration, wherever both stand in frames that agree on names;
* the other one declares and uses nothing more, but for names that are new: in
  each of its frames names are declared where they are in one of the first
  one's, in the same order, and where the edit keeps writes it assigns to
  nothing else (`Edit.Holds`);
* the other one has no malformed import if it has none.

This is kept by putting outlines together (`composed_carries`), so that a
rewrite can be followed node by node. Whether a name is called or read does not
count: a call in parentheses can become a callee. Up to that, calls say what
their parts say (`synonymous_call`), and a declarator of the helper is one like
others (`synonymous_declarator`). The target of an assignment is looked at by
itself (`saidTarget`), since it is written if it is a bare identifier.
-/

namespace NullGuard.Scope

open NullGuard.Text (Span)
open NullGuard.Tree

/-- A use of a name with what it means, in whatever way it is used. -/
structure Use where
  name : String
  span : Option Span
  means : Option Declared
deriving DecidableEq, Repr

/-- A use, without the way the name is used. -/
def Resolved.use (u : Resolved) : Use :=
  ⟨u.name, u.span, u.means⟩

/-- The uses in several outlines, given the frames around them. -/
def uses (frames : List (List Declared)) (os : List Outline) : List Use :=
  (resolvedAll frames os).map Resolved.use

section Uses

variable {frames : List (List Declared)}

@[simp] theorem uses_nil : uses frames [] = [] :=
  rfl

@[simp] theorem uses_append (os os' : List Outline) :
    uses frames (os ++ os') = uses frames os ++ uses frames os' := by
  rw [uses, resolvedAll_append, List.map_append]
  rfl

theorem uses_cons (o : Outline) (os : List Outline) :
    uses frames (o :: os) = uses frames [o] ++ uses frames os := by
  rw [← List.singleton_append, uses_append]

@[simp] theorem uses_scope (k : ScopeKind) (os : List Outline) :
    uses frames [.scope k os] =
      uses (reachingAll (.own k) os :: frames) os := by
  rw [uses, resolvedAll, resolvedAll, List.append_nil]
  rfl

@[simp] theorem uses_reference (x : String) (s : Option Span)
    (k : ReferenceKind) :
    uses frames [.reference x s k] = [⟨x, s, lookUp frames x⟩] :=
  rfl

@[simp] theorem reachingAll_scope (r : Reach) (k : ScopeKind)
    (os : List Outline) :
    reachingAll r [.scope k os] = reachingAll (r.through k) os := by
  rw [reachingAll, reachingAll, List.append_nil]
  rfl

/-- What stands in an outline, whatever is around it. -/
inductive Content where
  /-- A name that is used, and whether it is assigned to. -/
  | use (name : String) (span : Option Span) (isWritten : Bool)
  /-- The declarations in a scope. -/
  | frame (declared : List Declared)

mutual

/-- The uses and the frames in an outline. -/
def contents : Outline → List Content
  | .scope k inside =>
    .frame (reachingAll (.own k) inside) :: contentsAll inside
  | .reference x s k => [.use x s (k == .write)]
  | _ => []

/-- The uses and the frames in several outlines. -/
def contentsAll : List Outline → List Content
  | [] => []
  | o :: os => contents o ++ contentsAll os

end

@[simp] theorem contentsAll_append (os os' : List Outline) :
    contentsAll (os ++ os') = contentsAll os ++ contentsAll os' := by
  induction os with
  | nil => rfl
  | cons o os ih =>
    rw [List.cons_append, contentsAll, ih, contentsAll, List.append_assoc]

@[simp] theorem contentsAll_scope (k : ScopeKind) (os : List Outline) :
    contentsAll [.scope k os] =
      .frame (reachingAll (.own k) os) :: contentsAll os := by
  rw [contentsAll, contents, contentsAll, List.append_nil]

@[simp] theorem malformedAmong?_append (os os' : List Outline) :
    malformedAmong? (os ++ os') =
      (malformedAmong? os).or (malformedAmong? os') := by
  induction os with
  | nil => rfl
  | cons o os ih =>
    rw [List.cons_append, malformedAmong?, malformedAmong?, ih, Option.or_assoc]

@[simp] theorem malformedAmong?_scope (k : ScopeKind) (os : List Outline) :
    malformedAmong? [.scope k os] = malformedAmong? os := by
  rw [malformedAmong?, malformedAmong?, malformed?, Option.or_none]

end Uses

/-- What an edit of a program does to names. -/
structure Edit where
  /-- The names that only the result has. -/
  isNew : String → Prop
  /-- Where the declarations stand that go away. -/
  isGone : Option Span → Prop
  /-- Where the identifiers stand that are left. -/
  isLeft : Option Span → Prop
  /-- Whether nothing is assigned to that was not. -/
  keepsWrites : Prop

namespace Edit

variable {e : Edit} {x : String}

/-- Nothing is said of a name that is new, and of one that means a declaration
that goes away. -/
def Lost (e : Edit) (x : String) (d? : Option Declared) : Prop :=
  e.isNew x ∨ ∃ d, d? = some d ∧ e.isGone d.span

/-- A name means what it meant, unless nothing is said of it. -/
def Keeps (e : Edit) (x : String) (before after : Option Declared) : Prop :=
  e.Lost x before ∨ after = before

theorem Keeps.refl (d? : Option Declared) : e.Keeps x d? d? :=
  .inr rfl

theorem Keeps.trans {d₁ d₂ d₃ : Option Declared} (h : e.Keeps x d₁ d₂)
    (h' : e.Keeps x d₂ d₃) : e.Keeps x d₁ d₃ := by
  rcases h with lost | rfl
  · exact .inl lost
  · exact h'

/-- The first of two findings counts, before and after. -/
theorem Keeps.or {d d' g g' : Option Declared} (h : e.Keeps x d d')
    (h' : e.Keeps x g g') :
    e.Keeps x (d.or g) (d'.or g') := by
  rcases h with (isNew | ⟨b, rfl, isGone⟩) | rfl
  · exact .inl (.inl isNew)
  · exact .inl (.inr ⟨b, rfl, isGone⟩)
  · cases d' with
    | none => exact h'
    | some b => exact .refl _

/-- Frames before and after the edit agree on names. -/
def Agrees (e : Edit) (frames frames' : List (List Declared)) : Prop :=
  ∀ x, e.Keeps x (lookUp frames x) (lookUp frames' x)

theorem Agrees.refl (frames : List (List Declared)) : e.Agrees frames frames :=
  fun _ => .refl _

theorem Agrees.cons {f f' : List Declared}
    {frames frames' : List (List Declared)}
    (first : ∀ x, e.Keeps x (firstOf x f) (firstOf x f'))
    (h : e.Agrees frames frames') :
    e.Agrees (f :: frames) (f' :: frames') := by
  intro x
  rw [lookUp_cons, lookUp_cons]
  exact (first x).or (h x)

/-- A frame whose declarations all go away can be left out. -/
theorem Agrees.leave {f : List Declared} {frames frames' : List (List Declared)}
    (gone : ∀ d ∈ f, e.isGone d.span) (h : e.Agrees frames frames') :
    e.Agrees (f :: frames) frames' := by
  intro x
  rw [lookUp_cons]
  cases found : firstOf x f with
  | none => exact h x
  | some d =>
    exact .inl (.inr ⟨d, rfl, gone d (List.mem_of_find?_eq_some found)⟩)

/-- A frame declares no name elsewhere than another one, nor in another order,
unless the name is new. -/
def Fewer (e : Edit) (f f' : List Declared) : Prop :=
  ∀ x, e.isNew x ∨ (placesOf x f').Sublist (placesOf x f)

theorem Fewer.refl (f : List Declared) : e.Fewer f f :=
  fun _ => .inr (.refl _)

theorem Fewer.trans {f f' f'' : List Declared} (h : e.Fewer f f')
    (h' : e.Fewer f' f'') : e.Fewer f f'' :=
  fun x => (h x).elim .inl fun fewer =>
    (h' x).imp_right fun fewer' => fewer'.trans fewer

theorem Fewer.append {f f' g g' : List Declared} (h : e.Fewer f f')
    (h' : e.Fewer g g') : e.Fewer (f ++ g) (f' ++ g') := by
  intro x
  rw [placesOf_append, placesOf_append]
  exact (h x).elim .inl fun fewer => (h' x).imp_right fewer.append

/-- A frame of new names declares no others. -/
theorem Fewer.of_new {f : List Declared} (new : ∀ d ∈ f, e.isNew d.name) :
    e.Fewer [] f := by
  intro x
  by_cases isNew : e.isNew x
  · exact .inl isNew
  · have none : placesOf x f = [] := by
      rw [placesOf, List.map_eq_nil_iff, List.filter_eq_nil_iff]
      intro d hd named
      exact isNew (eq_of_beq named ▸ new d hd)
    exact .inr (by rw [none]; exact List.nil_sublist _)

/-- What stands in an outline stood there, but for new names: what is used was
used, and what is declared in a scope was declared in one. -/
def Holds (e : Edit) (before : List Content) : Content → Prop
  | .use x s w => e.isNew x ∨
    ∃ w', .use x s w' ∈ before ∧ (e.keepsWrites → w = true → w' = true)
  | .frame f' => ∃ f, (f = [] ∨ .frame f ∈ before) ∧ e.Fewer f f'

theorem Holds.of_mem {before : List Content} {i : Content} (h : i ∈ before) :
    e.Holds before i := by
  cases i with
  | use x s w => exact .inr ⟨w, h, fun _ => id⟩
  | frame f => exact ⟨f, .inr h, .refl f⟩

theorem Holds.mono {before more : List Content} {i : Content}
    (h : e.Holds before i) (sub : before ⊆ more) : e.Holds more i := by
  cases i with
  | use x s w =>
    exact h.imp_right fun ⟨w', there, written⟩ => ⟨w', sub there, written⟩
  | frame f' =>
    obtain ⟨f, there, fewer⟩ := h
    exact ⟨f, there.imp_right fun there => sub there, fewer⟩

theorem Holds.trans {before between : List Content} {i : Content}
    (all : ∀ j ∈ between, e.Holds before j) (h : e.Holds between i) :
    e.Holds before i := by
  cases i with
  | use x s w =>
    rcases h with isNew | ⟨w', there, written⟩
    · exact .inl isNew
    · refine (all _ there).imp_right fun ⟨w'', there', written'⟩ => ?_
      exact ⟨w'', there', fun keeps isWritten =>
        written' keeps (written keeps isWritten)⟩
  | frame f'' =>
    obtain ⟨f', rfl | there, fewer⟩ := h
    · exact ⟨[], .inl rfl, fewer⟩
    · obtain ⟨f, there', fewer'⟩ := all _ there
      exact ⟨f, there', fewer'.trans fewer⟩

/-- What was read is written where it was written. -/
theorem Holds.written {y : String} {t : Option Span} {i j : Content}
    (h : e.Holds [.use y t false] i)
    (same : i = j ∨ ∃ x s, i = .use x s false ∧ j = .use x s true) :
    e.Holds [.use y t true] j := by
  have use {x : String} {s : Option Span} {w : Bool} (w' : Bool)
      (h : e.Holds [.use y t false] (.use x s w)) :
      e.Holds [.use y t true] (.use x s w') := by
    refine h.imp_right fun ⟨_, there, _⟩ => ⟨true, ?_, fun _ _ => rfl⟩
    cases List.mem_singleton.1 there
    exact List.mem_singleton_self _
  rcases same with rfl | ⟨x, s, rfl, rfl⟩
  · cases i with
    | use x s w => exact use w h
    | frame f' =>
      obtain ⟨f, rfl | there, fewer⟩ := h
      · exact ⟨[], .inl rfl, fewer⟩
      · cases List.mem_singleton.1 there
  · exact use true h

end Edit

/-- What an outline says about names is carried over to another one. -/
structure Carries (e : Edit) (os os' : List Outline) : Prop where
  reach : ∀ r x, e.Keeps x (firstOf x (reachingAll r os))
    (firstOf x (reachingAll r os'))
  uses : ∀ frames frames', e.Agrees frames frames' → ∀ u ∈ uses frames os,
    e.isLeft u.span → e.Lost u.name u.means ∨ u ∈ uses frames' os'
  fewer : ∀ r, e.Fewer (reachingAll r os) (reachingAll r os')
  holds : ∀ i ∈ contentsAll os', e.Holds (contentsAll os) i
  fine : malformedAmong? os = none → malformedAmong? os' = none

section Carries

variable {e : Edit} {os os' os'' : List Outline}

/-- What is used means the same in frames that agree. -/
theorem uses_of_agrees {frames frames' : List (List Declared)}
    (agrees : e.Agrees frames frames') :
    ∀ u ∈ uses frames os, e.Lost u.name u.means ∨ u ∈ uses frames' os := by
  induction os using outlines_induct generalizing frames frames' with
  | nil => exact nofun
  | leaf o os isLeaf ih =>
    intro u hu
    rw [uses_cons] at hu ⊢
    rcases List.mem_append.1 hu with here | behind
    · cases o with
      | scope k inside => cases isLeaf
      | reference x s k =>
        cases List.mem_singleton.1 here
        refine (agrees x).imp_right fun same => List.mem_append_left _ ?_
        rw [uses_reference, same]
        exact List.mem_singleton_self _
      | _ => cases here
    · exact (ih agrees u behind).imp_right (List.mem_append_right _)
  | scope k inside os inner ih =>
    intro u hu
    rw [uses_cons, uses_scope] at hu ⊢
    rcases List.mem_append.1 hu with here | behind
    · exact (inner (agrees.cons fun _ => .refl _) u here).imp_right
        (List.mem_append_left _)
    · exact (ih agrees u behind).imp_right (List.mem_append_right _)

theorem Carries.refl (os : List Outline) : Carries e os os :=
  ⟨fun _ _ => .refl _, fun _ _ agrees u hu _ => uses_of_agrees agrees u hu,
    fun _ => .refl _, fun _ hi => .of_mem hi, id⟩

theorem Carries.trans (h : Carries e os os') (h' : Carries e os' os'') :
    Carries e os os'' where
  reach r x := (h.reach r x).trans (h'.reach r x)
  uses frames frames' agrees u hu isLeft := by
    rcases h.uses frames frames (.refl _) u hu isLeft with lost | hu'
    · exact .inl lost
    · exact h'.uses frames frames' agrees u hu' isLeft
  fewer r := (h.fewer r).trans (h'.fewer r)
  holds i hi := (h'.holds i hi).trans h.holds
  fine none := h'.fine (h.fine none)

/-- **What is put together of what is carried over is carried over.** -/
theorem composed_carries (e : Edit) : Composed (Carries e) where
  nil := .refl []
  append h h' := by
    refine ⟨fun r x => ?_, fun frames frames' agrees u hu isLeft => ?_,
      fun r => ?_, fun i hi => ?_, fun none => ?_⟩
    · rw [reachingAll_append, reachingAll_append, firstOf_append,
        firstOf_append]
      exact (h.reach r x).or (h'.reach r x)
    · rw [uses_append] at hu ⊢
      rcases List.mem_append.1 hu with hu | hu
      · exact (h.uses frames frames' agrees u hu isLeft).imp_right
          (List.mem_append_left _)
      · exact (h'.uses frames frames' agrees u hu isLeft).imp_right
          (List.mem_append_right _)
    · rw [reachingAll_append, reachingAll_append]
      exact (h.fewer r).append (h'.fewer r)
    · rw [contentsAll_append] at hi ⊢
      rcases List.mem_append.1 hi with hi | hi
      · exact (h.holds i hi).mono (List.subset_append_left _ _)
      · exact (h'.holds i hi).mono (List.subset_append_right _ _)
    · rw [malformedAmong?_append, Option.or_eq_none_iff] at none ⊢
      exact ⟨h.fine none.1, h'.fine none.2⟩
  scope k h := by
    refine ⟨fun r x => ?_, fun frames frames' agrees u hu isLeft => ?_,
      fun r => ?_, fun i hi => ?_, fun none => ?_⟩
    · rw [reachingAll_scope, reachingAll_scope]
      exact h.reach _ x
    · rw [uses_scope] at hu ⊢
      exact h.uses _ _ (agrees.cons (h.reach _)) u hu isLeft
    · rw [reachingAll_scope, reachingAll_scope]
      exact h.fewer _
    · rw [contentsAll_scope] at hi ⊢
      rcases List.mem_cons.1 hi with rfl | hi
      · exact ⟨_, .inr List.mem_cons_self, h.fewer _⟩
      · exact (h.holds i hi).mono (List.subset_cons_self _ _)
    · rw [malformedAmong?_scope] at none ⊢
      exact h.fine none

/-- What goes away with all its uses is carried over to nothing. -/
theorem carries_nothing (gone : ∀ r, ∀ d ∈ reachingAll r os, e.isGone d.span)
    (unused : ∀ frames, ∀ u ∈ uses frames os, ¬ e.isLeft u.span) :
    Carries e os [] where
  reach r x := by
    cases found : firstOf x (reachingAll r os) with
    | none => exact .refl _
    | some d =>
      exact .inl (.inr ⟨d, rfl, gone r d (List.mem_of_find?_eq_some found)⟩)
  uses frames _ _ u hu isLeft := absurd isLeft (unused frames u hu)
  fewer _ _ := .inr (List.nil_sublist _)
  holds _ := nofun
  fine _ := rfl

/-- Declarations of new names can be added. -/
theorem carries_new (new : ∀ r, ∀ d ∈ reachingAll r os, e.isNew d.name)
    (holds : ∀ i ∈ contentsAll os, e.Holds [] i)
    (fine : malformedAmong? os = none) : Carries e [] os where
  reach r x := by
    cases found : firstOf x (reachingAll r os) with
    | none => exact .refl _
    | some d =>
      have named : d.name = x := by simpa using List.find?_some found
      exact .inl (.inl (named ▸ new r d (List.mem_of_find?_eq_some found)))
  uses _ _ _ := nofun
  fewer r := .of_new (new r)
  holds := holds
  fine _ := fine

end Carries

/-- Two outlines say the same, but for the ways names are used and for what the
helper is. -/
structure Paraphrase (os os' : List Outline) : Prop where
  reach : ∀ r, reachingAll r os' = reachingAll r os
  uses : ∀ frames, uses frames os' = uses frames os
  fine : malformedAmong? os' = malformedAmong? os

/-- Two outlines say the same, but for what is called or read and for what the
helper is. -/
structure Synonymous (os os' : List Outline) : Prop
    extends Paraphrase os os' where
  contents : contentsAll os' = contentsAll os

namespace Synonymous

variable {e : Edit} {os os' os₁ os₁' : List Outline}

theorem refl (os : List Outline) : Synonymous os os :=
  ⟨⟨fun _ => rfl, fun _ => rfl, rfl⟩, rfl⟩

theorem symm (h : Synonymous os os') : Synonymous os' os :=
  ⟨⟨fun r => (h.reach r).symm, fun frames => (h.uses frames).symm,
    h.fine.symm⟩, h.contents.symm⟩

theorem append (h : Synonymous os os') (h' : Synonymous os₁ os₁') :
    Synonymous (os ++ os₁) (os' ++ os₁') where
  reach r := by rw [reachingAll_append, reachingAll_append, h.reach, h'.reach]
  uses frames := by rw [uses_append, uses_append, h.uses, h'.uses]
  contents := by
    rw [contentsAll_append, contentsAll_append, h.contents, h'.contents]
  fine := by
    rw [malformedAmong?_append, malformedAmong?_append, h.fine, h'.fine]

theorem carries (h : Synonymous os os') : Carries e os os' where
  reach r x := .inr (by rw [h.reach])
  uses frames frames' agrees u hu _ := by
    rw [h.uses]
    exact uses_of_agrees agrees u hu
  fewer r := h.reach r ▸ .refl _
  holds i hi := .of_mem (h.contents ▸ hi)
  fine none := h.fine.trans none

/-- A name that is used in one way or another is used. -/
theorem refer (n : Node) {k k' : ReferenceKind} (other : k ≠ .write)
    (other' : k' ≠ .write) : Synonymous (refer n k) (refer n k') := by
  have unwritten {k : ReferenceKind} (other : k ≠ .write) :
      (k == .write) = false := beq_false_of_ne other
  unfold Scope.refer
  split
  · refine ⟨⟨fun _ => rfl, fun _ => rfl, rfl⟩, ?_⟩
    simp only [contentsAll, Scope.contents, unwritten other, unwritten other']
  · exact .refl _

end Synonymous

section Nodes

variable {e : Edit} {m : String} {c : Context} {s : Option Span} {n : Node}
  {ns : List Node}

/-- Missing parts say nothing. -/
theorem saidAmong_missing (missing : ns.all isMissing = true) :
    saidAmong m c ns = [] := by
  refine List.flatMap_eq_nil_iff.2 fun n hn => ?_
  have isMissing := List.all_eq_true.1 missing n hn
  unfold Scope.isMissing at isMissing
  split at isMissing
  · rfl
  · cases isMissing

/-- A bare identifier is used in some way. -/
theorem synonymous_bare {x : Node} (isBare : bareIdentifier? n = some x)
    {k : ReferenceKind} (other : k ≠ .write) :
    Synonymous (refer x k) (said m c n) := by
  rw [said_of_bareIdentifier? isBare]
  exact .refer x other (by decide)

/-- **A call says what is in it.** -/
theorem synonymous_call (plain : isPlain (.node .call s ns) = true) :
    Synonymous (said m c (.node .call s ns)) (saidAmong m c ns) := by
  obtain ⟨here, -⟩ := isPlain_node.1 plain
  rw [plainAt, Bool.and_eq_true, Bool.and_eq_true] at here
  obtain ⟨sorts, missing⟩ := Bool.and_eq_true_iff.1 here.1.1
  rw [said_node]
  simp only [outlineOf, part_toParts, outlines_toParts, node_toPart,
    outline_toPart]
  split
  · rename_i x isBare
    rcases ns with _ | ⟨callee, _ | ⟨arguments, types⟩⟩
    · cases isBare
    · cases (Bool.and_eq_true_iff.1 sorts).2
    · have all : saidAmong m c (callee :: arguments :: types) =
          said m c callee ++ said m c arguments := by
        rw [saidAmong, List.flatMap_cons, List.flatMap_cons]
        exact congrArg _
          ((congrArg _ (saidAmong_missing missing)).trans (List.append_nil _))
      rw [all]
      exact (synonymous_bare isBare (by decide)).append (.refl _)
  · exact .refl _

/-- What is said of the target of an assignment: it is written, if it is a bare
identifier. -/
def saidTarget (m : String) (c : Context) (n : Node) : List Outline :=
  match bareIdentifier? n with
  | some x => refer x .write
  | none => said m c n

/-- The target of an assignment says what it says elsewhere, or it is a bare
identifier. -/
theorem saidTarget_cases (m : String) (c : Context) (n : Node) :
    (bareIdentifier? n = none ∧ saidTarget m c n = said m c n) ∨
      ∃ i x s, bareIdentifier? n = some i ∧
        said m c n = [.reference x s .read] ∧
        saidTarget m c n = [.reference x s .write] := by
  unfold saidTarget
  split
  · rename_i i isBare
    have isName : ∃ x, i.kind = .ident x := by
      unfold bareIdentifier? at isBare
      split at isBare
      · rename_i x isName
        exact ⟨x, Option.some.inj isBare ▸ isName⟩
      · cases isBare
    obtain ⟨x, isName⟩ := isName
    have told (k : ReferenceKind) : refer i k = [.reference x i.span k] := by
      rw [refer, isName]
      rfl
    rw [said_of_bareIdentifier? isBare]
    exact .inr ⟨i, x, i.span, isBare, told .read, told .write⟩
  · exact .inl ⟨‹_›, rfl⟩

/-- The target of an assignment says what it says elsewhere, but for the way its
name is used. -/
theorem paraphrase_target (m : String) (c : Context) (n : Node) :
    Paraphrase (said m c n) (saidTarget m c n) := by
  rcases saidTarget_cases m c n with ⟨-, same⟩ | ⟨i, x, s, -, told, told'⟩
  · rw [same]
    exact ⟨fun _ => rfl, fun _ => rfl, rfl⟩
  · rw [told, told']
    exact ⟨fun _ => rfl, fun _ => rfl, rfl⟩

/-- What stands in the target of an assignment stands there elsewhere, but for a
name that is written. -/
theorem said_of_target {j : Content} (hj : j ∈ contentsAll (saidTarget m c n)) :
    ∃ i ∈ contentsAll (said m c n), i = j ∨ bareIdentifier? n ≠ none ∧
      ∃ x s, i = .use x s false ∧ j = .use x s true := by
  rcases saidTarget_cases m c n with ⟨-, same⟩ | ⟨i, x, s, some, told, told'⟩
  · exact ⟨j, same ▸ hj, .inl rfl⟩
  · rw [told'] at hj
    rw [told]
    refine ⟨_, List.mem_singleton_self _, .inr ⟨by rw [some]; nofun, x, s, rfl,
      List.mem_singleton.1 hj⟩⟩

/-- **The target of an assignment is carried over** as it is elsewhere, if it
becomes a bare identifier only where it was one. -/
theorem carries_target {n' : Node}
    (carried : Carries e (said m c n) (said m c n'))
    (bare : e.keepsWrites → bareIdentifier? n = none →
      bareIdentifier? n' = none) :
    Carries e (saidTarget m c n) (saidTarget m c n') := by
  have before := paraphrase_target m c n
  have after := paraphrase_target m c n'
  refine ⟨fun r x => ?_, fun frames frames' agrees u hu isLeft => ?_,
    fun r => ?_, fun i hi => ?_, fun none => ?_⟩
  · rw [before.reach, after.reach]
    exact carried.reach r x
  · rw [before.uses] at hu
    rw [after.uses]
    exact carried.uses frames frames' agrees u hu isLeft
  · rw [before.reach, after.reach]
    exact carried.fewer r
  · obtain ⟨j, hj, same⟩ := said_of_target hi
    have holds := carried.holds j hj
    rcases saidTarget_cases m c n with ⟨none, told⟩ | ⟨i', x, t, -, read, told⟩
    · rw [told]
      rcases same with rfl | ⟨some, x, s, rfl, rfl⟩
      · exact holds
      · refine holds.imp_right fun ⟨w, there, _⟩ => ⟨w, there, fun keeps => ?_⟩
        exact absurd (bare keeps none) some
    · rw [told]
      rw [read] at holds
      exact holds.written (same.imp_right And.right)
  · rw [before.fine] at none
    rw [after.fine]
    exact carried.fine none

/-- **A change of a variable says what is in it.** -/
theorem said_update {op : UpdateOp} {before : Bool}
    (plain : isPlain (.node (.update op before) s ns) = true) :
    said m c (.node (.update op before) s ns) =
      saidTarget m c (child ns 0) := by
  obtain ⟨here, -⟩ := isPlain_node.1 plain
  rw [plainAt, Bool.and_eq_true, Bool.and_eq_true] at here
  obtain ⟨-, missing⟩ := Bool.and_eq_true_iff.1 here.1.1
  have all : saidAmong m c ns = said m c (child ns 0) := by
    cases ns with
    | nil => rfl
    | cons target rest =>
      rw [saidAmong, List.flatMap_cons]
      exact (congrArg _ (saidAmong_missing missing)).trans (List.append_nil _)
  rw [said_node]
  simp only [outlineOf, part_toParts, outlines_toParts, node_toPart, all]
  rfl

/-- **An assignment says what its target and its value say.** -/
theorem said_assign {op : AssignOp} :
    said m c (.node (.assign op) s ns) =
      saidTarget m (targetContext (child ns 0) c) (child ns 0) ++
        said m c (child ns 1) := by
  rw [said_node]
  simp only [outlineOf, part_toParts, assignOutline_eq, node_toPart,
    outline_toPart]
  rfl

/-- **A declarator says what its pattern and its value say**, the helper's as
well. -/
theorem synonymous_declarator {b : Bool} :
    Synonymous (said m c (.node (.declarator b) s ns)) (said m
      (c.declaring c.varKind) (child ns 0) ++ said m c (child ns 1)) := by
  rw [said_node]
  simp only [outlineOf, part_toParts, declaratorOutline, node_toPart,
    outline_toPart]
  split
  · split
    · rename_i x o isName
      have pattern : said m (c.declaring c.varKind) (child ns 0) =
          [.declaration x (child ns 0).span c.varKind] := by
        generalize child ns 0 = n at isName ⊢
        obtain ⟨k, s, ns⟩ := n
        cases isName
        rfl
      rw [pattern]
      exact ⟨⟨fun _ => rfl, fun _ => rfl, rfl⟩, rfl⟩
    · exact ⟨⟨fun _ => rfl, fun _ => rfl, rfl⟩, rfl⟩
  · exact .refl _

theorem stable_fine :
    Stable (fun _ => True) fun os => malformedAmong? os = none where
  usual _ _ := trivial
  nil := rfl
  append h h' := by
    rw [malformedAmong?_append, h, h']
    rfl
  scope k h := (malformedAmong?_scope k _).trans h
  declaration _ _ _ _ := rfl
  use _ _ _ _ := rfl

/-- Nothing inside of a program is a malformed import. -/
theorem fine_said (h : PlainInside n) (c : Context) :
    malformedAmong? (said m c n) = none := by
  have both : (∀ c, malformedAmong? (said m c n) = none) ∧
      ∀ n' ∈ n.children, ∀ c, malformedAmong? (said m c n') = none := by
    induction n using Node.induct with
    | step k s ns ih =>
      have each n (hn : n ∈ ns) := ih n hn (h.child hn)
      have noImport (b : Bool) : k ≠ .importDecl b := by
        rintro rfl
        cases h.noImport
      refine ⟨fun c => said_stable stable_fine ⟨(regular_node.1 h.regular).1,
        fun n hn c _ => (each n hn).1 c, fun n hn _ n' hn' c _ => (each n hn).2
        n' hn' c, ?_, fun b isImport => absurd isImport (noImport b),
        fun b _ _ isImport => absurd isImport (noImport b), fun b _ isImport =>
        absurd isImport (noImport b), fun _ _ _ => rfl, fun _ _ _ _ _ _ _ _ _ =>
        rfl⟩ c (allowing_all c), fun n hn => (each n hn).1⟩
      rintro - x -
      unfold refer
      split <;> rfl
  exact both.1 c

end Nodes

end NullGuard.Scope
