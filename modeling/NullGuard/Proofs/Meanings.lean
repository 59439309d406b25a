import NullGuard.Proofs.Carrying
import NullGuard.Proofs.References

/-!
# References that keep their meaning

What is carried over from the outline of a program to that of another one are
uses of names. Where identifiers have spans of their own, a use is a reference
of the table, and only one: a reference that is left *keeps its meaning*
(`KeepsMeaning`) if there is exactly one reference at its span afterwards, which
has its name and means what it meant.
-/

namespace NullGuard.Transform

open NullGuard.Text (Span)
open NullGuard.Tree NullGuard.Scope

/-- A result that occurs once is one of a single element. -/
theorem eq_of_count_map_le_one {α β : Type} [BEq β] [LawfulBEq β] {f : α → β}
    {l : List α} {y : β} (once : (l.map f).count y ≤ 1) {a b : α} (ha : a ∈ l)
    (hb : b ∈ l) (isA : f a = y) (isB : f b = y) : a = b := by
  obtain ⟨front, back, rfl⟩ := List.append_of_mem ha
  rw [List.map_append, List.map_cons, List.count_append, isA,
    List.count_cons_self] at once
  rcases List.mem_append.1 hb with hb | hb
  · have := List.count_pos_iff.2 (isB ▸ List.mem_map_of_mem (f := f) hb)
    omega
  · rcases List.mem_cons.1 hb with rfl | hb
    · rfl
    · have := List.count_pos_iff.2 (isB ▸ List.mem_map_of_mem (f := f) hb)
      omega

section Meanings

variable {m : String} {c : Context} {n : Node}

/-- What is used in outlines is listed among their names. -/
theorem mem_namesAll_of_use {frames : List (List Declared)} {os : List Outline}
    {u : Use} (hu : u ∈ uses frames os) : u.span ∈ namesAll os := by
  induction os using outlines_induct generalizing frames with
  | nil => cases hu
  | leaf o os isLeaf ih =>
    rw [uses_cons, List.mem_append] at hu
    rw [namesAll, List.mem_append]
    refine hu.imp (fun here => ?_) ih
    cases o with
    | scope k inside => cases isLeaf
    | reference x s k =>
      cases List.mem_singleton.1 here
      exact List.mem_cons_self
    | _ => cases here
  | scope k inside os inner ih =>
    rw [uses_cons, uses_scope, List.mem_append] at hu
    rw [namesAll, List.mem_append]
    exact hu.imp inner ih

/-- What reaches out of outlines is listed among their names. -/
theorem mem_namesAll_of_reaching {r : Reach} {os : List Outline} {d : Declared}
    (hd : d ∈ reachingAll r os) : d.span ∈ namesAll os := by
  induction os using outlines_induct generalizing r with
  | nil => cases hd
  | leaf o os isLeaf ih =>
    rw [reachingAll, List.mem_append] at hd
    rw [namesAll, List.mem_append]
    refine hd.imp (fun here => ?_) ih
    cases o with
    | scope k inside => cases isLeaf
    | declaration x s k | helper x s k origin =>
      rw [reaching] at here
      split at here
      · rw [List.mem_singleton.1 here]
        exact List.mem_cons_self
      · cases here
    | _ => cases here
  | scope k inside os inner ih =>
    rw [reachingAll, reaching, List.mem_append] at hd
    rw [namesAll, List.mem_append]
    exact hd.imp inner ih

/-- The names of a node stand in it. -/
theorem mem_spans_of_noted {s : Option Span} (hs : s ∈ namesAll (said m c n)) :
    s ∈ spansAmong [n] :=
  times_pos.1
    (Nat.lt_of_lt_of_le (List.count_pos_iff.2 hs) ((frugal s m n).1 c))

/-- What the parts of a node name stands in the node. -/
theorem mem_spans_of_noted_among {s : Option Span}
    (hs : s ∈ namesAll (saidAmong m c n.children)) : s ∈ spansAmong [n] := by
  have bound := Nat.le_trans (noted_among
    (fun n' hn' c => (frugal s m n).2 n' hn' c) c) (times_children n)
  exact times_pos.1 (Nat.lt_of_lt_of_le (List.count_pos_iff.2 hs) bound)

/-- What a body names stands in it. -/
theorem mem_spans_of_noted_body {s : Option Span}
    (hs : s ∈ namesAll (bodyOutline (toPart m n) c)) : s ∈ spansAmong [n] := by
  unfold bodyOutline at hs
  split at hs
  · rw [parts_toPart, outlines_toParts] at hs
    exact mem_spans_of_noted_among hs
  · exact mem_spans_of_noted hs

/-- What a node uses stands in it. -/
theorem span_mem_of_use {frames : List (List Declared)} {u : Use}
    (hu : u ∈ uses frames (said m c n)) : u.span ∈ spansAmong [n] :=
  mem_spans_of_noted (mem_namesAll_of_use hu)

/-- What the references of a program mean are the uses in its outline. -/
theorem mem_uses_root {os : List Outline} {u : Use} :
    u ∈ uses [reachingAll .root os] os ↔ ∃ r ∈ (Table.ofOutline os).references,
      u = ⟨r.name, r.span, (Table.ofOutline os).meaning r.scope r.name⟩ := by
  rw [Scope.uses, ← Table.resolve_ofOutline, List.map_map, List.mem_map]
  exact exists_congr fun r => and_congr_right fun _ => eq_comm

/-- A reference is the only one at its span in another table, and means the same
there. -/
def KeepsMeaning (t t' : Table) (r : Reference) : Prop :=
  ∃ r', (∀ r'', r'' ∈ t'.references ∧ r''.span = r.span ↔ r'' = r') ∧
    r'.name = r.name ∧ t'.meaning r'.scope r'.name = t.meaning r.scope r.name

/-- A reference whose use is carried over to a program with at most one
identifier at its span keeps its meaning. -/
theorem keepsMeaning_of_use {m : String} {tree' : Node} {t : Table}
    {r : Reference} (once : times r.span [tree'] ≤ 1)
    (there : ⟨r.name, r.span, t.meaning r.scope r.name⟩ ∈
      uses [reachingAll .root (outline m tree')] (outline m tree')) :
    KeepsMeaning t (Table.ofOutline (outline m tree')) r := by
  obtain ⟨r', hr', same⟩ := mem_uses_root.1 there
  obtain ⟨name, span, means⟩ := Use.mk.inj same
  have single : ((Table.ofOutline (outline m tree')).references.map
      Reference.span).count r.span ≤ 1 := by
    have bound := Nat.le_trans (listed_le_times r.span m tree') once
    rw [listed, List.count_append] at bound
    omega
  refine ⟨r', fun r'' => ⟨fun h => eq_of_count_map_le_one single h.1 hr' h.2
    span.symm, ?_⟩, name.symm, means.symm⟩
  rintro rfl
  exact ⟨hr', span.symm⟩

end Meanings

end NullGuard.Transform
