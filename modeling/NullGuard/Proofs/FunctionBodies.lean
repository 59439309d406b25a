import NullGuard.Proofs.Blanks

/-!
# Names outside of the body of a function

The analysis puts the decorators, the parameters and the body of a function into
one scope, so that a declaration in the body is seen by the default values of
parameters, and a parameter by decorators. This is all that the body does to the
names outside of it: a reference that stands outside of some bodies means what
it means with these bodies empty, or a declaration of its own name that stands
in one of them (`references_outside_bodies`). For decorators, the same is so of
the parameters and the body together. What is emptied is a blank, so this is a
case of `references_outside_blanks`.
-/

namespace NullGuard.Transform

open NullGuard.Text (Span)
open NullGuard.Tree NullGuard.Scope

/-- How much of a function is emptied. -/
inductive Extent where
  | body
  | parametersAndBody
deriving DecidableEq, Repr

/-- Where the parameters of a function stand, if they are a sequence. -/
def parameterIndex : Kind → Option Nat
  | .function _ _ | .arrow _ => some 0
  | .constructor _ => some 1
  | _ => none

/-- Whether the part of a function at a position is emptied. -/
def Extent.covers (x : Extent) (k : Kind) (i : Nat) : Bool :=
  bodyIndex k == some i || x == .parametersAndBody && parameterIndex k == some i

/-- A sequence without items, or a body without statements; what is not there
stays so. -/
def emptied : Node → Node
  | .node .absent s _ => .node .absent s []
  | .node .list s _ => .node .list s []
  | .node _ s _ => .node .block s []

/-- Empties the functions that stand at some spans. -/
def emptying (x : Extent) (chosen : Option Span → Bool) : Substitution where
  instead? k s i n := if isHolder k && chosen s && x.covers k i
    then some (emptied n) else none
  held h := by
    split at h
    · rename_i covered
      rw [Bool.and_eq_true, Bool.and_eq_true] at covered
      exact covered.1.1
    · cases h

/-- What is put in place is what is emptied. -/
theorem eq_emptied {x : Extent} {chosen : Option Span → Bool} {k : Kind}
    {s : Option Span} {i : Nat} {n n' : Node}
    (found : (emptying x chosen).instead? k s i n = some n') :
    n' = emptied n := by
  simp only [emptying] at found
  split at found
  · exact (Option.some.inj found).symm
  · cases found

theorem blank_emptied (n : Node) : Blank (emptied n) := by
  unfold emptied
  split
  · exact blank_of_silent rfl (fun _ _ => rfl) fun _ _ => rfl
  · exact blank_of_silent rfl (fun _ _ => rfl) fun _ _ => rfl
  · exact ⟨rfl, fun _ _ => ⟨fun _ => rfl, fun _ => List.mem_singleton.1, rfl⟩,
      fun _ _ => vacant_nil, fun _ _ => vacant_nil⟩

/-- **Bodies are seen from outside by name only.** Where functions of a program
that can be analysed are emptied, of their bodies or of their parameters and
bodies, the result can be analysed, and every reference that does not stand in
what was emptied means there what it meant, or meant a declaration of its name
that stands in what was emptied. -/
theorem references_outside_bodies (x : Extent) (chosen : Option Span → Bool)
    {m : String} {tree : Node} (isRegular : regular tree = true)
    (distinct : (spans tree).Nodup) {analysis : Analysis}
    (analyzed : analyze m tree = .ok analysis) :
    ∃ analysis', analyze m ((emptying x chosen).apply tree) = .ok analysis' ∧
      ∀ r ∈ analysis.table.references,
        r.span ∉ spansAmong ((emptying x chosen).replaced tree) →
        KeepsMeaning analysis.table analysis'.table r ∨
        ∃ d, analysis.table.meaning r.scope r.name = some d ∧
      d.name = r.name ∧
        d.span ∈ spansAmong ((emptying x chosen).replaced tree) := by
  refine references_outside_blanks
    (fun k s i n n' found => ?_) isRegular distinct analyzed
  rw [eq_emptied found]
  exact blank_emptied n

/-- `import idx from 'idx'; function f(x = idx(a, _ => _.b)) { var y; }` -/
def defaultedParameter : Node :=
  let pattern := readAt .assignPat 34 54
    [readAt (.bindingIdent "x" false) 34 35 [.none], shortCall 38 "a" "b"]
  let declarator := readAt (.declarator false) 62 63
    [readAt (.bindingIdent "y" false) 62 63 [.none], .none]
  readAt (.program true none) 0 66 [shortImport, readAt (.fnDecl false) 23 66
    [readAt (.name "f") 32 33 [], readAt (.function false false) 23 66 [.ofList
    [readAt .param 34 54 [.ofList [], pattern]], .ofList [], readAt .block 56 66
    [readAt (.varDecl .var false) 58 64 [declarator]], .none, .none]]]

/-- The helper that the default value of a parameter calls is the same without
the variable in the body. -/
theorem references_outside_bodies_defaultedParameter :
    ∃ analysis analysis', analyze "idx" defaultedParameter = .ok analysis ∧
      analyze "idx" ((emptying .body fun _ => true).apply defaultedParameter) =
        .ok analysis' ∧
      ⟨"idx", some ⟨38, 41⟩, .callee, 1⟩ ∈ analysis.table.references ∧
      KeepsMeaning analysis.table analysis'.table
        ⟨"idx", some ⟨38, 41⟩, .callee, 1⟩ := by
  obtain ⟨analysis, analyzed⟩ : ∃ analysis, analyze "idx" defaultedParameter =
      .ok analysis := ⟨_, rfl⟩
  have isRegular : regular defaultedParameter = true := by decide +kernel
  have distinct : (spans defaultedParameter).Nodup := by decide +kernel
  obtain ⟨analysis', analyzed', kept⟩ :=
    references_outside_bodies .body (fun _ => true) isRegular distinct analyzed
  have among : ⟨"idx", some ⟨38, 41⟩, .callee, 1⟩ ∈ analysis.table.references :=
    by
    cases analyzed
    decide +kernel
  refine ⟨analysis, analysis', analyzed, analyzed', among,
    (kept _ among (by decide +kernel)).resolve_right ?_⟩
  rintro ⟨d, means, -, gone⟩
  cases analyzed
  have meant : (some ⟨"idx", some ⟨7, 10⟩, .imported⟩ : Option Declared) =
      some d := means
  cases meant
  exact absurd gone (by decide +kernel)

end NullGuard.Transform
