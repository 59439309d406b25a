import NullGuard.Proofs.Blanks

/-!
# What annotations do to names

The types around a function, behind a getter and behind a variable or parameter
that is a name can be anything: the analysis does not look at them. It does look
at asserted types and at the types of patterns that take a value apart, as it
looks at any other piece of a program, so that the parameters of a function type
and the keys of a type of an object count there. A type without such names,
without expressions and without `typeof` says nothing (`said_mute`), and can be
any other such type.

`withAny` puts `any` in place of types. Where the types that the analysis looks
at are mute, it finds the same scopes, bindings, references and helpers in the
result. Where they are not, a type is a blank at least, and what it does to the
names outside of it is what `references_outside_blanks` says. Both are
`analysis_withAny`.
-/

namespace NullGuard.Transform

open NullGuard.Text (Span)
open NullGuard.Tree NullGuard.Scope

/-- Whether nodes of a kind say nothing of themselves, wherever they stand. -/
def isMuteKind : Kind → Bool
  | .type .query => false
  | .type _ | .absent | .list | .name _ | .propName _ | .str _ _ | .num _
      | .bigint _ | .bool _ | .null | .unary _
  | .template _ => true
  | _ => false

/-- Whether nothing in a type is a name of a parameter, a word as a key, an
expression or a query. -/
def isMute (n : Node) : Bool :=
  (subnodes n).all fun p => isMuteKind p.kind

section Mute

variable {m : String} {c : Context} {k : Kind} {s : Option Span} {n n' : Node}
  {ns : List Node}

theorem isMute_node :
    isMute (.node k s ns) = true ↔ isMuteKind k = true ∧ ∀ n ∈ ns,
      isMute n = true :=
  all_subnodes_node (p := fun k _ => isMuteKind k)

/-- **A mute type says nothing.** -/
theorem said_mute (mute : isMute n = true) (c : Context) : said m c n = [] := by
  induction n using Node.induct generalizing c with
  | step k s ns ih =>
    obtain ⟨here, below⟩ := isMute_node.1 mute
    have among (c : Context) : saidAmong m c ns = [] :=
      List.flatMap_eq_nil_iff.2 fun n hn => ih n hn (below n hn) c
    have told : said m c (.node k s ns) = saidAmong m c ns := by
      rw [said_node, ← outlines_toParts]
      cases k
      case type form => cases form <;> first | rfl | cases here
      all_goals first | rfl | cases here
    rw [told, among]

theorem saidAmong_mute (mute : isMute n = true) (c : Context) :
    saidAmong m c n.children = [] := by
  obtain ⟨k, s, ns⟩ := n
  exact List.flatMap_eq_nil_iff.2 fun p hp => said_mute
    ((isMute_node.1 mute).2 p hp) c

/-- Two mute types say the same. -/
theorem pair_mute (mute : isMute n = true) (mute' : isMute n' = true) :
    Pair (· = ·) (fun _ => True) m n n' := by
  have body {n : Node} (mute : isMute n = true) (c : Context) :
      bodyOutline (toPart m n) c = [] := by
    unfold bodyOutline
    split
    · rw [parts_toPart, outlines_toParts, saidAmong_mute mute]
    · exact said_mute mute c
  refine ⟨fun c _ => ?_, fun c _ => ?_, fun _ c _ => ?_⟩
  · rw [said_mute mute, said_mute mute']
  · rw [body mute, body mute']
  · rw [saidAmong_mute mute, saidAmong_mute mute']

end Mute

/-- The type `any` in place of a type. -/
def anyType (n : Node) : Node :=
  .node (.type (.keyword "any")) n.span []

/-- An annotation with the type `any`, in place of an annotation. -/
def annotated? : Node → Option Node
  | .node (.type .ascription) s ns =>
    some (.node (.type .ascription) s (ns.map anyType))
  | _ => none

/-- What is annotated or asserted at a position of a node, of type `any`. Where
the analysis looks at the type, this is only done if it may be. -/
def withAny? (mayBe : Node → Bool) (k : Kind) (i : Nat) (n : Node) :
    Option Node :=
  match k with
  | .function _ _ => if i = 4 then annotated? n else none
  | .arrow _ => if i = 3 then annotated? n else none
  | .getterProp => if i = 1 then annotated? n else none
  | .bindingIdent _ _ => annotated? n
  | .type .ascription => if mayBe n then some (anyType n) else none
  | .typeAssertion | .asType | .satisfies =>
    if i = 1 ∧ mayBe n then some (anyType n) else none
  | _ => none

/-- Puts `any` in place of all annotated and asserted types that may be, and of
those that the analysis does not look at. -/
def withAny (mayBe : Node → Bool) : Substitution where
  instead? k _ i n := withAny? mayBe k i n
  held h := by
    unfold withAny? at h
    split at h <;> first | rfl | cases h

section WithAny

variable {mayBe : Node → Bool} {k : Kind} {s : Option Span} {i : Nat}
  {n n' : Node} {ns : List Node} {tree : Node}

/-- `any` is put where the analysis does not look, in place of an annotation, or
in place of a type that may be `any`. -/
theorem withAny_cases (found : (withAny mayBe).instead? k s i n = some n')
    (ns : List Node) :
    isUnseenType k ns i = true ∧ annotated? n = some n' ∨ mayBe n = true ∧
      n' = anyType n := by
  simp only [withAny, withAny?] at found
  split at found
  -- Around a function, of an arrow function, and of a getter.
  iterate 3
    · split at found
      · rename_i position
        subst position
        exact .inl ⟨rfl, found⟩
      · cases found
  · exact .inl ⟨rfl, found⟩
  · split at found
    · exact .inr ⟨‹_›, (Option.some.inj found).symm⟩
    · cases found
  -- The three assertions.
  iterate 3
    · split at found
      · rename_i both
        exact .inr ⟨both.2, (Option.some.inj found).symm⟩
      · cases found
  · cases found

theorem isMute_anyType (n : Node) : isMute (anyType n) = true :=
  rfl

/-- Mute types can be `any`. -/
theorem fits_withAny (m : String) (tree : Node) :
    (withAny isMute).Fits (· = ·) (fun _ => True) m tree := by
  intro k s ns _ i part part' _ found
  rcases withAny_cases found ns with ⟨unseen, -⟩ | ⟨mute, rfl⟩
  · exact .inl unseen
  · exact .inr (pair_mute mute (isMute_anyType part))

theorem composed_eq : Composed (· = ·) where
  nil := rfl
  append h h' := by rw [h, h']
  scope k h := by rw [h]

/-- A program says the same with `any` in place of types that are not looked at
or mute. -/
theorem outline_withAny (isRegular : regular tree = true) (m : String) :
    outline m ((withAny isMute).apply tree) = outline m tree :=
  ((related_apply composed_eq (fun _ => rfl) passing_all isRegular
    (fits_withAny m tree)).1.said {} trivial).symm

/-- Types and annotations that are `any` are blanks. -/
theorem blank_withAny (found : (withAny mayBe).instead? k s i n = some n') :
    Blank n' := by
  have mute : isMute n' = true ∧ mentions n' = [] := by
    rcases withAny_cases found [] with ⟨-, isAnnotated⟩ | ⟨-, rfl⟩
    · unfold annotated? at isAnnotated
      split at isAnnotated
      · rename_i s ns
        cases isAnnotated
        refine ⟨isMute_node.2 ⟨rfl, fun t ht => ?_⟩, ?_⟩
        · obtain ⟨t, -, rfl⟩ := List.mem_map.1 ht
          exact isMute_anyType t
        · refine List.eq_nil_iff_forall_not_mem.2 fun p hp => ?_
          rcases mem_mentions.1 hp with ⟨isName, -⟩ | ⟨t, ht, inside⟩
          · cases isName
          · obtain ⟨t, -, rfl⟩ := List.mem_map.1 ht
            cases inside
      · cases isAnnotated
    · exact ⟨isMute_anyType n, rfl⟩
  exact blank_of_silent mute.2 (fun _ => said_mute mute.1) fun _ =>
    saidAmong_mute mute.1

end WithAny

/-- **What annotations do to names.** With `any` in place of all types that are
not looked at and of mute ones, the analysis finds the same scopes, bindings,
references and helpers, or rejects the program for the same reason. With `any`
in place of all types, a program that could be analysed can be, and every
reference outside of the types means what it meant, or meant a declaration of
its own name in one of the types. -/
theorem analysis_withAny {m : String} {tree : Node}
    (isRegular : regular tree = true) (distinct : (spans tree).Nodup) :
    (analyze m ((withAny isMute).apply tree)).map Analysis.table =
      (analyze m tree).map Analysis.table ∧
      ∀ analysis, analyze m tree = .ok analysis → ∃ analysis',
        analyze m ((withAny fun _ => true).apply tree) = .ok analysis' ∧
      ∀ r ∈ analysis.table.references,
        r.span ∉ spansAmong ((withAny fun _ => true).replaced tree) →
        KeepsMeaning analysis.table analysis'.table r ∨
        ∃ d, analysis.table.meaning r.scope r.name = some d ∧
      d.name = r.name ∧
        d.span ∈ spansAmong ((withAny fun _ => true).replaced tree) := by
  refine ⟨?_, fun analysis analyzed => ?_⟩
  · unfold analyze
    rw [outline_withAny isRegular]
    dsimp only
    split <;> rfl
  · exact references_outside_blanks
      (fun k s i n n' found => blank_withAny found) isRegular distinct analyzed

/-- The type that a name of one letter is, at an offset. -/
def namedType (start : Nat) (x : String) : Node :=
  readAt (.type .reference) start (start + 1)
    [readAt (.name x) start (start + 1) [], .none]

/-- `let x: T; const { a }: (b: U) => V = x as W;` -/
def annotatedPattern : Node :=
  let ascribed (start stop : Nat) (type : Node) :=
    readAt (.type .ascription) start stop [type]
  let parameter :=
    readAt (.bindingIdent "b" false) 24 25 [ascribed 25 28 (namedType 27 "U")]
  let function := readAt (.type .function) 23 34
    [.ofList [parameter], .none, ascribed 30 34 (namedType 33 "V")]
  let properties := .ofList [readAt .shorthandPat 18 19
    [readAt (.bindingIdent "a" false) 18 19 [.none], .none]]
  readAt (.program false none) 0 44 [ readAt (.varDecl .let false) 0 9
    [readAt (.declarator false) 4 8 [readAt (.bindingIdent "x" false) 4 5
    [ascribed 5 8 (namedType 7 "T")], .none]], readAt
    (.varDecl .const false) 10 44 [readAt (.declarator false) 16 43 [readAt
    (.objectPat false false) 16 21 [properties, ascribed 21 34 function],
    readAt .asType 37 43 [readAt (.ident "x") 37 38 [], namedType 42 "W"]]]]

/-- The parameter of the function type is declared by the pattern, but `x` means
the same without it. -/
theorem analysis_withAny_annotatedPattern :
    ∃ analysis analysis', analyze "idx" annotatedPattern = .ok analysis ∧
      (analyze "idx" ((withAny isMute).apply annotatedPattern)).map
        Analysis.table = .ok analysis.table ∧
      analyze "idx" ((withAny fun _ => true).apply annotatedPattern) =
        .ok analysis' ∧
      analysis.table.bindings.map Binding.name = ["x", "a", "b"] ∧
      KeepsMeaning analysis.table analysis'.table
        ⟨"x", some ⟨37, 38⟩, .read, 0⟩ := by
  obtain ⟨analysis, analyzed⟩ : ∃ analysis, analyze "idx" annotatedPattern =
      .ok analysis := ⟨_, rfl⟩
  have isRegular : regular annotatedPattern = true := by decide +kernel
  have distinct : (spans annotatedPattern).Nodup := by decide +kernel
  obtain ⟨same, kept⟩ := analysis_withAny (m := "idx") isRegular distinct
  obtain ⟨analysis', analyzed', kept⟩ := kept analysis analyzed
  have among : ⟨"x", some ⟨37, 38⟩, .read, 0⟩ ∈ analysis.table.references := by
    cases analyzed
    decide +kernel
  rw [analyzed] at same
  refine ⟨analysis, analysis', analyzed, same, analyzed', ?_,
    (kept _ among (by decide +kernel)).resolve_right ?_⟩
  · cases analyzed
    decide +kernel
  · rintro ⟨d, means, -, gone⟩
    cases analyzed
    have meant : (some ⟨"x", some ⟨4, 5⟩, .lexical⟩ : Option Declared) =
        some d := means
    cases meant
    exact absurd gone (by decide +kernel)

end NullGuard.Transform
