import NullGuard.Proofs.Remarks
import NullGuard.Proofs.Transformations

/-!
# What the fast path skips

A text without the word `idx` is skipped. Where the name of the helper's module
is spelled out in every string that means it, nothing is missed:
`skipped_has_no_helper` says that with any other text the program would be
analysed, found without helpers and left as it is.

The text is searched and not the values of its strings. A string such as
`'\x69dx'` means the helper's module without having its name, so what is said
about the spelling of strings cannot be left out.
-/

namespace NullGuard.Text

/-- A word that no word character touches occurs as a whole. -/
theorem containsWordFrom_of_infix {word : List Char} (some : word ≠ [])
    {before after : Char} (free : isWordChar before = false)
    (free' : isWordChar after = false) (inWord : Bool)
    (front back : List Char) :
    containsWordFrom word inWord (front ++ before :: (word ++ after :: back)) =
      true := by
  induction front generalizing inWord with
  | nil =>
    obtain ⟨c, rest, rfl⟩ := List.exists_cons_of_ne_nil some
    have here : (c :: rest).isPrefixOf (c :: (rest ++ after :: back)) = true :=
      List.isPrefixOf_iff_prefix.2 ⟨after :: back, rfl⟩
    have behind : (c :: (rest ++ after :: back)).drop (c :: rest).length =
        after :: back := List.drop_left
    rw [List.nil_append, List.cons_append, containsWordFrom, containsWordFrom,
      here, behind, beginsWithWordChar, free, free']
    simp
  | cons c front ih =>
    rw [List.cons_append, containsWordFrom, ih, Bool.or_true]

end NullGuard.Text

namespace NullGuard.Transform

open NullGuard.Text
open NullGuard.Tree NullGuard.Scope

/-- What a string means. -/
def stringValue? : Kind → Option String
  | .str _ value => value
  | _ => none

/-- Every string of a program that means a name is that name between two quotes
in the text. -/
def SpelledOut (name text : String) (n : Node) : Prop :=
  ∀ m ∈ subnodes n, stringValue? m.kind = some name →
    ∃ quote ∈ ['\'', '"'], quote :: (name.toList ++ [quote]) <:+: text.toList

instance (name text : String) (n : Node) : Decidable (SpelledOut name text n) :=
  inferInstanceAs (Decidable (∀ m ∈ subnodes n, _ → _))

section FastPath

variable {options : Options} {text : String} {tree : Node}

/-- A text that is skipped spells out the name of the helper's module in none of
its strings. -/
theorem unnamed_of_skipped (skipped : mayReferenceHelper text options = false)
    (spelled : SpelledOut options.importName text tree) {m : Node}
    (hm : m ∈ subnodes tree) :
    stringValue? m.kind ≠ some options.importName := by
  intro isStr
  simp only [mayReferenceHelper, Bool.or_eq_false_iff, bne_eq_false_iff_eq]
    at skipped
  obtain ⟨isDefault, noWord⟩ := skipped
  obtain ⟨quote, isQuote, front, back, same⟩ := spelled m hm isStr
  have free : isWordChar quote = false := by
    rcases List.mem_cons.1 isQuote with rfl | isQuote
    · rfl
    · rw [List.mem_singleton.1 isQuote]
      rfl
  have word : options.importName.toList = "idx".toList := by rw [isDefault]; rfl
  have some : "idx".toList ≠ [] := by decide
  have there := containsWordFrom_of_infix some free free false front back
  rw [word, List.append_assoc, List.cons_append, List.append_assoc,
    List.singleton_append] at same
  rw [same] at there
  rw [containsWord, there] at noWord
  cases noWord

/-- What names the helper's module is a string of that name. -/
theorem value_of_namesModule {name : String} (given : name ≠ "") {source : Node}
    (names : namesModule name source = true) :
    stringValue? source.kind = some name := by
  unfold namesModule at names
  split at names
  · rename_i raw value isStr
    rw [isStr]
    cases value with
    | none => exact absurd (eq_of_beq names).symm given
    | some v => exact congrArg some (eq_of_beq names)
  · cases names

/-- A start value that requires the helper's module has a string of that
name. -/
theorem value_of_isHelperRequire {name : String} {start : Node}
    (requires : isHelperRequire name start = true) :
    ∃ m, Occurs m start ∧ stringValue? m.kind = some name := by
  unfold isHelperRequire at requires
  split at requires
  · rename_i s callee l argument others rest
    rw [Bool.and_eq_true] at requires
    obtain ⟨-, isName⟩ := requires
    split at isName
    · rename_i raw value isStr
      refine ⟨argument, ?_, by rw [isStr, eq_of_beq isName]; rfl⟩
      exact .inside (List.mem_cons_of_mem _ List.mem_cons_self)
        (.inside List.mem_cons_self .here)
    · cases isName
  · cases requires

/-- Where no string is the name of the helper's module, nothing is said about
the helper. -/
theorem unremarked_of_unnamed {name : String} (isRegular : regular tree = true)
    (given : name ≠ "")
    (unnamed : ∀ m ∈ subnodes tree, stringValue? m.kind ≠ some name) :
    ∀ o, o ∉ remarksAll (outline name tree) := by
  refine remarks_said isRegular (fun k s ns inside => ?_) {}
  have below {m : Node} (hm : Occurs m (child ns 1)) :
      stringValue? m.kind ≠ some name := by
    rcases child_mem_or ns 1 with mem | missing
    · exact unnamed m
        (mem_subnodes.2 ((Occurs.inside mem hm).trans (mem_subnodes.1 inside)))
    · rw [missing] at hm
      cases hm with
      | here => exact fun isStr => by cases isStr
      | inside hc _ => cases hc
  have noImport (names : namesModule name (child ns 1) = true) : False :=
    below .here (value_of_namesModule given names)
  have noRequire (requires : isHelperRequire name (child ns 1) = true) :
      False := by
    obtain ⟨m, hm, isStr⟩ := value_of_isHelperRequire requires
    exact below hm isStr
  exact ⟨fun _ _ _ _ names _ _ => noImport names,
    fun _ _ _ names _ => noImport names, fun _ _ requires => noRequire requires,
    fun _ _ _ _ _ _ requires _ => noRequire requires⟩

/-- A program about whose helper nothing is said is analysed and planned
without a mistake, and has no helper and nothing unrecognized. -/
theorem planned_of_unremarked {name : String}
    (unremarked : ∀ o, o ∉ remarksAll (outline name tree)) :
    ∃ analysis, analyze name tree = .ok analysis ∧
      plan analysis.table = .ok ⟨[]⟩ ∧ analysis.table.unrecognized = [] := by
  have noMistake : malformedAmong? (outline name tree) = none := by
    cases found : malformedAmong? (outline name tree) with
    | none => rfl
    | some e => exact absurd (remarked_of_malformed _ found) (unremarked _)
  have learned := Table.learned_addAll {} [0] (outline name tree)
  have noHelper : (Table.ofOutline (outline name tree)).helpers = [] := by
    refine List.eq_nil_iff_forall_not_mem.2 fun d hd => ?_
    rcases learned.helpers d hd with old | ⟨x, s, k, new, -⟩
    · cases old
    · exact unremarked _ new
  have noOther : (Table.ofOutline (outline name tree)).unrecognized = [] := by
    refine List.eq_nil_iff_forall_not_mem.2 fun s hs => ?_
    rcases learned.unrecognized s hs with old | new
    · cases old
    · exact unremarked _ new
  have analyzed : ∃ names, analyze name tree =
      .ok ⟨Table.ofOutline (outline name tree), names⟩ := by
    rw [analyze, noMistake]
    exact ⟨_, rfl⟩
  obtain ⟨names, analyzed⟩ := analyzed
  refine ⟨_, analyzed, ?_, noOther⟩
  rw [plan, noHelper]
  rfl

/-- A program about whose helper nothing is said is left as it is. -/
theorem transformProgram_of_unremarked {comments : CommentMap}
    (looked : mayReferenceHelper text options = true)
    (unremarked : ∀ o, o ∉ remarksAll (outline options.importName tree)) :
    transformProgram options text tree comments = .ok ⟨tree, comments, {}⟩ := by
  obtain ⟨analysis, analyzed, planned, noOther⟩ :=
    planned_of_unremarked unremarked
  simp only [transformProgram, looked, analyzed, bind, Except.bind, planned,
    noOther]
  rfl

/-- A program that is skipped though every string that means the helper's
module spells it out says nothing about the helper. -/
theorem unremarked_of_skipped (isRegular : regular tree = true)
    (spelled : SpelledOut options.importName text tree)
    (skipped : mayReferenceHelper text options = false) :
    ∀ o, o ∉ remarksAll (outline options.importName tree) := by
  have isDefault : options.importName = defaultImportName := by
    simp only [mayReferenceHelper, Bool.or_eq_false_iff, bne_eq_false_iff_eq]
      at skipped
    exact skipped.1
  have given : options.importName ≠ "" := by
    rw [isDefault]
    decide
  exact unremarked_of_unnamed isRegular given fun m hm =>
    unnamed_of_skipped skipped spelled hm

/-- **The fast path misses nothing that is spelled out.** Where a text is
skipped and the strings of its program spell the name of the helper's module
out, the program would also be left as it is if it was looked at: it is analysed
and planned without a mistake, and nothing is rewritten, declared, removed,
retained or unrecognized. -/
theorem skipped_has_no_helper {comments : CommentMap} {other : String}
    (isRegular : regular tree = true)
    (spelled : SpelledOut options.importName text tree)
    (skipped : mayReferenceHelper text options = false)
    (looked : mayReferenceHelper other options = true) :
    transformProgram options other tree comments =
      .ok ⟨tree, comments, {}⟩ := by
  exact transformProgram_of_unremarked looked
    (unremarked_of_skipped isRegular spelled skipped)

end FastPath

/-- A program that imports another module. -/
def otherImport : Node :=
  readAt (.program true none) 0 18 [readAt (.importDecl false) 0 18
    [.ofList [readAt .importDefault 7 8 [readAt (.name "a") 7 8 []]],
    readAt (.str "'id'" (some "id")) 14 17 [], .none]]

/-- A program that is skipped is left as it is if it is looked at. -/
theorem skipped_has_no_helper_otherImport :
    mayReferenceHelper "import a from 'id';" {} = false ∧
      transformProgram {} "idx" otherImport {} = .ok ⟨otherImport, {}, {}⟩ :=
  ⟨by decide +kernel, skipped_has_no_helper (by decide +kernel)
    (by decide +kernel : SpelledOut "idx" "import a from 'id';" otherImport)
    (by decide +kernel) (by decide +kernel)⟩

end NullGuard.Transform
