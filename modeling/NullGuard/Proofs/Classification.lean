import NullGuard.Proofs.FailureMessages
import NullGuard.Proofs.Templates

/-!
# Failures are classified as what they are

Each engine has its own wording of a failed read, and in every wording the
message quotes text that may be anything. A classifier tries two patterns for
`null` and then two for `undefined`.

That a message is recognised is up to the loose patterns: in each wording the
word for the absent value stands at the start of the message, at its end, or in
front of the first parenthesis, whatever the quoted text is
(`mentions_message`). The derived patterns could not do it alone, as their gaps
hold no line breaks and no empty text.

That no message is taken for another is up to the words. A pattern matches only
what speaks of its absent value (`speaks_of_ofEngine`, `speaks_of_mentions`). A
blank, a quote or a dot is no part of a word, so that a message speaks of
nothing but what its wording or one of the quoted texts speaks of
(`infix_beside`).
-/

namespace NullGuard.Access

/-- A text has a word of small letters in it, in any letter case. -/
def Speaks (word text : List Char) : Prop :=
  word <:+: text.map Char.toLower

instance (word text : List Char) : Decidable (Speaks word text) :=
  inferInstanceAs (Decidable (word <:+: text.map Char.toLower))

section Words

variable {c : Char} {word front back text : List Char}

/-- A word lies in front of a letter that it does not have, or behind it. -/
theorem infix_beside (foreign : c ∉ word) (h : word <:+: front ++ c :: back) :
    word <:+: front ∨ word <:+: back := by
  induction front with
  | nil =>
    rcases List.infix_cons_iff.1 h with here | behind
    · exact .inl (prefix_before [] foreign here).isInfix
    · exact .inr behind
  | cons d front ih =>
    rcases List.infix_cons_iff.1 h with here | behind
    · exact .inl (prefix_before (d :: front) foreign here).isInfix
    · exact (ih behind).imp_left List.infix_cons

/-- What stands between two letters that are no part of a word does not complete
it. -/
theorem Speaks.beside (foreign : c.toLower ∉ word)
    (h : Speaks word (front ++ c :: back)) :
    Speaks word front ∨ Speaks word back := by
  rw [Speaks, List.map_append, List.map_cons] at h
  exact infix_beside foreign h

/-- A loose pattern matches only what speaks of its word. -/
theorem speaks_of_mentions {word : String} (h : mentions word text = true) :
    Speaks word.toList text := by
  simp only [mentions, Bool.or_eq_true, List.isPrefixOf_iff_prefix,
    List.isSuffixOf_iff_suffix, occursOutside_iff] at h
  obtain (⟨rest, starts⟩ | ⟨rest, ends⟩) | ⟨before, after, whole, -⟩ := h
  · exact ⟨[], [' '] ++ rest,
      by rw [List.nil_append, ← List.append_assoc, starts]⟩
  · exact ⟨rest ++ [' '], [],
      by rw [List.append_nil, List.append_assoc]; exact ends⟩
  · refine ⟨before ++ [' '], ' ' :: after, ?_⟩
    rw [whole]
    simp only [List.append_assoc, List.cons_append, List.nil_append]

/-- What fits pieces that go on with others has a part that fits the others. -/
theorem fits_behind {ps qs : List Piece} (h : Fits (ps ++ qs) text) :
    ∃ before rest, text = before ++ rest ∧ Fits qs rest := by
  induction ps generalizing text with
  | nil => exact ⟨[], text, rfl, h⟩
  | cons p ps ih =>
    cases h with
    | letter c h =>
      obtain ⟨before, rest, rfl, fits⟩ := ih h
      exact ⟨c :: before, rest, rfl, fits⟩
    | gap filling filled oneLine h =>
      obtain ⟨before, rest, rfl, fits⟩ := ih h
      exact ⟨filling ++ before, rest, (List.append_assoc ..).symm, fits⟩

/-- The letters in a pattern occur in what it covers. -/
theorem infix_of_covers {ps qs : List Piece}
    (h : covers (ps ++ (word.map Piece.letter ++ qs)) text = true) :
    word <:+: text := by
  obtain ⟨before, part, after, rfl, fits⟩ := (covers_iff _ _).1 h
  obtain ⟨front, behind, rfl, fitsBehind⟩ := fits_behind fits
  obtain ⟨rest, rfl, -⟩ := (fits_letters_append ..).1 fitsBehind
  exact ⟨before ++ front, rest ++ after, by simp only [List.append_assoc]⟩

end Words

/-- The word for an absent value has small letters only. -/
theorem word_lower (absent : Absent) :
    absent.word.toList.map Char.toLower = absent.word.toList := by
  cases absent <;> decide

/-- The pieces of an engine's wording have the word for the absent value among
them. -/
theorem piecesOf_readFailure (engine : Engine) (absent : Absent) :
    ∃ front back, piecesOf (engine.readFailure absent objectMark propertyMark) =
      front ++ (letters absent.word ++ back) := by
  cases engine with
  | v8 =>
    refine ⟨letters "Cannot read properties of ",
      letters " (reading '" ++ .gap :: letters "')", ?_⟩
    cases absent <;> decide +kernel
  | javaScriptCore =>
    refine ⟨[], letters " is not an object (evaluating '" ++ .gap ::
      letters "." ++ .gap :: letters "')", ?_⟩
    cases absent <;> decide +kernel
  | spiderMonkey =>
    refine ⟨.gap :: letters " is ", [], ?_⟩
    cases absent <;> decide +kernel

/-- A pattern derived from an engine's wording matches only what speaks of the
absent value. -/
theorem speaks_of_ofEngine {engine : Engine} {absent : Absent}
    {message : String}
    (h : (AccessPattern.ofEngine engine absent).matchesMessage message = true) :
    Speaks absent.word.toList message.toList := by
  obtain ⟨front, back, pieces⟩ := piecesOf_readFailure engine absent
  change covers (piecesOf (engine.readFailure absent objectMark propertyMark))
    _ = true at h
  rw [pieces, letters] at h
  have spoken := (infix_of_covers h).map Char.toLower
  rwa [word_lower] at spoken

/-- A message that does not speak of an absent value is recognised by neither
pattern for it. -/
theorem not_recognised (engine : Engine) (absent : Absent) {message : String}
    (silent : ¬ Speaks absent.word.toList message.toList) :
    ((AccessPattern.ofEngine engine absent).matchesMessage message ||
      mentions absent.word message.toList) = false := by
  rw [Bool.or_eq_false_iff]
  exact ⟨Bool.eq_false_iff.2 fun h => silent (speaks_of_ofEngine h),
    Bool.eq_false_iff.2 fun h => silent (speaks_of_mentions h)⟩

section Wordings

variable (absent : Absent) (object property : String)

/-- The wording that quotes the property, as characters. -/
theorem v8_toList : (Engine.v8.readFailure absent object property).toList =
    "Cannot read properties of ".toList ++ absent.word.toList ++
      (" (reading ".toList ++ '\'' :: (property.toList ++ '\'' :: [')'])) := by
  have message : Engine.v8.readFailure absent object property =
      "Cannot read properties of " ++ absent.word ++ " (reading '" ++
      property ++ "')" := rfl
  have opening : " (reading '".toList = " (reading ".toList ++ ['\''] := by
    decide
  have closing : "')".toList = '\'' :: [')'] := by decide
  rw [message, String.toList_append, String.toList_append, String.toList_append,
    String.toList_append, opening, closing]
  simp only [List.append_assoc, List.cons_append, List.nil_append]

/-- The wording that quotes the expression, as characters. -/
theorem javaScriptCore_toList :
    (Engine.javaScriptCore.readFailure absent object property).toList =
      absent.word.toList ++ ' ' ::
      ("is not an object (evaluating ".toList ++ '\'' ::
      (object.toList ++ '.' :: (property.toList ++ '\'' :: [')']))) := by
  have message : Engine.javaScriptCore.readFailure absent object property =
      absent.word ++ " is not an object (evaluating '" ++ object ++ "." ++
      property ++ "')" := rfl
  have opening : " is not an object (evaluating '".toList =
      ' ' :: ("is not an object (evaluating ".toList ++ ['\'']) := by decide
  have dot : ".".toList = ['.'] := by decide
  have closing : "')".toList = '\'' :: [')'] := by decide
  rw [message, String.toList_append, String.toList_append, String.toList_append,
    String.toList_append, String.toList_append, opening, dot, closing]
  simp only [List.append_assoc, List.cons_append, List.nil_append]

/-- The wording that quotes the object only, as characters. -/
theorem spiderMonkey_toList :
    (Engine.spiderMonkey.readFailure absent object property).toList =
      object.toList ++ ' ' :: ("is".toList ++ ' ' :: absent.word.toList) := by
  have message : Engine.spiderMonkey.readFailure absent object property =
      object ++ " is " ++ absent.word := rfl
  have verb : " is ".toList = ' ' :: ("is".toList ++ [' ']) := by decide
  rw [message, String.toList_append, String.toList_append, verb]
  simp only [List.append_assoc, List.cons_append, List.nil_append]

end Wordings

/-- A message that begins with the word for an absent value mentions it. -/
theorem mentions_first (absent : Absent) (rest : List Char) :
    mentions absent.word (absent.word.toList ++ ' ' :: rest) = true := by
  have starts : (absent.word.toList ++ [' ']) <+:
      (absent.word.toList ++ ' ' :: rest).map Char.toLower := by
    refine ⟨rest.map Char.toLower, ?_⟩
    rw [List.map_append, word_lower, List.map_cons, List.append_assoc]
    rfl
  simp only [mentions, Bool.or_eq_true, List.isPrefixOf_iff_prefix]
  exact .inl (.inl starts)

/-- A message that ends with the word for an absent value mentions it. -/
theorem mentions_last (absent : Absent) (front : List Char) :
    mentions absent.word (front ++ ' ' :: absent.word.toList) = true := by
  have ends : (' ' :: absent.word.toList) <:+
      (front ++ ' ' :: absent.word.toList).map Char.toLower := by
    refine ⟨front.map Char.toLower, ?_⟩
    rw [List.map_append, List.map_cons, word_lower]
    rfl
  simp only [mentions, Bool.or_eq_true, List.isSuffixOf_iff_suffix]
  exact .inl (.inr ends)

/-- **Every wording of a failed read mentions the absent value**, whatever text
it quotes. -/
theorem mentions_message (engine : Engine) (absent : Absent)
    (object property : String) :
    mentions absent.word (engine.readFailure absent object property).toList =
      true := by
  cases engine with
  | v8 => exact mentions_readFailure absent object property
  | javaScriptCore =>
    rw [javaScriptCore_toList]
    exact mentions_first absent _
  | spiderMonkey =>
    rw [spiderMonkey_toList, ← List.cons_append, ← List.append_assoc]
    exact mentions_last absent _

/-- A quoted text between two letters that are no part of a word does not make a
text speak of it. -/
theorem not_speaks_quoted {c d : Char} {word front text back : List Char}
    (opening : c.toLower ∉ word) (closing : d.toLower ∉ word)
    (before : ¬ Speaks word front) (quoted : ¬ Speaks word text)
    (behind : ¬ Speaks word back) :
    ¬ Speaks word (front ++ c :: (text ++ d :: back)) := by
  intro speaks
  rcases speaks.beside opening with here | rest
  · exact before here
  · exact (rest.beside closing).elim quoted behind

/-- A failed read from `undefined` speaks of `null` only if the object or the
property does. -/
theorem not_speaks_null (engine : Engine) {object property : String}
    (noObject : ¬ Speaks "null".toList object.toList)
    (noProperty : ¬ Speaks "null".toList property.toList) :
    ¬ Speaks "null".toList
      (engine.readFailure .undefined object property).toList := by
  cases engine with
  | v8 =>
    rw [v8_toList, ← List.append_assoc]
    exact not_speaks_quoted (by decide) (by decide)
      (by decide +kernel) noProperty (by decide +kernel)
  | javaScriptCore =>
    rw [javaScriptCore_toList]
    intro speaks
    rcases speaks.beside (by decide) with word | speaks
    · exact absurd word (by decide +kernel)
    rcases speaks.beside (by decide) with verb | speaks
    · exact absurd verb (by decide +kernel)
    rcases speaks.beside (by decide) with quoted | speaks
    · exact noObject quoted
    · exact (speaks.beside (by decide)).elim noProperty (by decide +kernel)
  | spiderMonkey =>
    rw [spiderMonkey_toList]
    exact not_speaks_quoted (by decide) (by decide) noObject (by decide +kernel)
      (by decide +kernel)

/-- **Failures are classified as what they are.** In the wording of every
engine, a failed read from `null` is classified as `null` whatever the object
and the property are, and one from `undefined` as `undefined` if neither of them
speaks of `null`. A message about something that is no function is none about an
absent value, if what it is about speaks of neither. -/
theorem failures_classified (engine : Engine) :
    (∀ object property, (Classifier.ofEngine engine).classify?
      (engine.readFailure .null object property) = some .null) ∧
      (∀ object property : String, ¬ Speaks "null".toList object.toList →
        ¬ Speaks "null".toList property.toList →
        (Classifier.ofEngine engine).classify?
        (engine.readFailure .undefined object property) = some .undefined) ∧
      ∀ callee : String, ¬ Speaks "null".toList callee.toList →
        ¬ Speaks "undefined".toList callee.toList → (Classifier.ofEngine
        engine).classify? (callee ++ " is not a function") = none := by
  have nullWord : Absent.null.word = "null" := rfl
  have undefinedWord : Absent.undefined.word = "undefined" := rfl
  refine ⟨fun object property => ?_, fun object property noObject noProperty =>
    ?_, fun callee noNull noUndefined => ?_⟩
  · have mentioned := mentions_message engine .null object property
    rw [classify_ofEngine, ← nullWord, mentioned, Bool.or_true, if_pos rfl]
  · have notNull :=
      not_recognised engine .null (not_speaks_null engine noObject noProperty)
    have mentioned := mentions_message engine .undefined object property
    rw [classify_ofEngine, ← nullWord, notNull, if_neg Bool.false_ne_true,
      ← undefinedWord, mentioned, Bool.or_true, if_pos rfl]
  · have verb : " is not a function".toList = ' ' ::
        "is not a function".toList := by
      decide
    have silent : ∀ absent : Absent, ¬ Speaks absent.word.toList callee.toList →
        ¬ Speaks absent.word.toList (callee ++ " is not a function").toList :=
      by
      intro absent noCallee speaks
      rw [String.toList_append, verb] at speaks
      rcases speaks.beside (by cases absent <;> decide) with here | behind
      · exact noCallee here
      · exact absurd behind (by cases absent <;> decide +kernel)
    have notNull := not_recognised engine .null (silent .null noNull)
    have notUndefined :=
      not_recognised engine .undefined (silent .undefined noUndefined)
    rw [classify_ofEngine, ← nullWord, notNull, if_neg Bool.false_ne_true,
      ← undefinedWord, notUndefined, if_neg Bool.false_ne_true]

/-- An object that has an empty name and a property with a line break in its
own, which no gap would hold. -/
theorem failures_classified_javaScriptCore :
    (Classifier.ofEngine .javaScriptCore).classify?
      (Engine.javaScriptCore.readFailure .undefined "" "a\nb") =
      some .undefined ∧
      (Classifier.ofEngine .javaScriptCore).classify?
        ("config.port" ++ " is not a function") = none :=
  ⟨(failures_classified .javaScriptCore).2.1 "" "a\nb" (by decide) (by decide),
    (failures_classified .javaScriptCore).2.2 "config.port" (by decide +kernel)
    (by decide +kernel)⟩

end NullGuard.Access
