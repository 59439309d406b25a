import NullGuard.Access.SafeAccess
import NullGuard.Proofs.Matching

/-!
# What a failed read is classified as

The classifier knows a failed read by its message alone, and the message quotes
the key that was read. A key may hold anything, the wording of another failure
included. The messages of the assumed engine are told apart all the same:

* a failed read from `null` is classified as `null` whatever the key is: the
  loose pattern looks in front of the first parenthesis, and the key stands
  behind it (`classify_readFailure_null`);
* a failed read from `undefined` is classified as `undefined` unless the key
  repeats the opening words of the other message
  (`classify_readFailure_undefined`).
-/

namespace NullGuard.Access

/-- The word occurs in the text somewhere with no opening parenthesis in front
of it. -/
theorem occursOutside_iff (word text : List Char) :
    occursOutside word text = true ↔
      ∃ before after, text = before ++ word ++ after ∧ '(' ∉ before := by
  induction text with
  | nil =>
    rw [occursOutside, List.isPrefixOf_iff_prefix]
    constructor
    · rintro ⟨after, split⟩
      exact ⟨[], after, split.symm, by simp⟩
    · rintro ⟨before, after, split, -⟩
      have empty :=
        (List.append_eq_nil_iff.1 (List.append_eq_nil_iff.1 split.symm).1).2
      exact empty ▸ List.nil_prefix
  | cons c cs ih =>
    rw [occursOutside, Bool.or_eq_true, Bool.and_eq_true, ih,
      List.isPrefixOf_iff_prefix, bne_iff_ne]
    constructor
    · rintro (⟨after, split⟩ | ⟨outside, before, after, rfl, none⟩)
      · exact ⟨[], after, split.symm, by simp⟩
      · exact ⟨c :: before, after, rfl, by simp [Ne.symm outside, none]⟩
    · rintro ⟨before, after, split, none⟩
      cases before with
      | nil => exact .inl ⟨after, split.symm⟩
      | cons d before =>
        obtain ⟨rfl, rfl⟩ := List.cons.inj split
        rw [List.mem_cons, not_or] at none
        exact .inr ⟨Ne.symm none.1, before, after, rfl, none.2⟩

/-- A word without a parenthesis that is not found in front of the first one is
not found outside. -/
theorem occursOutside_paren (word front back : List Char) (plain : '(' ∉ word)
    (fresh : ¬ word <:+: front) :
    occursOutside word (front ++ '(' :: back) = false := by
  rw [← Bool.not_eq_true, occursOutside_iff]
  rintro ⟨before, after, split, none⟩
  rcases List.append_eq_append_iff.1 split with ⟨m, whole, rest⟩ | ⟨m, whole, -⟩
  · cases m with
    | nil =>
      rw [List.append_nil] at whole
      exact fresh (whole ▸ ⟨before, [], by simp⟩)
    | cons d m =>
      obtain ⟨rfl, -⟩ := List.cons.inj rest
      have there : '(' ∈ before ++ word := whole ▸ by simp
      exact (List.mem_append.1 there).elim none plain
  · exact fresh (whole ▸ ⟨before, m, rfl⟩)

/-- How a message about a failed read starts, up to the key. -/
def readOpening (absent : Absent) : List Char :=
  "Cannot read properties of ".toList ++ absent.word.toList ++
    " (reading '".toList

/-- The end of a message about a failed read, behind the key. -/
def readClosing : List Char := "')".toList

/-- The words that only a message about a failed read from `null` starts
with. -/
def nullWords : List Char := "Cannot read properties of null".toList

/-- The message of a failed read as characters. -/
theorem readFailure_toList (absent : Absent) (object key : String) :
    (Engine.assumed.readFailure absent object key).toList =
      readOpening absent ++ (key.toList ++ readClosing) := by
  have message : Engine.assumed.readFailure absent object key =
      "Cannot read properties of " ++ absent.word ++ " (reading '" ++
      key ++ "')" := rfl
  rw [message, String.toList_append, String.toList_append, String.toList_append,
    String.toList_append, List.append_assoc]
  unfold readOpening readClosing
  with_reducible rfl

/-- The message of a failed read in small letters: the word for the absent value
stands between blanks, and then comes the first parenthesis. -/
theorem readFailure_lower (absent : Absent) (object key : String) :
    (Engine.assumed.readFailure absent object key).toList.map Char.toLower =
      "cannot read properties of".toList ++
      (' ' :: absent.word.toList ++ [' ']) ++ '(' ::
      ("reading '".toList ++ (key.toList.map Char.toLower ++ readClosing)) := by
  have opening : (readOpening absent).map Char.toLower =
      "cannot read properties of".toList ++
      (' ' :: absent.word.toList ++ [' ']) ++ '(' :: "reading '".toList := by
    cases absent <;> decide
  have closing : readClosing.map Char.toLower = readClosing := by decide
  rw [readFailure_toList, List.map_append, List.map_append, opening, closing]
  exact List.append_assoc ..

/-- The patterns of an engine in the order in which they are tried: both ways to
recognise a message about `null`, and then both for `undefined`. -/
theorem classify_ofEngine (engine : Engine) (message : String) :
    (Classifier.ofEngine engine).classify? message =
      if (AccessPattern.ofEngine engine .null).matchesMessage message ||
      mentions "null" message.toList then some .null
      else if (AccessPattern.ofEngine engine .undefined).matchesMessage
      message || mentions "undefined" message.toList then some .undefined
      else none := by
  simp only [Classifier.ofEngine, Classifier.classify?, List.find?_cons]
  have looseNull : (AccessPattern.loose .null).matchesMessage message =
      mentions "null" message.toList := rfl
  have looseUndefined : (AccessPattern.loose .undefined).matchesMessage
      message = mentions "undefined" message.toList := rfl
  rw [looseNull, looseUndefined]
  cases (AccessPattern.ofEngine engine .null).matchesMessage message <;>
    cases mentions "null" message.toList <;>
    cases (AccessPattern.ofEngine engine .undefined).matchesMessage message <;>
    cases mentions "undefined" message.toList <;> rfl

/-- A failed read mentions its absent value whatever the key is. -/
theorem mentions_readFailure (absent : Absent) (object key : String) :
    mentions absent.word (Engine.assumed.readFailure absent object key).toList =
      true := by
  have outside : '(' ∉ "cannot read properties of".toList := by decide
  have found := (occursOutside_iff (' ' :: absent.word.toList ++ [' ']) _).2
    ⟨_, _, readFailure_lower absent object key, outside⟩
  simp only [mentions, Bool.or_eq_true]
  exact .inr found

/-- A failed read from `undefined` does not mention `null`, not even if the key
does: what counts stands in front of the parenthesis. -/
theorem not_mentions_null (object key : String) :
    mentions "null" (Engine.assumed.readFailure .undefined object key).toList =
      false := by
  have notFirst : ∀ rest, ("null".toList ++ [' ']).isPrefixOf
      ("cannot read properties of".toList ++ rest) = false := by
    intro rest
    have letters : "cannot read properties of".toList = 'c' ::
        "annot read properties of".toList := by
      decide
    have word : "null".toList = 'n' :: "ull".toList := by decide
    rw [letters, word]
    rfl
  have notLast : ∀ front rest, (' ' :: "null".toList).isSuffixOf (front ++
      '(' :: ("reading '".toList ++ (rest ++ readClosing))) = false := by
    intro front rest
    have closing : readClosing = ['\''] ++ [')'] := by decide
    have word : ' ' :: "null".toList = [' ', 'n', 'u', 'l'] ++ ['l'] := by
      decide
    rw [← Bool.not_eq_true, List.isSuffixOf_iff_suffix, closing, word]
    rintro ⟨before, split⟩
    have ends := congrArg List.getLast? split
    rw [← List.append_assoc, List.getLast?_concat, ← List.append_assoc,
      ← List.append_assoc, ← List.cons_append, ← List.append_assoc,
      List.getLast?_concat] at ends
    exact absurd ends (by decide)
  have notOutside := occursOutside_paren (' ' :: "null".toList ++ [' '])
    ("cannot read properties of".toList ++
    (' ' :: Absent.undefined.word.toList ++ [' ']))
    ("reading '".toList ++ (key.toList.map Char.toLower ++ readClosing))
    (by decide) (by decide +kernel)
  rw [mentions, readFailure_lower, notOutside, notLast,
    List.append_assoc, notFirst]
  rfl

/-- An occurrence that starts with a letter foreign to the front of a text lies
behind it. -/
theorem infix_behind {c : Char} {word front back : List Char}
    (foreign : c ∉ front) (h : c :: word <:+: front ++ back) :
    c :: word <:+: back := by
  induction front with
  | nil => exact h
  | cons d front ih =>
    rw [List.mem_cons, not_or] at foreign
    rcases List.infix_cons_iff.1 h with here | there
    · exact absurd (List.cons_prefix_cons.1 here).1 foreign.1
    · exact ih foreign.2 there

/-- An occurrence that ends with a letter foreign to the back of a text lies in
front of it. -/
theorem infix_before {c : Char} {word front back : List Char}
    (foreign : c ∉ back) (h : word ++ [c] <:+: front ++ back) :
    word ++ [c] <:+: front := by
  rw [← List.reverse_infix, List.reverse_append, List.reverse_append,
    List.reverse_singleton] at h
  have behind := infix_behind (by simpa using foreign) h
  rwa [← List.reverse_infix, List.reverse_append, List.reverse_singleton]

/-- The opening words about `null` in a failed read from `undefined` stand
inside the key. -/
theorem nullWords_in_key {key : List Char}
    (h : nullWords <:+: readOpening .undefined ++ (key ++ readClosing)) :
    nullWords <:+: key := by
  have starts : nullWords = 'C' :: nullWords.tail := by decide
  have ends : nullWords = nullWords.dropLast ++ ['l'] := by decide
  have opening : readOpening .undefined = 'C' ::
      (readOpening .undefined).tail := by
    decide
  rw [opening, List.cons_append, List.infix_cons_iff, ← List.cons_append,
    ← opening] at h
  rcases h with here | there
  · -- At the start of the message the two openings go different ways.
    have shorter : nullWords.length ≤ (readOpening .undefined).length := by
      decide
    have front :=
      List.prefix_of_prefix_length_le here (List.prefix_append ..) shorter
    exact absurd front (by decide)
  · rw [starts] at there
    have inRest := infix_behind (by decide) there
    rw [← starts, ends] at inRest
    have inKey := infix_before (by decide) inRest
    rwa [← ends] at inKey

/-- The derived pattern for `null` covers only messages with the opening words
about `null`. -/
theorem nullWords_of_matches {message : String}
    (h : (AccessPattern.ofEngine .assumed .null).matchesMessage message =
      true) :
    nullWords <:+: message.toList := by
  have pieces : piecesOf
      (Engine.assumed.readFailure .null objectMark propertyMark) = nullWords.map
      Piece.letter ++ (letters " (reading '" ++ .gap :: letters "')") := by
    decide +kernel
  change covers (piecesOf
    (Engine.assumed.readFailure .null objectMark propertyMark)) _ = true at h
  rw [pieces, covers_iff] at h
  obtain ⟨before, part, after, whole, fits⟩ := h
  obtain ⟨rest, rfl, -⟩ := (fits_letters_append ..).1 fits
  exact ⟨before, rest ++ after, by rw [whole]; simp only [List.append_assoc]⟩

/-- **A failed read from `null` is classified as `null`**, whatever the key
is. -/
theorem classify_readFailure_null (object key : String) :
    Classifier.assumed.classify? (Engine.assumed.readFailure .null object key) =
      some .null := by
  have mentioned := mentions_readFailure .null object key
  rw [Absent.word] at mentioned
  rw [Classifier.assumed, classify_ofEngine, mentioned,
    Bool.or_true, if_pos rfl]

/-- **A failed read from `undefined` is classified as `undefined`**, unless the
key repeats the opening words of the message about `null`. -/
theorem classify_readFailure_undefined (object key : String)
    (plain : ¬ nullWords <:+: key.toList) :
    Classifier.assumed.classify?
      (Engine.assumed.readFailure .undefined object key) = some .undefined := by
  have notDerived : (AccessPattern.ofEngine .assumed .null).matchesMessage
      (Engine.assumed.readFailure .undefined object key) = false := by
    rw [← Bool.not_eq_true]
    intro found
    have words := nullWords_of_matches found
    rw [readFailure_toList] at words
    exact plain (nullWords_in_key words)
  have mentioned := mentions_readFailure .undefined object key
  rw [Absent.word] at mentioned
  rw [Classifier.assumed, classify_ofEngine, notDerived, not_mentions_null,
    mentioned, Bool.or_true]
  rfl

end NullGuard.Access
