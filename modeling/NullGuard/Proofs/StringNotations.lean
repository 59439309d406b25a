import NullGuard.Proofs.Scans
import NullGuard.Toml.Quoted

/-!
# Strings of a settings file are read back

A string can be written in four ways: in double or in single quotes, on one line
or over several. `Body` says what may be written between the quotes for a text,
in all four of them, and `Spells` adds the quotes. What is left out is what
gives no character of its own: a carriage return in front of a line feed, and a
backslash that joins lines. Whatever is written for a string is read as that
string (`string_spelled`), and `quote` chooses one of the ways (`quote_spells`).

The proofs follow the body, character by character. Over several lines one or
two quotes may stand together, also in front of the closing ones; those are not
told apart by the steps of the reader, but behind them (`lines_body`).
-/

namespace NullGuard.Toml

open NullGuard.Text (hexValue? hexNumber)
open Scan

/-- The letters of escapes, with the characters that they stand for. -/
def escapeLetters : List (Char × Char) :=
  [('b', '\x08'), ('t', '\t'), ('n', '\n'), ('f', '\x0c'), ('r', '\r'),
    ('"', '"'), ('\\', '\\')]

/-- What may stand behind a backslash for a character. -/
inductive Escape : List Char → Char → Prop
  /-- A letter. -/
  | letter {l c : Char} : (l, c) ∈ escapeLetters → Escape [l] c
  /-- The code of the character with four digits. -/
  | short {digits : List Char} {c : Char} :
      digits.length = 4 → digits.all (fun d => (hexValue? d).isSome) →
        hexNumber digits = c.toNat → Escape ('u' :: digits) c
  /-- The code of the character with eight digits. -/
  | long {digits : List Char} {c : Char} :
      digits.length = 8 → digits.all (fun d => (hexValue? d).isSome) →
        hexNumber digits = c.toNat → Escape ('U' :: digits) c

/-- The quotes around a string. Between double quotes there are escapes, between
single ones there are none. -/
inductive Quotes where
  | double
  | single
deriving DecidableEq, Repr

/-- The character of quotes. -/
def Quotes.sign : Quotes → Char
  | double => '"'
  | single => '\''

/-- Whether a backslash between quotes begins an escape. -/
def Quotes.hasEscapes : Quotes → Bool
  | double => true
  | single => false

/-- What may stand between quotes for a text, over several lines or on one. -/
inductive Body (q : Quotes) (hasLines : Bool) : List Char → List Char → Prop
  | nil : Body q hasLines [] []
  /-- A character that stands for itself. -/
  | plain {c : Char} {written text : List Char} :
      isTextChar c → c ≠ q.sign → (c = '\\' → q = .single) → Body q hasLines
        written text → Body q hasLines (c :: written) (c :: text)
  /-- A character behind a backslash. -/
  | escape {escape : List Char} {c : Char} {written text : List Char} :
      q = .double → Escape escape c → Body q hasLines written text →
      Body q hasLines ('\\' :: (escape ++ written)) (c :: text)
  /-- The end of a line. -/
  | feed {written text : List Char} :
      hasLines = true → Body q hasLines written text →
        Body q hasLines ('\n' :: written) ('\n' :: text)
  /-- One or two quotes. -/
  | quotes {count : Nat} {written text : List Char} :
      hasLines = true → 1 ≤ count → count ≤ 2 →
        written.head? ≠ some q.sign → Body q hasLines written text →
        Body q hasLines (List.replicate count q.sign ++ written)
        (List.replicate count q.sign ++ text)

/-- What a string may be written as. -/
inductive Spells (q : Quotes) : List Char → String → Prop
  /-- On one line. -/
  | line {written text : List Char} :
      Body q false written text →
        Spells q (q.sign :: (written ++ [q.sign])) (String.ofList text)
  /-- Over several lines. -/
  | lines {written text : List Char} :
      Body q true written text → written.head? ≠ some '\n' → Spells q
        (List.replicate 3 q.sign ++ (written ++ List.replicate 3 q.sign))
        (String.ofList text)
  /-- Over several lines, from the next line on. -/
  | below {written text : List Char} :
      Body q true written text → Spells q (List.replicate 3 q.sign ++ '\n' ::
        (written ++ List.replicate 3 q.sign)) (String.ofList text)

theorem Spells.begins {q : Quotes} {written : List Char} {s : String}
    (spelled : Spells q written s) :
    ∃ rest, written = q.sign :: rest := by
  cases spelled with
  | line => exact ⟨_, rfl⟩
  | lines => exact ⟨_, rfl⟩
  | below => exact ⟨_, rfl⟩

/-- The code of a character is read with as many digits as it has. -/
theorem escapedCode_digits {digits : List Char} {c : Char}
    (hex : digits.all (fun d => (hexValue? d).isSome))
    (code : hexNumber digits = c.toNat) (behind : List Char) :
    escapedCode digits.length (digits ++ behind) = some (c, behind) := by
  have valid : (hexNumber digits).isValidChar := by
    rw [code]
    exact c.valid
  have same : Char.ofNatAux (hexNumber digits) valid = c := by
    generalize hexNumber digits = n at code valid
    subst code
    rfl
  show (if ((digits ++ behind).take digits.length).length = digits.length ∧
    ((digits ++ behind).take digits.length).all (fun d => (hexValue? d).isSome)
    then _ else none) = _
  rw [List.take_left, List.drop_left, if_pos ⟨rfl, hex⟩, dif_pos valid, same]

/-- **An escape is read** as the character that it stands for. -/
theorem escaped_escape {escape : List Char} {c : Char} (h : Escape escape c)
    (behind : List Char) :
    escaped (escape ++ behind) = some (c, behind) := by
  cases h with
  | letter known =>
    simp only [escapeLetters, List.mem_cons, Prod.mk.injEq, List.not_mem_nil,
      or_false] at known
    rcases known with ⟨rfl, rfl⟩ | ⟨rfl, rfl⟩ | ⟨rfl, rfl⟩ | ⟨rfl, rfl⟩ | ⟨rfl,
      rfl⟩ | ⟨rfl, rfl⟩ | ⟨rfl, rfl⟩
    all_goals rfl
  | short count hex code =>
    have read := escapedCode_digits hex code behind
    rw [count] at read
    simpa [escaped] using read
  | long count hex code =>
    have read := escapedCode_digits hex code behind
    rw [count] at read
    simpa [escaped] using read

/-- A character that may stand in double quotes is read as it stands. -/
theorem basicChar_plain {c : Char} (isText : isTextChar c) (noQuote : c ≠ '"')
    (noBackslash : c ≠ '\\') (behind : List Char) :
    basicChar (c :: behind) = some (some c, behind) := by
  simp only [basicChar, bind_apply, peek?_apply, Option.bind_some,
    List.head?_cons]
  rw [if_pos isText, map_apply, next_cons, Option.map_some]

section Bodies

variable {written text behind : List Char}

/-- The characters of a body in double quotes are read one by one. -/
theorem basic_body (body : Body .double false written text) (behind : List Char)
    {bound : Nat} (enough : written.length < bound) :
    upTo basicChar bound (written ++ '"' :: behind) =
      some (text, '"' :: behind) := by
  induction body generalizing bound with
  | nil => exact upTo_stop rfl enough
  | plain isText noQuote noBackslash _ ih =>
    obtain ⟨bound, rfl⟩ := Nat.exists_eq_add_one.2 (Nat.zero_lt_of_lt enough)
    have others := ih (Nat.lt_of_succ_lt_succ enough)
    have first := basicChar_plain isText noQuote
      (fun backslash => nomatch noBackslash backslash)
    exact upTo_step (first _) others
  | @escape escape c written text _ known _ ih =>
    obtain ⟨bound, rfl⟩ := Nat.exists_eq_add_one.2 (Nat.zero_lt_of_lt enough)
    have room : written.length < bound := by
      rw [List.length_cons, List.length_append] at enough
      omega
    have others := ih room
    have first := escaped_escape known (written ++ '"' :: behind)
    refine upTo_step ?_ others
    simp [basicChar, first]
  | feed several => exact Bool.noConfusion several
  | quotes several => exact Bool.noConfusion several

/-- A body in single quotes stands for itself. -/
theorem literal_body (body : Body .single false written text) :
    written = text ∧ ∀ c ∈ text, (isTextChar c && c != '\'') = true := by
  induction body with
  | nil => exact ⟨rfl, by simp⟩
  | plain isText noQuote _ _ ih =>
    have first : (isTextChar _ && _ != '\'') = true :=
      Bool.and_eq_true_iff.2 ⟨isText, bne_iff_ne.2 noQuote⟩
    exact ⟨congrArg _ ih.1, List.forall_mem_cons.2 ⟨first, ih.2⟩⟩
  | escape double => exact Quotes.noConfusion double
  | feed several => exact Bool.noConfusion several
  | quotes several => exact Bool.noConfusion several

end Bodies

/-- Only the empty text has nothing written for it. -/
theorem Body.text_nil {q : Quotes} {hasLines : Bool} {written text : List Char}
    (body : Body q hasLines written text) (nothing : written = []) :
    text = [] := by
  cases body with
  | nil => rfl
  | plain => exact absurd nothing (List.cons_ne_nil _ _)
  | escape => exact absurd nothing (List.cons_ne_nil _ _)
  | feed => exact absurd nothing (List.cons_ne_nil _ _)
  | quotes _ one =>
    rw [List.append_eq_nil_iff, List.replicate_eq_nil_iff] at nothing
    omega

section Lines

variable {q : Quotes} {written text behind : List Char}

/-- One or two quotes that stand together are a piece. -/
theorem linePiece_quotes {count : Nat} (some : 1 ≤ count) (few : count ≤ 2)
    (stops : behind.head? ≠ .some q.sign) :
    linePiece q.sign q.hasEscapes (List.replicate count q.sign ++ behind) =
      .some (.some (List.replicate count q.sign), behind) := by
  have counted := repeats_replicate count stops
  have head : (List.replicate count q.sign ++ behind).head? = .some q.sign := by
    obtain ⟨count, rfl⟩ := Nat.exists_eq_add_one.2 some
    rfl
  have short : count < 3 := Nat.lt_succ_of_le few
  simp [linePiece, head, counted, short]

/-- Where three quotes or more stand together, the pieces end. -/
theorem linePiece_closing (count : Nat) (many : 3 ≤ count)
    (stops : behind.head? ≠ some q.sign) :
    linePiece q.sign q.hasEscapes (List.replicate count q.sign ++ behind) =
      some (none, List.replicate count q.sign ++ behind) := by
  have counted := repeats_replicate count stops
  have head : (List.replicate count q.sign ++ behind).head? = some q.sign := by
    obtain ⟨count, rfl⟩ :=
      Nat.exists_eq_add_one.2 (Nat.lt_of_lt_of_le (by decide) many)
    rfl
  have enough : ¬ count < 3 := Nat.not_lt_of_le many
  simp [linePiece, head, counted, enough]

theorem linePiece_plain {c : Char} (isText : isTextChar c)
    (noQuote : c ≠ q.sign) (noBackslash : c = '\\' → q = .single)
    (behind : List Char) :
    linePiece q.sign q.hasEscapes (c :: behind) = some (some [c], behind) := by
  have noEscape : ¬ (c = '\\' ∧ q.hasEscapes = true) := by
    rintro ⟨backslash, escapes⟩
    rw [noBackslash backslash] at escapes
    exact Bool.noConfusion escapes
  have noFeed : ¬ (c = '\n' ∨ c = '\r') := by
    intro feed
    cases feed with
    | inl feed =>
      rw [feed] at isText
      exact absurd isText (by decide)
    | inr feed =>
      rw [feed] at isText
      exact absurd isText (by decide)
  simp [linePiece, noQuote, noEscape, noFeed, isText]

theorem linePiece_feed (behind : List Char) :
    linePiece q.sign q.hasEscapes ('\n' :: behind) =
      some (some ['\n'], behind) := by
  cases q <;> rfl

/-- No escape is taken for the end of a line. -/
theorem Escape.begins {escape : List Char} {c : Char} (h : Escape escape c) :
    ∃ l rest, escape = l :: rest ∧ isBlank l = false ∧ l ≠ '\n' ∧ l ≠ '\r' := by
  cases h with
  | letter known =>
    have none : ∀ letter ∈ escapeLetters, isBlank letter.1 = false ∧
        letter.1 ≠ '\n' ∧ letter.1 ≠ '\r' := by
      decide
    exact ⟨_, [], rfl, none _ known⟩
  | short => exact ⟨'u', _, rfl, by decide⟩
  | long => exact ⟨'U', _, rfl, by decide⟩

theorem linePiece_escape {escape : List Char} {c : Char}
    (known : Escape escape c) (behind : List Char) :
    linePiece '"' true ('\\' :: (escape ++ behind)) =
      some (some [c], behind) := by
  have read := escaped_escape known behind
  have joins : joinsLines ('\\' :: (escape ++ behind)) =
      some (false, '\\' :: (escape ++ behind)) := by
    obtain ⟨l, rest, rfl, noBlank, noFeed, noReturn⟩ := known.begins
    have noPair : ['\r', '\n'].isPrefixOf (l :: (rest ++ behind)) = false :=
      not_isPrefixOf fun same => noReturn (Option.some_inj.1 same)
    simp [joinsLines, noBlank, noFeed, noPair]
  simp [linePiece, joins, read]

/-- **A body over several lines is read piece by piece.** The quotes at its end
are left with the closing ones. -/
theorem lines_body (body : Body q true written text)
    (stops : behind.head? ≠ some q.sign) {bound : Nat}
    (enough : written.length < bound) :
    ∃ pieces inside, inside ≤ 2 ∧ pieces.flatten ++
      List.replicate inside q.sign = text ∧
      upTo (linePiece q.sign q.hasEscapes) bound
        (written ++ (List.replicate 3 q.sign ++ behind)) =
        some (pieces, List.replicate (inside + 3) q.sign ++ behind) := by
  induction body generalizing bound with
  | nil =>
    exact ⟨[], 0, by decide, rfl,
      upTo_stop (linePiece_closing 3 (Nat.le_refl 3) stops) enough⟩
  | plain isText noQuote noBackslash _ ih =>
    obtain ⟨bound, rfl⟩ := Nat.exists_eq_add_one.2 (Nat.zero_lt_of_lt enough)
    obtain ⟨pieces, inside, few, same, others⟩ :=
      ih (Nat.lt_of_succ_lt_succ enough)
    refine ⟨_ :: pieces, inside, few, ?_,
      upTo_step (linePiece_plain isText noQuote noBackslash _) others⟩
    simp [same]
  | @escape escape c written text double known _ ih =>
    obtain ⟨bound, rfl⟩ := Nat.exists_eq_add_one.2 (Nat.zero_lt_of_lt enough)
    have room : written.length < bound := by
      rw [List.length_cons, List.length_append] at enough
      omega
    obtain ⟨pieces, inside, few, same, others⟩ := ih room
    subst double
    have first :=
      linePiece_escape known (written ++ (List.replicate 3 '"' ++ behind))
    rw [← List.append_assoc] at first
    refine ⟨[c] :: pieces, inside, few, by simp [same], upTo_step first others⟩
  | feed _ _ ih =>
    obtain ⟨bound, rfl⟩ := Nat.exists_eq_add_one.2 (Nat.zero_lt_of_lt enough)
    obtain ⟨pieces, inside, few, same, others⟩ :=
      ih (Nat.lt_of_succ_lt_succ enough)
    exact ⟨['\n'] :: pieces, inside, few,
      by simp [same], upTo_step (linePiece_feed _) others⟩
  | @quotes count written text _ one two apart body ih =>
    obtain ⟨bound, rfl⟩ := Nat.exists_eq_add_one.2 (Nat.zero_lt_of_lt enough)
    rw [List.length_append, List.length_replicate] at enough
    rw [List.append_assoc]
    by_cases nothing : written = []
    · have closing :=
        linePiece_closing (q := q) (count + 3) (Nat.le_add_left 3 count) stops
      rw [← List.replicate_append_replicate, List.append_assoc] at closing
      rw [nothing, List.nil_append, body.text_nil nothing]
      refine ⟨[], count, two, by simp, ?_⟩
      rw [← List.replicate_append_replicate, List.append_assoc]
      exact upTo_stop closing (Nat.succ_pos _)
    · obtain ⟨c, rest, rfl⟩ := List.exists_cons_of_ne_nil nothing
      have room : (c :: rest).length < bound := by omega
      obtain ⟨pieces, inside, few, same, others⟩ := ih room
      refine ⟨List.replicate count q.sign :: pieces, inside, few,
        by simp [same], upTo_step ?_ others⟩
      exact linePiece_quotes one two apart

/-- A body with its closing quotes begins with no carriage return, and with a
line feed only if the body does. -/
theorem Body.begins (body : Body q true written text) (behind : List Char)
    (noFeed : written.head? ≠ some '\n') :
    ∃ c rest, written ++ (List.replicate 3 q.sign ++ behind) = c :: rest ∧
      c ≠ '\n' ∧ c ≠ '\r' := by
  have noSign : q.sign ≠ '\n' ∧ q.sign ≠ '\r' := by
    cases q <;> decide
  cases body with
  | nil => exact ⟨q.sign, _, rfl, noSign⟩
  | @plain c _ _ isText =>
    refine ⟨c, _, rfl, fun feed => noFeed (congrArg some feed), ?_⟩
    intro feed
    rw [feed] at isText
    exact absurd isText (by decide)
  | escape => exact ⟨'\\', _, rfl, by decide⟩
  | feed => exact absurd rfl noFeed
  | @quotes count _ _ _ one =>
    obtain ⟨count, rfl⟩ := Nat.exists_eq_add_one.2 one
    exact ⟨q.sign, _, rfl, noSign⟩

/-- Over several lines, what is between the quotes is read as the text. -/
theorem linesString_body (body : Body q true written text)
    (stops : behind.head? ≠ some q.sign) {front : List Char}
    (opens : front = ['\n'] ∨ front = [] ∧ written.head? ≠ some '\n') :
    linesString q.sign q.hasEscapes (List.replicate 3 q.sign ++
      (front ++ (written ++ (List.replicate 3 q.sign ++ behind)))) =
      some (String.ofList text, behind) := by
  have room : written.length <
      (written ++ (List.replicate 3 q.sign ++ behind)).length + 1 := by
    rw [List.length_append]
    omega
  obtain ⟨pieces, inside, few, same, read⟩ := lines_body body stops room
  have read : many (linePiece q.sign q.hasEscapes)
      (written ++ (List.replicate 3 q.sign ++ behind)) =
      some (pieces, List.replicate (inside + 3) q.sign ++ behind) := read
  have counted := repeats_replicate (inside + 3) stops
  have enough : ¬ inside + 3 < 3 := Nat.not_lt_of_le (Nat.le_add_left 3 inside)
  have kept : min (inside + 3) 5 - 3 = inside := by omega
  have closing : (List.replicate (inside + 3) q.sign ++ behind).drop
      (inside + 3) = behind :=
    List.drop_left' List.length_replicate
  have whole : String.ofList pieces.flatten ++
      String.ofList (List.replicate inside q.sign) = String.ofList text := by
    rw [← String.ofList_append, same]
  have begins := body.begins behind
  generalize written ++ (List.replicate 3 q.sign ++ behind) = inner
    at read begins ⊢
  cases opens with
  | inl feed =>
    subst feed
    change linesString _ _ (q.sign :: q.sign :: q.sign :: '\n' :: inner) = _
    simp only [linesString, bind_apply, skip_apply, List.drop_succ_cons,
      List.drop_zero, Option.bind_some, peek?_apply, List.head?_cons, newline,
      eat_cons, if_true, pure_apply, read, counted, kept]
    simp [enough, closing, whole]
  | inr direct =>
    obtain ⟨rfl, noFeed⟩ := direct
    obtain ⟨c, rest, rfl, notFeed, notReturn⟩ := begins noFeed
    change linesString _ _ (q.sign :: q.sign :: q.sign :: c :: rest) = _
    simp only [linesString, bind_apply, skip_apply, List.drop_succ_cons,
      List.drop_zero, Option.bind_some, peek?_apply, List.head?_cons]
    simp [notFeed, notReturn, read, counted, kept, enough, closing, whole]

end Lines

/-- A string on one line does not begin like one over several lines. -/
theorem Body.not_threefold {q : Quotes} {written text behind : List Char}
    (body : Body q false written text) (stops : behind.head? ≠ some q.sign) :
    [q.sign, q.sign, q.sign].isPrefixOf
      (q.sign :: (written ++ q.sign :: behind)) = false := by
  rw [List.isPrefixOf_cons_cons, beq_self_eq_true, Bool.true_and]
  cases body with
  | nil =>
    rw [List.nil_append, List.isPrefixOf_cons_cons, beq_self_eq_true,
      Bool.true_and]
    exact not_isPrefixOf stops
  | plain _ noQuote =>
    exact not_isPrefixOf fun same => noQuote (Option.some_inj.1 same)
  | escape =>
    apply not_isPrefixOf
    cases q <;> simp [Quotes.sign]
  | feed several => exact Bool.noConfusion several
  | quotes several => exact Bool.noConfusion several

/-- On one line, what is between the quotes is read as the text. -/
theorem string_line {q : Quotes} {written text behind : List Char}
    (body : Body q false written text) (stops : behind.head? ≠ some q.sign) :
    string (q.sign :: (written ++ q.sign :: behind)) =
      some (String.ofList text, behind) := by
  have one := body.not_threefold stops
  cases q with
  | double =>
    have room : written.length < (written ++ '"' :: behind).length + 1 := by
      rw [List.length_append]
      omega
    have chars : many basicChar (written ++ '"' :: behind) =
        some (text, '"' :: behind) := basic_body body behind room
    simp only [Quotes.sign] at one ⊢
    simp [string, one, basicString, chars]
  | single =>
    obtain ⟨rfl, all⟩ := literal_body body
    have chars := run_append (p := fun c => isTextChar c && c != '\'')
      (t := '\'' :: behind) all (fun c here => by cases here; decide)
    simp only [Quotes.sign] at one ⊢
    simp [string, one, literalString, chars]

theorem string_threefold (q : Quotes) (rest : List Char) :
    string (List.replicate 3 q.sign ++ rest) =
      linesString q.sign q.hasEscapes (List.replicate 3 q.sign ++ rest) := by
  cases q with
  | double => rfl
  | single => rfl

/-- **What is written for a string is read as that string**, up to its closing
quotes. -/
theorem string_spelled {q : Quotes} {written behind : List Char} {s : String}
    (spelled : Spells q written s) (stops : behind.head? ≠ some q.sign) :
    string (written ++ behind) = some (s, behind) := by
  cases spelled with
  | line body =>
    have read := string_line body stops
    simpa using read
  | lines body noFeed =>
    have read := linesString_body body stops (.inr ⟨rfl, noFeed⟩)
    rw [List.append_assoc, List.append_assoc, string_threefold]
    exact read
  | below body =>
    have read := linesString_body body stops (.inl rfl)
    rw [List.append_assoc, List.cons_append, List.append_assoc,
      string_threefold]
    exact read

theorem hexValue?_codeDigit {n : Nat} (h : n < 16) :
    hexValue? (codeDigit n) = some n := by
  have all : ∀ n < 16, hexValue? (codeDigit n) = some n := by decide
  exact all n h

/-- The code of a control character. -/
theorem Escape.control {c : Char} (control : isControl c) :
    Escape ['u', '0', '0', codeDigit (c.toNat / 16),
      codeDigit (c.toNat % 16)] c := by
  have small : c.toNat < 256 := by
    simp only [isControl, Bool.or_eq_true, decide_eq_true_eq, beq_iff_eq]
      at control
    omega
  have high := hexValue?_codeDigit (n := c.toNat / 16) (by omega)
  have low := hexValue?_codeDigit (n := c.toNat % 16) (Nat.mod_lt _ (by decide))
  have zero : hexValue? '0' = some 0 := by decide
  refine .short rfl (by simp [high, low, zero]) ?_
  simp only [hexNumber, List.foldl_cons, List.foldl_nil, zero, high, low]
  omega

/-- A character that is no control character may stand in a string. -/
theorem isTextChar_of_not_control {c : Char} (noControl : isControl c = false) :
    isTextChar c = true := by
  simp only [isControl, Bool.or_eq_false_iff, decide_eq_false_iff_not,
    beq_eq_false_iff_ne] at noControl
  simp only [isTextChar, Bool.or_eq_true, Bool.and_eq_true,
    decide_eq_true_eq, bne_iff_ne]
  exact .inr ⟨by omega, noControl.2⟩

/-- A character is written as it stands or as an escape. -/
theorem Body.escapeChar {hasLines : Bool} {written text : List Char} (c : Char)
    (body : Body .double hasLines written text) :
    Body .double hasLines (Toml.escapeChar c ++ written) (c :: text) := by
  have letter : ∀ {l c : Char}, (l, c) ∈ escapeLetters →
      Body .double hasLines ('\\' :: l :: written) (c :: text) :=
    fun known => .escape rfl (.letter known) body
  unfold Toml.escapeChar
  split
  iterate 7 exact letter (by decide)
  next noQuote noBackslash _ _ _ _ _ =>
    cases control : isControl c with
    | true => exact .escape rfl (Escape.control control) body
    | false =>
      have isText := isTextChar_of_not_control control
      exact .plain isText noQuote
        (fun backslash => absurd backslash noBackslash) body

/-- A text without single quotes and control characters stands for itself. -/
theorem Body.literal {cs : List Char}
    (all : ∀ c ∈ cs, (c != '\'' && !isControl c) = true) :
    Body .single false cs cs := by
  induction cs with
  | nil => exact .nil
  | cons c cs ih =>
    obtain ⟨first, others⟩ := List.forall_mem_cons.1 all
    rw [Bool.and_eq_true, bne_iff_ne, Bool.not_eq_true'] at first
    exact .plain (isTextChar_of_not_control first.2) first.1
      (fun _ => rfl) (ih others)

/-- **A quoted string is one of the ways to write it.** -/
theorem quote_spells (s : String) : ∃ q, Spells q (quote s).toList s := by
  rw [quote]
  split
  · next literal =>
    have all := (Bool.and_eq_true_iff.1 literal).2
    have spelled := Spells.line (Body.literal (List.all_eq_true.1 all))
    rw [String.ofList_toList] at spelled
    refine ⟨.single, ?_⟩
    rw [String.toList_ofList]
    exact spelled
  · have body : Body .double false (s.toList.flatMap escapeChar) s.toList := by
      generalize s.toList = cs
      induction cs with
      | nil => exact .nil
      | cons c cs ih => exact ih.escapeChar c
    have spelled := Spells.line body
    rw [String.ofList_toList] at spelled
    refine ⟨.double, ?_⟩
    rw [String.toList_ofList]
    exact spelled

end NullGuard.Toml
