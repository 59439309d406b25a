import NullGuard.Command.Invocation

/-!
# Shorthands behind global options

A command line is a shorthand if its first word that does not look like an
option is a source file. Words that look like options are passed over, so
options without values in front of a command line change nothing. The value of
an option that stands in a word of its own looks like no option, though, unless
it is a lone dash. So it is taken for the word that decides
(`isShorthand_globals`): behind `--format json` no source file is found any
more, and behind `--config a.js` every command is.

`shorthand_behind_globals` says for which global options in front the answer
stays the same for every command line: for those among which no value stands
apart that could be taken for a file or a command.
-/

namespace NullGuard.Command

open NullGuard.Files (isSourceFile)

/-- The name of a format. -/
def Format.word : Format → String
  | text => "text"
  | json => "json"

/-- Whether a word looks like an option. -/
def looksLikeOption (word : String) : Bool :=
  word.startsWith "-"

/-- A word that can be the path behind `--config`: it is not empty, and it does
not look like an option unless it is a lone dash. -/
structure PathWord where
  text : String
  ne_empty : text ≠ ""
  value : text = "-" ∨ looksLikeOption text = false

/-- A global option, its value, if it has one, in a word of its own. -/
inductive GlobalOption where
  | format (value : Format)
  | settings (path : PathWord)
  | verbose (isShort : Bool)
  | quiet (isShort : Bool)
  | noColor

namespace GlobalOption

/-- The words of a global option. -/
def words : GlobalOption → List String
  | format value => ["--format", value.word]
  | settings path => ["--config", path.text]
  | verbose isShort => [if isShort then "-v" else "--verbose"]
  | quiet isShort => [if isShort then "-q" else "--quiet"]
  | noColor => ["--no-color"]

/-- The value of a global option if it does not look like an option. -/
def looseValue? : GlobalOption → Option String
  | format value => some value.word
  | settings path => if path.text = "-" then none else some path.text
  | _ => none

end GlobalOption

/-- The words of several global options. -/
def globalWords (os : List GlobalOption) : List String :=
  os.flatMap GlobalOption.words

/-- Whether a word makes a shorthand of the command line that it is the first
operand of. -/
def opensShorthand (word : String) : Bool :=
  (Action.ofWord? word).isNone && isSourceFile word

/-- Whether the first of some words that does not look like an option opens a
shorthand. -/
def decided (words : List String) : Bool :=
  match words.find? fun word => !looksLikeOption word with
  | some word => opensShorthand word
  | none => false

theorem isShorthand_cons (program : String) (words : List String) :
    isShorthand (program :: words) = decided words :=
  rfl

theorem looksLikeOption_iff (word : String) :
    looksLikeOption word = true ↔ word.toList.head? = some '-' := by
  have dash : "-".toList = ['-'] := by decide
  rw [looksLikeOption, String.startsWith_string_iff, dash]
  cases word.toList with
  | nil => simp
  | cons c cs => simp [eq_comm]

theorem looksLikeOption_of_head {word : String}
    (head : word.toList.head? = some '-') :
    looksLikeOption word = true :=
  (looksLikeOption_iff word).2 head

/-- A word that looks like an option decides nothing. -/
theorem decided_option {word : String} (isOption : looksLikeOption word = true)
    (words : List String) :
    decided (word :: words) = decided words := by
  rw [decided, decided, List.find?_cons_of_neg (by simp [isOption])]

/-- The first other word decides. -/
theorem decided_operand {word : String}
    (isOperand : looksLikeOption word = false) (words : List String) :
    decided (word :: words) = opensShorthand word := by
  rw [decided, List.find?_cons_of_pos (by simp [isOperand])]

/-- The name of a format does not look like an option. -/
theorem format_looksLikeOption (value : Format) :
    looksLikeOption value.word = false := by
  rw [Bool.eq_false_iff, ne_eq, looksLikeOption_iff]
  cases value <;> decide

/-- The name of a format opens no shorthand. -/
theorem format_opensShorthand (value : Format) :
    opensShorthand value.word = false := by
  cases value <;> decide +kernel

/-- **One global option in front** decides by its value if that does not look
like an option, and nothing otherwise. -/
theorem decided_words (o : GlobalOption) (rest : List String) :
    decided (o.words ++ rest) = (o.looseValue?.map opensShorthand).getD
      (decided rest) := by
  cases o with
  | format value =>
    have name : looksLikeOption "--format" = true :=
      looksLikeOption_of_head (by decide)
    rw [GlobalOption.words, List.cons_append, decided_option name,
      List.singleton_append, decided_operand (format_looksLikeOption value)]
    rfl
  | settings path =>
    have name : looksLikeOption "--config" = true :=
      looksLikeOption_of_head (by decide)
    rw [GlobalOption.words, List.cons_append, decided_option name,
      List.singleton_append]
    by_cases dash : path.text = "-"
    · have isOption : looksLikeOption path.text = true :=
        looksLikeOption_of_head (by rw [dash]; decide)
      rw [decided_option isOption, GlobalOption.looseValue?, if_pos dash]
      rfl
    · rw [decided_operand (path.value.resolve_left dash),
        GlobalOption.looseValue?, if_neg dash]
      rfl
  | verbose isShort | quiet isShort =>
    rw [GlobalOption.words, List.singleton_append, decided_option]
    · rfl
    · apply looksLikeOption_of_head
      cases isShort <;> decide
  | noColor =>
    have name : looksLikeOption "--no-color" = true :=
      looksLikeOption_of_head (by decide)
    rw [GlobalOption.words, List.singleton_append, decided_option name]
    rfl

/-- **Global options in front** decide by the first of their values that does
not look like an option. -/
theorem decided_globals (os : List GlobalOption) (rest : List String) :
    decided (globalWords os ++ rest) =
      ((os.findSome? GlobalOption.looseValue?).map opensShorthand).getD
      (decided rest) := by
  induction os with
  | nil => rfl
  | cons o os ih =>
    rw [globalWords, List.flatMap_cons, List.append_assoc, decided_words,
      List.findSome?_cons]
    cases o.looseValue? with
    | none => exact ih
    | some value => rfl

/-- Whether a command line is a shorthand, told from the global options in front
of it. -/
theorem isShorthand_globals (program : String) (os : List GlobalOption)
    (rest : List String) :
    isShorthand (program :: (globalWords os ++ rest)) =
      match os.findSome? GlobalOption.looseValue? with
      | some value => opensShorthand value
      | none => isShorthand (program :: rest) := by
  rw [isShorthand_cons, decided_globals]
  cases os.findSome? GlobalOption.looseValue? <;> rfl

/-- A command line is written out just if it is a shorthand. -/
theorem writtenOut_cons (program : String) (words : List String) :
    writtenOut (program :: words) = if isShorthand (program :: words)
      then program :: "transform" :: words else program :: words :=
  rfl

/-- A source file is a command line that is a shorthand. -/
theorem isShorthand_file (program : String) :
    isShorthand [program, "a.js"] = true := by
  rw [isShorthand_cons, decided_operand (by decide +kernel)]
  decide +kernel

/-- **Which global options in front of a command line leave a shorthand
recognised.** The word that decides is the first value in a word of its own that
does not look like an option, and behind all values the rest of the line. So the
answer is the one without the options, for every rest, just if there is no such
value; then a source file behind the options is transformed, and a line with a
command is left as it is. With a format in front nothing is a shorthand. -/
theorem shorthand_behind_globals (program : String) (os : List GlobalOption) :
    (∀ rest, isShorthand (program :: (globalWords os ++ rest)) =
      match os.findSome? GlobalOption.looseValue? with
      | some value => opensShorthand value
      | none => isShorthand (program :: rest)) ∧
    ((∀ rest, isShorthand (program :: (globalWords os ++ rest)) = isShorthand
      (program :: rest)) ↔ os.findSome? GlobalOption.looseValue? = none) ∧
    (os.findSome? GlobalOption.looseValue? = none →
      ∀ word rest, looksLikeOption word = false → (opensShorthand word = true →
      writtenOut (program :: (globalWords os ++ word :: rest)) = program ::
      "transform" :: (globalWords os ++ word :: rest)) ∧
      ((Action.ofWord? word).isSome = true →
        writtenOut (program :: (globalWords os ++ word :: rest)) = program ::
        (globalWords os ++ word :: rest))) ∧
    (∀ value rest, writtenOut (program :: ((GlobalOption.format value).words ++
      globalWords os ++ rest)) = program ::
      ((GlobalOption.format value).words ++ globalWords os ++ rest)) := by
  refine ⟨isShorthand_globals program os, ?_, ?_, ?_⟩
  · constructor
    · intro same
      cases loose : os.findSome? GlobalOption.looseValue? with
      | none => rfl
      | some value =>
        -- One value decides both the empty rest and a source file, which differ
        -- without the options.
        have empty := same []
        have file := same ["a.js"]
        rw [isShorthand_globals, loose] at empty file
        rw [isShorthand_file] at file
        have neither : isShorthand [program] = false := rfl
        rw [neither] at empty
        exact absurd (file.symm.trans empty) (by decide)
    · intro none rest
      rw [isShorthand_globals, none]
  · intro none word rest isOperand
    have verdict : isShorthand (program :: (globalWords os ++ word :: rest)) =
        opensShorthand word := by
      rw [isShorthand_globals, none, isShorthand_cons,
        decided_operand isOperand]
    constructor
    · intro opens
      rw [writtenOut_cons, verdict, if_pos opens]
    · intro isCommand
      have closed : opensShorthand word = false := by
        rw [opensShorthand, Option.isNone_eq_false_iff.2 isCommand,
          Bool.false_and]
      rw [writtenOut_cons, verdict, closed, if_neg Bool.false_ne_true]
  · intro value rest
    have verdict : isShorthand (program :: ((GlobalOption.format value).words ++
        globalWords os ++ rest)) = false := by
      rw [isShorthand_cons, List.append_assoc, decided_words]
      exact format_opensShorthand value
    rw [writtenOut_cons, verdict, if_neg Bool.false_ne_true]

end NullGuard.Command
