import NullGuard.Command.Init
import NullGuard.Config.Settings
import NullGuard.Proofs.StringNotations

/-!
# Settings files are read back

The file that is written for options has a line for the header of its table and
one for each option. The lines are read one by one, whatever is behind them, and
so are the comments that stand in front in a fresh file (`parse?_lines`). The
name is read whatever it is written as (`string_spelled`); the file that is
written uses one of the ways.
-/

namespace NullGuard.Toml

open NullGuard.Text (hexValue?)
open Scan

theorem blanks_append (gap : List Char) {behind : List Char}
    (blank : ∀ c ∈ gap, isBlank c = true)
    (stops : ∀ c, behind.head? = some c → isBlank c = false) :
    blanks (gap ++ behind) = some ((), behind) := by
  simp [blanks, run_append blank stops]

theorem not_bare {c : Char} (blank : isBlank c = true) :
    isBareChar c = false := by
  simp only [isBlank, Bool.or_eq_true, beq_iff_eq] at blank
  rcases blank with rfl | rfl <;> decide

theorem not_blank {c : Char} (bare : isBareChar c = true) :
    isBlank c = false := by
  apply Bool.eq_false_iff.2
  intro blank
  rw [not_bare blank] at bare
  exact Bool.noConfusion bare

/-- No blanks are left out in front of a name. -/
theorem blanks_bare {c : Char} (bare : isBareChar c = true) (rest : List Char) :
    blanks (c :: rest) = some ((), c :: rest) := by
  apply blanks_append [] (fun _ h => absurd h List.not_mem_nil)
  intro other here
  cases here
  exact not_blank bare

/-- A name without quotes is read up to what stands behind it, blanks aside. -/
theorem key_bare {name : List Char} (gap : List Char) {behind : List Char}
    {stop : Char} (bare : ∀ c ∈ name, isBareChar c = true)
    (nonempty : name ≠ []) (blank : ∀ c ∈ gap, isBlank c = true)
    (isStop : stop = '=' ∨ stop = ']') :
    key (name ++ (gap ++ stop :: behind)) =
      some (⟨[], String.ofList name⟩, stop :: behind) := by
  obtain ⟨first, others, rfl⟩ := List.exists_cons_of_ne_nil nonempty
  have firstBare := bare first List.mem_cons_self
  have differs : ∀ d, isBareChar d = false → first ≠ d :=
    fun _ => ne_of_class firstBare
  have front := blanks_bare firstBare (others ++ (gap ++ stop :: behind))
  have word : run isBareChar (first :: others ++ (gap ++ stop :: behind)) =
      some (first :: others, gap ++ stop :: behind) := by
    apply run_append bare
    intro c here
    cases gap with
    | nil =>
      cases here
      rcases isStop with rfl | rfl <;> decide
    | cons other gap =>
      cases here
      exact not_bare (blank c List.mem_cons_self)
  have back : blanks (gap ++ stop :: behind) = some ((), stop :: behind) := by
    apply blanks_append gap blank
    intro c here
    cases here
    rcases isStop with rfl | rfl <;> decide
  have part : keyPart (first :: others ++ (gap ++ stop :: behind)) =
      some (String.ofList (first :: others), stop :: behind) := by
    rw [List.cons_append] at word ⊢
    simp [keyPart, front, word, back, differs '"' (by decide),
      differs '\'' (by decide)]
  have noDot : (stop :: behind).head? ≠ some '.' := by
    rcases isStop with rfl | rfl <;> simp
  have rest : many (do if ← eat '.' then some <$> keyPart else return none)
      (stop :: behind) = some ([], stop :: behind) :=
    upTo_stop (by simp [eat_of_head noDot]) (Nat.succ_pos _)
  simp only [key, bind_apply, part, Option.bind_some, rest]
  rfl

theorem value_scalar {c : Char} (noBracket : c ≠ '[') (noBrace : c ≠ '\x7b')
    (rest : List Char) :
    value (c :: rest) = scalar (c :: rest) := by
  have outer : ∀ depth, valueWithin (depth + 1) (c :: rest) =
      scalar (c :: rest) := by
    intro depth
    simp [valueWithin, noBracket, noBrace]
  exact outer (depthLimit - 2)

/-- A string is read as a value, whatever it is written as. -/
theorem value_spelled {q : Quotes} {written behind : List Char} {s : String}
    (spelled : Spells q written s) (stops : behind.head? ≠ some q.sign) :
    value (written ++ behind) = some (.string s, behind) := by
  have read := string_spelled spelled stops
  obtain ⟨rest, rfl⟩ := spelled.begins
  rw [List.cons_append] at read ⊢
  cases q with
  | double =>
    rw [value_scalar (by decide) (by decide)]
    simp only [Quotes.sign] at read
    simp [scalar, Quotes.sign, read]
  | single =>
    rw [value_scalar (by decide) (by decide)]
    simp only [Quotes.sign] at read
    simp [scalar, Quotes.sign, read]

section Numbers

theorem toNat_of_isDigit {c : Char} (digit : c.isDigit = true) :
    '0'.toNat ≤ c.toNat ∧ c.toNat ≤ '9'.toNat := by
  simp only [Char.isDigit, Bool.and_eq_true, decide_eq_true_eq] at digit
  exact digit

/-- The value of a digit of base ten. -/
def digitValue (c : Char) : Nat :=
  c.toNat - '0'.toNat

theorem hexValue?_of_isDigit {c : Char} (digit : c.isDigit = true) :
    hexValue? c = some (digitValue c) := by
  have within : '0' ≤ c ∧ c ≤ '9' := toNat_of_isDigit digit
  rw [hexValue?, if_pos within, digitValue]

/-- The values of digits. -/
theorem filterMap_digits {ds : List Char} (digit : ∀ c ∈ ds, c.isDigit = true) :
    ds.filterMap hexValue? = ds.map digitValue := by
  induction ds with
  | nil => rfl
  | cons d ds ih =>
    obtain ⟨first, others⟩ := List.forall_mem_cons.1 digit
    rw [List.filterMap_cons, hexValue?_of_isDigit first, ih others,
      List.map_cons]

/-- Digits without underscores are spaced. -/
theorem isSpaced_digits {ds : List Char} (digit : ∀ c ∈ ds, c.isDigit = true)
    (nonempty : ds ≠ []) : isSpaced ds = true := by
  have noSign : '_' ∉ ds := by
    intro member
    exact absurd (digit _ member) (by decide)
  have first : ds.head? ≠ some '_' :=
    fun here => noSign (List.mem_of_head? here)
  have last : ds.getLast? ≠ some '_' :=
    fun here => noSign (List.mem_of_getLast? here)
  have pairs : ('_', '_') ∉ ds.zip ds.tail :=
    fun member => noSign (List.of_mem_zip member).1
  simp [isSpaced, nonempty, first, last, pairs]

/-- The digits of a number are read as that number. -/
theorem wholePart_digits (n : Nat) (behind : List Char) :
    ∃ ds, wholePart (Nat.toDigits 10 n ++ '\n' :: behind) =
      some (ds, '\n' :: behind) ∧
      numberOf 10 ds = n := by
  have digit := isDigit_of_mem_digits n
  have read : run (fun c => c == '_' || (hexValue? c).any (· < 10))
      (Nat.toDigits 10 n ++ '\n' :: behind) =
      some (Nat.toDigits 10 n, '\n' :: behind) := by
    apply run_append
    · intro c member
      have bounds := toNat_of_isDigit (digit c member)
      have small : digitValue c < 10 := by
        have nine : '9'.toNat = '0'.toNat + 9 := rfl
        unfold digitValue
        omega
      rw [hexValue?_of_isDigit (digit c member), Option.any_some,
        decide_eq_true small, Bool.or_true]
    · intro c here
      cases here
      decide
  have spaced := isSpaced_digits digit Nat.toDigits_ne_nil
  have begins : (((Nat.toDigits 10 n).map digitValue).head? == some 0 &&
      ((Nat.toDigits 10 n).map digitValue).length != 1) = false := by
    obtain ⟨c, others, written, isDigit, alone⟩ := digits_begin n
    rw [written]
    by_cases zero : c = '0'
    · rw [zero, alone zero]
      rfl
    · have bounds := toNat_of_isDigit isDigit
      have differ : c.toNat ≠ '0'.toNat :=
        fun same => zero (Char.toNat_inj.1 same)
      have value : digitValue c ≠ 0 := by
        unfold digitValue
        omega
      rw [List.map_cons, List.head?_cons, beq_eq_false_iff_ne.2 fun same =>
        value (Option.some_inj.1 same), Bool.false_and]
  refine ⟨(Nat.toDigits 10 n).map digitValue, ?_, ?_⟩
  · simp only [wholePart, digits, bind_apply, read, Option.bind_some, spaced,
      filterMap_digits digit, if_true, pure_apply, begins]
    rfl
  · calc
      numberOf 10 ((Nat.toDigits 10 n).map digitValue) =
        Nat.ofDigitChars 10 (Nat.toDigits 10 n) 0 := by
        rw [numberOf, List.foldl_map]; rfl
      _ = n := Nat.ofDigitChars_ten_toDigits

/-- In digits with a line feed behind them only digits and that line feed come
after digits. -/
theorem head?_behind_digits {ds behind : List Char}
    (digit : ∀ c ∈ ds, c.isDigit = true) (count : Nat)
    (front : ((ds ++ '\n' :: behind).take count).all Char.isDigit = true) :
    ∃ c, ((ds ++ '\n' :: behind).drop count).head? = some c ∧
      (c.isDigit = true ∨ c = '\n') := by
  induction ds generalizing count with
  | nil =>
    cases count with
    | zero => exact ⟨'\n', rfl, .inr rfl⟩
    | succ count =>
      rw [List.nil_append, List.take_succ_cons, List.all_cons] at front
      exact Bool.noConfusion front
  | cons d ds ih =>
    obtain ⟨first, others⟩ := List.forall_mem_cons.1 digit
    cases count with
    | zero => exact ⟨d, rfl, .inl first⟩
    | succ count =>
      rw [List.cons_append, List.take_succ_cons, List.all_cons,
        Bool.and_eq_true] at front
      exact ih others count front.2

/-- A number is no date and no time. -/
theorem no_moment {ds : List Char} (digit : ∀ c ∈ ds, c.isDigit = true)
    (behind : List Char) :
    seesDate (ds ++ '\n' :: behind) = some (false, ds ++ '\n' :: behind) ∧
      seesTime 0 (ds ++ '\n' :: behind) =
        some (false, ds ++ '\n' :: behind) := by
  have apart : ∀ count c, c.isDigit = false → c ≠ '\n' →
      (((ds ++ '\n' :: behind).take count).all Char.isDigit &&
      ((ds ++ '\n' :: behind).drop count).head? == some c) = false := by
    intro count c noDigit noFeed
    rw [Bool.and_eq_false_iff]
    by_cases front : ((ds ++ '\n' :: behind).take count).all Char.isDigit = true
    · obtain ⟨other, here, kind⟩ := head?_behind_digits digit count front
      right
      rw [here, beq_eq_false_iff_ne]
      intro same
      cases same
      cases kind with
      | inl isDigit =>
        exact absurd isDigit (by rw [noDigit]; exact Bool.false_ne_true)
      | inr feed => exact noFeed feed
    · exact .inl (Bool.eq_false_iff.2 front)
  constructor
  · rw [seesDate, apart 4 '-' (by decide) (by decide), Bool.false_and]
  · simp only [seesTime, List.drop_zero, apart 2 ':' (by decide) (by decide)]

/-- A number without fraction and exponent is read behind its sign. -/
theorem decimal_digits {n : Nat} (small : n < 0x8000000000000000)
    (behind : List Char) :
    decimal false (Nat.toDigits 10 n ++ '\n' :: behind) =
      some (.integer n, '\n' :: behind) := by
  obtain ⟨ds, read, value⟩ := wholePart_digits n behind
  have noFraction : fractionPart ('\n' :: behind) =
      some (none, '\n' :: behind) := rfl
  have noExponent : exponentPart ('\n' :: behind) =
      some (none, '\n' :: behind) := rfl
  have whole : whole? (n : Int) = some (.integer n) := by
    rw [whole?, if_pos]
    omega
  have alone : ((none : Option (List Nat)).isNone &&
      (none : Option Int).isNone) = true := rfl
  rw [decimal, bind_apply, read, Option.bind_some, bind_apply, noFraction,
    Option.bind_some, bind_apply, noExponent, Option.bind_some, if_pos alone]
  -- With the number in place, reducing the match would count up to the largest
  -- number.
  generalize found : whole? _ = item
  rw [if_neg Bool.false_ne_true, value, whole] at found
  rw [← found]
  rfl

/-- A number in base ten is read as such. -/
theorem number_digits {n : Nat} (small : n < 0x8000000000000000)
    (behind : List Char) :
    number (Nat.toDigits 10 n ++ '\n' :: behind) =
      some (.integer n, '\n' :: behind) := by
  obtain ⟨c, others, written, digit, alone⟩ := digits_begin n
  have noBase : ∀ letter, letter ≠ '\n' →
      ['0', letter].isPrefixOf (c :: (others ++ '\n' :: behind)) = false := by
    intro letter noFeed
    by_cases zero : c = '0'
    · rw [zero, alone zero, List.isPrefixOf_cons_cons, beq_self_eq_true,
        Bool.true_and]
      exact not_isPrefixOf fun same => noFeed (Option.some_inj.1 same).symm
    · exact not_isPrefixOf fun same => zero (Option.some_inj.1 same)
  have differs : ∀ d, d.isDigit = false → c ≠ d := fun _ => ne_of_class digit
  rw [written, List.cons_append]
  have noSign : numberSign (c :: (others ++ '\n' :: behind)) =
      some (none, c :: (others ++ '\n' :: behind)) := by
    have noMinus : eat '-' (c :: (others ++ '\n' :: behind)) =
        some (false, c :: (others ++ '\n' :: behind)) :=
      eat_of_head fun same => differs '-' (by decide) (Option.some_inj.1 same)
    have noPlus : eat '+' (c :: (others ++ '\n' :: behind)) =
        some (false, c :: (others ++ '\n' :: behind)) :=
      eat_of_head fun same => differs '+' (by decide) (Option.some_inj.1 same)
    simp [numberSign, noMinus, noPlus]
  have read := decimal_digits small behind
  rw [written, List.cons_append] at read
  simp only [number, bind_apply, sees_apply, Option.bind_some,
    noBase 'x' (by decide), noBase 'o' (by decide), noBase 'b' (by decide),
    Bool.false_eq_true, if_false, noSign, peek?_apply, List.head?_cons]
  simp [differs 'i' (by decide), differs 'n' (by decide), read]

/-- A number is read. -/
theorem value_digits {n : Nat} (small : n < 0x8000000000000000)
    (behind : List Char) :
    value (Nat.toDigits 10 n ++ '\n' :: behind) =
      some (.integer n, '\n' :: behind) := by
  have read := number_digits small behind
  obtain ⟨noDate, noTime⟩ := no_moment (isDigit_of_mem_digits n) behind
  obtain ⟨c, others, written, digit, -⟩ := digits_begin n
  have differs : ∀ d, d.isDigit = false → c ≠ d := fun _ => ne_of_class digit
  rw [written, List.cons_append] at read noDate noTime ⊢
  rw [value_scalar (differs '[' (by decide)) (differs '\x7b' (by decide))]
  simp only [scalar, bind_apply, peek?_apply, Option.bind_some, List.head?_cons]
  simp [differs '"' (by decide), differs '\'' (by decide),
    differs 't' (by decide), differs 'f' (by decide), differs 'i' (by decide),
    differs 'n' (by decide), noDate, noTime, digit, read]

end Numbers

theorem restOfLine_feed (behind : List Char) :
    restOfLine ('\n' :: behind) = some ((), behind) :=
  rfl

/-- A comment is a line. -/
theorem line?_comment {remark : List Char}
    (text : ∀ c ∈ remark, isTextChar c = true) (behind : List Char) :
    line? ('#' :: (remark ++ '\n' :: behind)) = some (some .blank, behind) := by
  have read := run_append (p := isTextChar) (t := '\n' :: behind) text
    (fun c here => by cases here; decide)
  have front : blanks ('#' :: (remark ++ '\n' :: behind)) =
      some ((), '#' :: (remark ++ '\n' :: behind)) := rfl
  simp [line?, front, restOfLine, comment, read, lineEnd, newline]

/-- A header is a line. -/
theorem line?_table (name : List Char) (bare : ∀ c ∈ name, isBareChar c = true)
    (nonempty : name ≠ []) (behind : List Char) :
    line? ('[' :: (name ++ ']' :: '\n' :: behind)) =
      some (some (.table ⟨[], String.ofList name⟩), behind) := by
  have read : key (name ++ ']' :: '\n' :: behind) = _ :=
    key_bare [] bare nonempty (fun _ h => absurd h List.not_mem_nil) (.inr rfl)
  have front : blanks ('[' :: (name ++ ']' :: '\n' :: behind)) =
      some ((), '[' :: (name ++ ']' :: '\n' :: behind)) := rfl
  have single : eat '[' (name ++ ']' :: '\n' :: behind) =
      some (false, name ++ ']' :: '\n' :: behind) := by
    obtain ⟨c, others, rfl⟩ := List.exists_cons_of_ne_nil nonempty
    apply eat_of_head
    intro same
    exact ne_of_class (d := '[') (bare c List.mem_cons_self) (by decide)
      (Option.some_inj.1 same)
  simp [line?, front, headerLine, single, read, restOfLine_feed]

/-- A setting is a line. -/
theorem line?_setting {name written : List Char} {v : Item}
    (bare : ∀ c ∈ name, isBareChar c = true) (nonempty : name ≠ [])
    {behind : List Char}
    (reads : value (written ++ '\n' :: behind) = some (v, '\n' :: behind))
    (noBlank : ∀ c, (written ++ '\n' :: behind).head? = some c →
      isBlank c = false) :
    line? (name ++ ' ' :: '=' :: ' ' :: (written ++ '\n' :: behind)) =
      some (some (.setting ⟨[], String.ofList name⟩ v), behind) := by
  have read : key (name ++ ' ' :: '=' :: ' ' :: (written ++ '\n' :: behind)) =
      _ :=
    key_bare [' '] bare nonempty (List.all_eq_true.1 rfl) (.inl rfl)
  have gap : blanks (' ' :: (written ++ '\n' :: behind)) = _ :=
    blanks_append [' '] (List.all_eq_true.1 rfl) noBlank
  obtain ⟨c, others, rfl⟩ := List.exists_cons_of_ne_nil nonempty
  have differs : ∀ d, isBareChar d = false → c ≠ d :=
    fun _ => ne_of_class (bare c List.mem_cons_self)
  have front := blanks_bare (bare c List.mem_cons_self)
    (others ++ ' ' :: '=' :: ' ' :: (written ++ '\n' :: behind))
  rw [List.cons_append] at read ⊢
  simp only [line?, bind_apply, front, Option.bind_some, peek?_apply,
    List.head?_cons]
  simp [differs '#' (by decide), differs '\n' (by decide), differs '\r'
    (by decide), differs '[' (by decide), read, gap, reads, restOfLine_feed]

/-- What is written on a line for what it does, its end included. -/
def WritesLine (written : List Char) (line : Line) : Prop :=
  written ≠ [] ∧ ∀ behind, line? (written ++ behind) = some (some line, behind)

/-- **A file of lines is read line by line.** -/
theorem parse?_lines {text : String} {lines : List (List Char × Line)}
    (written : text.toList = lines.flatMap Prod.fst)
    (noMark : text.toList.head? ≠ some '\uFEFF')
    (writes : ∀ l ∈ lines, WritesLine l.1 l.2) :
    parse? text =
      ((lines.map Prod.snd).foldlM Document.add? {}).map Document.fields := by
  have read : many line? (lines.flatMap Prod.fst ++ []) =
      some (lines.map Prod.snd, []) := by
    apply many_free
    · exact fun l member => (writes l member).2
    · exact fun l member => (writes l member).1
    · rfl
  rw [List.append_nil, ← written] at read
  rw [parse?]
  split
  · next here =>
    exact absurd (by rw [here]; rfl) noMark
  · rw [read, Option.map_eq_bind]
    rfl

end NullGuard.Toml

namespace NullGuard.Config

open NullGuard.Toml NullGuard.Transform

/-- A settings file for options, in which the name is written in some way. -/
def settingsWith (written : String) (o : Options) : String :=
  "[transform]\n" ++
    "import_name = " ++ written ++ "\n" ++
    "policy = " ++ Toml.quote o.policy.name ++ "\n" ++
    "async_method_hoist = " ++ toString o.asyncMethodHoist.toNat ++ "\n"

/-- What is written on the line of a setting. -/
def settingText (name written : List Char) : List Char :=
  name ++ ' ' :: '=' :: ' ' :: (written ++ ['\n'])

/-- The lines of a settings file. -/
def settingsLines (written : String) (o : Options) : List (List Char × Line) :=
  [ ('[' :: ("transform".toList ++ [']', '\n']), .table ⟨[], "transform"⟩),
    (settingText "import_name".toList written.toList,
    .setting ⟨[], "import_name"⟩ (.string o.importName)),
    (settingText "policy".toList (quote o.policy.name).toList,
    .setting ⟨[], "policy"⟩ (.string o.policy.name)), (settingText
    "async_method_hoist".toList (Nat.toDigits 10 o.asyncMethodHoist.toNat),
    .setting ⟨[], "async_method_hoist"⟩ (.integer o.asyncMethodHoist.toNat))]

/-- The table of a settings file. -/
def settingsFields (o : Options) : Fields := [("transform", .table .header
  [("import_name", .string o.importName), ("policy", .string o.policy.name),
    ("async_method_hoist", .integer o.asyncMethodHoist.toNat)])]

theorem settingsWith_eq (written : String) (o : Options) :
    (settingsWith written o).toList =
      (settingsLines written o).flatMap Prod.fst := by
  have header : "[transform]\n".toList = '[' ::
      ("transform".toList ++ [']', '\n']) := by
    decide
  have name : "import_name = ".toList = "import_name".toList ++
      [' ', '=', ' '] := by
    decide
  have policy : "policy = ".toList = "policy".toList ++ [' ', '=', ' '] := by
    decide
  have priority : "async_method_hoist = ".toList =
      "async_method_hoist".toList ++ [' ', '=', ' '] := by
    decide
  have feed : "\n".toList = ['\n'] := by decide
  unfold settingsWith settingsLines settingText
  simp only [String.toList_append, Nat.toString_eq_ofList_toDigits,
    String.toList_ofList, header, name, policy, priority, feed,
    List.flatMap_cons, List.flatMap_nil, List.append_assoc, List.append_nil,
    List.cons_append, List.nil_append]

/-- The lines of a settings file make its table. -/
theorem foldlM_settingsLines (written : String) (o : Options) :
    ((settingsLines written o).map Prod.snd).foldlM Document.add? {} =
      some ⟨settingsFields o, ["transform"]⟩ := by
  have lines : (settingsLines written o).map Prod.snd = [.table
      ⟨[], "transform"⟩, .setting ⟨[], "import_name"⟩ (.string o.importName),
      .setting ⟨[], "policy"⟩ (.string o.policy.name), .setting
      ⟨[], "async_method_hoist"⟩ (.integer o.asyncMethodHoist.toNat)] := rfl
  rw [lines]
  rfl

/-- The table of a settings file gives the options. -/
theorem optionsIn?_settingsFields (o : Options) :
    optionsIn? (settingsFields o) = some o := by
  have policy := ChainPolicy.ofName?_name o.policy
  have small : (o.asyncMethodHoist.toNat : Int) < 256 := by
    have bound := o.asyncMethodHoist.toNat_lt
    omega
  simp [settingsFields, optionsIn?, Fields.get?, orDefault, optionsOf?,
    options?, text?, policy?, priority?, policy, small]

/-- What is written for a setting is its line. -/
theorem setting_written (name : List Char) {written : List Char} {v : Item}
    (bare : ∀ c ∈ name, isBareChar c = true) (nonempty : name ≠ [])
    (noBlank : ∀ behind, ∀ c, (written ++ '\n' :: behind).head? = some c →
      isBlank c = false)
    (reads : ∀ behind, value (written ++ '\n' :: behind) =
      some (v, '\n' :: behind)) :
    WritesLine (settingText name written)
      (.setting ⟨[], String.ofList name⟩ v) := by
  constructor
  · intro nothing
    exact nonempty (List.append_eq_nil_iff.1 nothing).1
  · intro behind
    have read := line?_setting bare nonempty (reads behind) (noBlank behind)
    simpa [settingText] using read

/-- What is written for a string is the line of its setting. -/
theorem string_written (name : List Char) {written : List Char} {q : Quotes}
    {s : String} (bare : ∀ c ∈ name, isBareChar c = true) (nonempty : name ≠ [])
    (spelled : Spells q written s) :
    WritesLine (settingText name written)
      (.setting ⟨[], String.ofList name⟩ (.string s)) := by
  apply setting_written name bare nonempty
  · intro behind c here
    obtain ⟨rest, rfl⟩ := spelled.begins
    cases here
    cases q <;> decide
  · intro behind
    apply value_spelled spelled
    cases q <;> simp [Quotes.sign]

/-- Every line of a settings file is what is written for it. -/
theorem settingsLines_written {q : Quotes} {written : String} {o : Options}
    (spelled : Spells q written.toList o.importName) :
    ∀ l ∈ settingsLines written o, WritesLine l.1 l.2 := by
  obtain ⟨other, policy⟩ := quote_spells o.policy.name
  have small : o.asyncMethodHoist.toNat < 0x8000000000000000 := by
    have bound := o.asyncMethodHoist.toNat_lt
    omega
  intro l member
  simp only [settingsLines, List.mem_cons, List.not_mem_nil, or_false] at member
  rcases member with rfl | rfl | rfl | rfl
  · refine ⟨List.cons_ne_nil _ _, ?_⟩
    intro behind
    have read := line?_table "transform".toList (List.all_eq_true.1 (by decide))
      (by decide) behind
    rw [String.ofList_toList] at read
    rwa [List.cons_append, List.append_assoc]
  · have written := string_written "import_name".toList
      (List.all_eq_true.1 (by decide)) (by decide) spelled
    rwa [String.ofList_toList] at written
  · have written := string_written "policy".toList
      (List.all_eq_true.1 (by decide)) (by decide) policy
    rwa [String.ofList_toList] at written
  · have noBlank : ∀ behind, ∀ c, (Nat.toDigits 10 o.asyncMethodHoist.toNat ++
        '\n' :: behind).head? = some c → isBlank c = false := by
      intro behind c here
      obtain ⟨first, others, written, digit, -⟩ :=
        Scan.digits_begin o.asyncMethodHoist.toNat
      rw [written, List.cons_append, List.head?_cons, Option.some_inj] at here
      rw [← here]
      exact not_blank (by simp [isBareChar, Char.isAlphanum, digit])
    have written := setting_written "async_method_hoist".toList
      (List.all_eq_true.1 (by decide)) (by decide) noBlank (value_digits small)
    rwa [String.ofList_toList] at written

/-- The comments in front of the settings of a fresh file. -/
def remarks : List String :=
  [" idx rewriter configuration", "",
    " import_name        module whose default import (or require) is the " ++
      "helper",
    " policy             \"permissive\" allows calls in callbacks, " ++
      "\"strict\" only property accesses",
    " async_method_hoist priority reported for temporaries inside async " ++
      "methods"]

/-- The lines of the comments, and the blank line behind them. -/
def remarkLines : List (List Char × Line) :=
  (remarks.map fun remark => ('#' :: (remark.toList ++ ['\n']), .blank)) ++
    [(['\n'], .blank)]

theorem settingsHeader_eq :
    Command.settingsHeader.toList = remarkLines.flatMap Prod.fst := by
  have remark : ∀ text : String, ("#" ++ text ++ "\n").toList = '#' ::
      (text.toList ++ ['\n']) := by
    intro text
    have sign : "#".toList = ['#'] := by decide
    have feed : "\n".toList = ['\n'] := by decide
    rw [String.toList_append, String.toList_append, sign, feed,
      List.append_assoc, List.singleton_append]
  have joined : Command.settingsHeader =
      String.join (remarks.map fun text => "#" ++ text ++ "\n") ++ "\n" := by
    decide +kernel
  rw [joined, String.toList_append, String.toList_join, List.flatMap_map,
    remarkLines, List.flatMap_append, List.flatMap_map]
  simp only [remark]
  rfl

theorem remarkLines_written : ∀ l ∈ remarkLines, WritesLine l.1 l.2 := by
  have text : (remarks.all fun remark => remark.toList.all isTextChar) = true :=
    by
    decide +kernel
  intro l member
  cases List.mem_append.1 member with
  | inl comment =>
    obtain ⟨remark, known, rfl⟩ := List.mem_map.1 comment
    refine ⟨List.cons_ne_nil _ _, ?_⟩
    intro behind
    have read := line?_comment
      (List.all_eq_true.1 (List.all_eq_true.1 text remark known)) behind
    simpa using read
  | inr blank =>
    rw [List.mem_singleton.1 blank]
    exact ⟨List.cons_ne_nil _ _, fun _ => rfl⟩

/-- Comments do nothing. -/
theorem foldlM_remarkLines :
    (remarkLines.map Prod.snd).foldlM Document.add? {} = some {} := by
  rfl

section Files

variable {o : Options} {q : Quotes} {written : String}

/-- A settings file is read, whatever the name is written as. -/
theorem ofToml?_settingsWith (spelled : Spells q written.toList o.importName) :
    ofToml? (settingsWith written o) = some o := by
  have text := settingsWith_eq written o
  have begins : (settingsWith written o).toList.head? = some '[' := by
    rw [text]
    rfl
  rw [ofToml?, parse?_lines text (by rw [begins]; decide)
    (settingsLines_written spelled), foldlM_settingsLines]
  exact optionsIn?_settingsFields o

/-- So is a settings file with comments in front. -/
theorem ofToml?_behind_remarks
    (spelled : Spells q written.toList o.importName) :
    ofToml? (Command.settingsHeader ++ settingsWith written o) = some o := by
  have text : (Command.settingsHeader ++ settingsWith written o).toList =
      (remarkLines ++ settingsLines written o).flatMap Prod.fst := by
    rw [String.toList_append, settingsHeader_eq, settingsWith_eq,
      List.flatMap_append]
  have begins : (Command.settingsHeader ++
      settingsWith written o).toList.head? = some '#' := by
    rw [text]
    rfl
  have lines : ∀ l ∈ remarkLines ++ settingsLines written o,
      WritesLine l.1 l.2 := by
    intro l member
    cases List.mem_append.1 member with
    | inl remark => exact remarkLines_written l remark
    | inr setting => exact settingsLines_written spelled l setting
  rw [ofToml?, parse?_lines text (by rw [begins]; decide) lines,
    List.map_append, List.foldlM_append, foldlM_remarkLines]
  change (Option.map Document.fields
    (((settingsLines written o).map Prod.snd).foldlM Document.add? {})).bind _ =
    _
  rw [foldlM_settingsLines]
  exact optionsIn?_settingsFields o

end Files

/-- **Settings are read back**, with or without the comments of a fresh file in
front. So they are whatever the name is written as. -/
theorem ofToml?_toToml (o : Options) :
    ofToml? (toToml o) = some o ∧
      ofToml? (Command.settingsHeader ++ toToml o) = some o ∧
      ∀ q written, Spells q written.toList o.importName →
        ofToml? (settingsWith written o) = some o ∧
      ofToml? (Command.settingsHeader ++ settingsWith written o) = some o := by
  obtain ⟨q, quoted⟩ := quote_spells o.importName
  refine ⟨ofToml?_settingsWith quoted, ofToml?_behind_remarks quoted, ?_⟩
  intro q written spelled
  exact ⟨ofToml?_settingsWith spelled, ofToml?_behind_remarks spelled⟩

/-- A name over two lines, from the line below its quotes on. -/
theorem ofToml?_toToml_below :
    ofToml? (settingsWith "\"\"\"\na\nb\"\"\"" { importName := "a\nb" }) =
      some { importName := "a\nb" } := by
  have body : Body .double true ['a', '\n', 'b'] ['a', '\n', 'b'] :=
    .plain (by decide) (by decide) (by decide)
      (.feed rfl (.plain (by decide) (by decide) (by decide) .nil))
  have spelled : Spells .double "\"\"\"\na\nb\"\"\"".toList "a\nb" :=
    .below body
  exact ((ofToml?_toToml { importName := "a\nb" }).2.2 .double _ spelled).1

end NullGuard.Config
