import NullGuard.Proofs.Scans
import NullGuard.Text.Escape
import NullGuard.Text.Json
import NullGuard.Toml.Number

/-!
# Reading JSON

A reader for JSON texts, and that it reads back what is written on one line
(`read?_compact`).

The reader takes everything that may stand in such a text: blanks and line ends
between the parts, every escape, and characters that are written as two halves.
Of the numbers it takes the natural ones only, as values have no others.

Strings are read back character by character (`stringChar_escape`). A value
within brackets is read with a bound on how deep it is nested, and the length of
its text is such a bound (`valueWithin_compact`). A number ends where no digit
follows, so a value is read only in front of what may stand behind one
(`Follows`).
-/

namespace NullGuard.Text.Json

open NullGuard.Toml (Scan word)
open NullGuard.Toml.Scan

/-- What may stand between the parts of a value. -/
def isGap (c : Char) : Bool :=
  c == ' ' || c == '\t' || c == '\n' || c == '\r'

/-- Leaves out what may stand between the parts of a value. -/
def gap : Scan Unit := do
  let _ ← run isGap

/-- The code of a character, or half of one, in four hexadecimal digits. -/
def codeUnit : Scan Nat := fun s =>
  if (s.take 4).length = 4 ∧ (s.take 4).all fun c => (hexValue? c).isSome then
    some (hexNumber (s.take 4), s.drop 4)
  else none

/-- A character by its code; a character that takes two halves has two codes. -/
def codedChar : Scan Char := do
  let high ← codeUnit
  let mut codes := [high]
  if 0xD800 ≤ high ∧ high < 0xDC00 then
    sign '\\'
    sign 'u'
    codes := [high, ← codeUnit]
  match ofCodes? codes with
  | some [c] => return c
  | _ => fail

/-- The character of an escape, behind its backslash. -/
def escaped : Scan Char := do
  match ← next with
  | '"' => return '"'
  | '\\' => return '\\'
  | '/' => return '/'
  | 'b' => return '\x08'
  | 'f' => return '\x0c'
  | 'n' => return '\n'
  | 'r' => return '\r'
  | 't' => return '\t'
  | 'u' => codedChar
  | _ => fail

/-- A character of a string; nothing at the closing quote. -/
def stringChar : Scan (Option Char) := do
  match ← peek? with
  | none | some '"' => return none
  | some '\\' => do
    skip 1
    return some (← escaped)
  | some c => if c.toNat < 32 then fail else some <$> next

/-- A string. -/
def string : Scan String := do
  sign '"'
  let cs ← many stringChar
  sign '"'
  return String.ofList cs

/-- A natural number: no digits are in front of it that do not count, and no
fraction or exponent is behind it. -/
def natural : Scan Nat := do
  let ds ← run Char.isDigit
  let behind ← peek?
  if ds.isEmpty || (ds.head? == some '0' && ds.length != 1) then fail
  if behind == some '.' || behind == some 'e' || behind == some 'E' then fail
  return Nat.ofDigitChars 10 ds 0

/-- Items behind their opening bracket, with commas between them. -/
def itemsUpTo {α : Type} (closing : Char) (item : Scan α) : Scan (List α) := do
  gap
  if ← eat closing then return []
  let first ← item
  let others ← many do
    if ← eat ',' then some <$> item else return none
  sign closing
  return first :: others

/-- A field of an object. -/
def member (value : Scan Json) : Scan (String × Json) := do
  gap
  let key ← string
  gap
  sign ':'
  let v ← value
  return (key, v)

/-- A value by its first character; the values inside are read by `value`. -/
def valueFrom (value : Scan Json) : Option Char → Scan Json
  | some 'n' => do
    word "null"
    return null
  | some 't' => do
    word "true"
    return bool true
  | some 'f' => do
    word "false"
    return bool false
  | some '"' => str <$> string
  | some '[' => do
    skip 1
    array <$> itemsUpTo ']' value
  | some '\x7b' => do
    skip 1
    object <$> itemsUpTo '\x7d' (member value)
  | _ => nat <$> natural

/-- A value that is nested in fewer than so many brackets, with what stands
around it. -/
def valueWithin : Nat → Scan Json
  | 0 => fail
  | depth + 1 => do
    gap
    let v ← valueFrom (valueWithin depth) (← peek?)
    gap
    return v

/-- The value that a text writes, if it writes one. -/
def read? (text : String) : Option Json := do
  let (v, rest) ← valueWithin (text.toList.length + 1) text.toList
  if rest.isEmpty then some v else none

/-- The digits of a code are those of its value. -/
theorem hexValue?_hexDigit {n : Nat} (h : n < 16) :
    hexValue? (hexDigit n) = some n := by
  have all : ∀ n < 16, hexValue? (hexDigit n) = some n := by decide
  exact all n h

/-- A code below 256 is read back. -/
theorem codeUnit_hexDigits {n : Nat} (h : n < 256) (behind : List Char) :
    codeUnit ('0' :: '0' :: hexDigit (n / 16) :: hexDigit (n % 16) :: behind) =
      some (n, behind) := by
  have high := hexValue?_hexDigit (n := n / 16) (by omega)
  have low := hexValue?_hexDigit (n := n % 16) (Nat.mod_lt n (by decide))
  have zero : hexValue? '0' = some 0 := by decide
  have number : hexNumber ['0', '0', hexDigit (n / 16), hexDigit (n % 16)] =
      n := by
    simp only [hexNumber, List.foldl_cons, List.foldl_nil, zero, high, low]
    omega
  simp [codeUnit, high, low, zero, number]

/-- A single code of a character is that character. -/
theorem ofCodes?_toNat (c : Char) : ofCodes? [c.toNat] = some [c] := by
  have valid : c.toNat.isValidChar := c.valid
  show (if h : c.toNat.isValidChar then some [Char.ofNatAux c.toNat h]
    else none) = some [c]
  rw [dif_pos valid]
  rfl

/-- A character that needs no escape is read as it stands. -/
theorem stringChar_plain {c : Char} (noQuote : c ≠ '"') (noBackslash : c ≠ '\\')
    (printable : ¬ c.toNat < 32) (behind : List Char) :
    stringChar (c :: behind) = some (some c, behind) := by
  simp only [stringChar, bind_apply, peek?_apply, Option.bind_some,
    List.head?_cons]
  rw [if_neg printable, map_apply, next_cons, Option.map_some]

/-- **A character of a string is read back**, escaped or not. -/
theorem stringChar_escape (c : Char) (behind : List Char) :
    stringChar (escapeChar c ++ behind) = some (some c, behind) := by
  unfold escapeChar
  split
  · rfl
  · rfl
  · rfl
  · rfl
  · rfl
  · rfl
  · rfl
  · next noQuote noBackslash _ _ _ _ _ =>
    by_cases control : c.toNat < 32
    · have code := codeUnit_hexDigits (n := c.toNat) (by omega) behind
      have single : ¬ (0xD800 ≤ c.toNat ∧ c.toNat < 0xDC00) := by omega
      rw [if_pos control]
      simp [stringChar, escaped, codedChar, code, single, ofCodes?_toNat]
    · rw [if_neg control]
      exact stringChar_plain noQuote noBackslash control behind

theorem escapeChar_ne_nil (c : Char) : escapeChar c ≠ [] := by
  unfold escapeChar
  split <;> first | exact List.cons_ne_nil _ _ | skip
  split <;> exact List.cons_ne_nil _ _

/-- **A string is read back.** -/
theorem string_quote (s : String) (behind : List Char) :
    string ((quote s).toList ++ behind) = some (s, behind) := by
  have closing : stringChar ('"' :: behind) = some (none, '"' :: behind) := rfl
  have body : many stringChar (s.toList.flatMap escapeChar ++ '"' :: behind) =
      some (s.toList.map id, '"' :: behind) :=
    many_free (fun c _ behind => stringChar_escape c behind)
      (fun c _ => escapeChar_ne_nil c) closing
  rw [List.map_id] at body
  simp [string, quote, body]

/-- What may stand behind a value: a comma or a closing bracket, if anything. -/
def Follows (behind : List Char) : Prop :=
  ∀ c, behind.head? = some c → c = ',' ∨ c = ']' ∨ c = '\x7d'

theorem Follows.not_digit {behind : List Char} (h : Follows behind) (c : Char)
    (here : behind.head? = some c) : c.isDigit = false := by
  rcases h c here with rfl | rfl | rfl <;> decide

theorem Follows.comma (behind : List Char) : Follows (',' :: behind) := by
  intro c here
  cases here
  exact .inl rfl

theorem Follows.not_gap {behind : List Char} (h : Follows behind) (c : Char)
    (here : behind.head? = some c) : isGap c = false := by
  rcases h c here with rfl | rfl | rfl <;> decide

/-- A natural number is read back. -/
theorem natural_digits (n : Nat) {behind : List Char}
    (follows : Follows behind) :
    natural (Nat.toDigits 10 n ++ behind) = some (n, behind) := by
  have digits :=
    run_append (p := Char.isDigit) (isDigit_of_mem_digits n) follows.not_digit
  have begins : ((Nat.toDigits 10 n).isEmpty || ((Nat.toDigits 10 n).head? ==
      some '0' && (Nat.toDigits 10 n).length != 1)) = false := by
    obtain ⟨c, others, written, -, alone⟩ := digits_begin n
    rw [written]
    by_cases zero : c = '0'
    · rw [zero, alone zero]
      rfl
    · simp [zero]
  have ends : (behind.head? == some '.' || behind.head? == some 'e' ||
      behind.head? == some 'E') = false := by
    cases here : behind.head? with
    | none => rfl
    | some c => rcases follows c here with rfl | rfl | rfl <;> rfl
  simp only [natural, bind_apply, digits, Option.bind_some, peek?_apply,
    begins, ends]
  simp [Nat.ofDigitChars_ten_toDigits]

theorem word_append (text : String) (behind : List Char) :
    word text (text.toList ++ behind) = some ((), behind) := by
  have begins : text.toList.isPrefixOf (text.toList ++ behind) = true := by simp
  have size : text.length = text.toList.length := String.length_toList.symm
  simp [word, begins, size]

theorem compactItems_eq (items : List Json) :
    compactItems items = items.map compact := by
  induction items with
  | nil => rfl
  | cons v vs ih => rw [compactItems, ih, List.map_cons]

/-- A field on one line. -/
def fieldText (field : String × Json) : String :=
  quote field.1 ++ ":" ++ compact field.2

theorem compactFields_eq (fields : List (String × Json)) :
    compactFields fields = fields.map fieldText := by
  induction fields with
  | nil => rfl
  | cons field fields ih =>
    rw [compactFields, ih, List.map_cons]
    rfl

/-- Texts with commas between them: the first one, and the others with a comma
in front of each. -/
theorem separated_cons (text : String) (texts : List String) :
    (separated "," (text :: texts)).toList = text.toList ++
      texts.flatMap fun text => ',' :: text.toList := by
  induction texts generalizing text with
  | nil => simp [separated]
  | cons next texts ih =>
    rw [separated, String.toList_append, String.toList_append, ih]
    · simp
    · exact List.cons_ne_nil _ _

/-- A text begins like a value or a field: with no gap, and with nothing that
closes brackets. -/
def Begins (text : List Char) : Prop :=
  ∃ c rest, text = c :: rest ∧ isGap c = false ∧ c ≠ ']' ∧ c ≠ '\x7d'

theorem Begins.append {text : List Char} (h : Begins text)
    (behind : List Char) : Begins (text ++ behind) := by
  obtain ⟨c, rest, rfl, noGap, noBracket, noBrace⟩ := h
  exact ⟨c, rest ++ behind, rfl, noGap, noBracket, noBrace⟩

theorem quote_begins (s : String) : Begins (quote s).toList :=
  ⟨'"', s.toList.flatMap escapeChar ++ ['"'],
    by simp [quote], by decide, by decide, by decide⟩

theorem fieldText_begins (field : String × Json) :
    Begins (fieldText field).toList := by
  rw [fieldText, String.append_assoc, String.toList_append]
  exact (quote_begins field.1).append _

theorem toList_compact_nat (n : Nat) :
    (nat n).compact.toList = Nat.toDigits 10 n := by
  rw [compact, Nat.toString_eq_ofList_toDigits, String.toList_ofList]

theorem compact_array (items : List Json) :
    (array items).compact.toList = '[' ::
      ((separated "," (items.map compact)).toList ++ [']']) := by
  simp [compact, compactItems_eq]

theorem compact_object (fields : List (String × Json)) :
    (object fields).compact.toList = '\x7b' ::
      ((separated "," (fields.map fieldText)).toList ++ ['\x7d']) := by
  simp [compact, compactFields_eq]

/-- Every value begins like one. -/
theorem compact_begins (v : Json) : Begins v.compact.toList := by
  cases v with
  | null => exact ⟨'n', _, rfl, by decide⟩
  | bool value => cases value with
    | true => exact ⟨'t', _, rfl, by decide⟩
    | false => exact ⟨'f', _, rfl, by decide⟩
  | nat n =>
    obtain ⟨c, others, written, digit, -⟩ := digits_begin n
    have noGap : isGap c = false := by
      apply Bool.eq_false_iff.2
      intro gap
      simp only [isGap, Bool.or_eq_true, beq_iff_eq] at gap
      rcases gap with ((rfl | rfl) | rfl) | rfl <;>
        exact absurd digit (by decide)
    have noBracket : c ≠ ']' := ne_of_class digit (by decide)
    have noBrace : c ≠ '\x7d' := ne_of_class digit (by decide)
    rw [toList_compact_nat, written]
    exact ⟨c, others, rfl, noGap, noBracket, noBrace⟩
  | str s => exact quote_begins s
  | array items => exact ⟨'[', _, compact_array items, by decide⟩
  | object fields => exact ⟨'\x7b', _, compact_object fields, by decide⟩

/-- Nothing is left out where no gap is. -/
theorem gap_none {s : List Char}
    (noGap : ∀ c, s.head? = some c → isGap c = false) :
    gap s = some ((), s) := by
  simp [gap, run_none noGap]

theorem Begins.gap_none {s : List Char} (h : Begins s) :
    gap s = some ((), s) := by
  obtain ⟨c, rest, rfl, noGap, -⟩ := h
  apply Json.gap_none
  intro other here
  cases here
  exact noGap

section Items

variable {α β : Type} {item : Scan α} {text : β → String} {value : β → α}
  {xs : List β}

/-- **Items with commas between them are read** up to their closing bracket. -/
theorem itemsUpTo_separated
    (reads : ∀ x ∈ xs, ∀ behind, Follows behind →
      item ((text x).toList ++ behind) = some (value x, behind))
    (begins : ∀ x ∈ xs, Begins (text x).toList) {closing : Char}
    (isClosing : closing = ']' ∨ closing = '\x7d') (behind : List Char) :
    itemsUpTo closing item ((separated "," (xs.map text)).toList ++ closing ::
      behind) = some (xs.map value, behind) := by
  have closes : Follows (closing :: behind) := by
    intro c here
    cases here
    exact .inr isClosing
  cases xs with
  | nil =>
    have stays := gap_none closes.not_gap
    simp [itemsUpTo, separated, stays]
  | cons x xs =>
    obtain ⟨readsFirst, readsOthers⟩ := List.forall_mem_cons.1 reads
    obtain ⟨beginsFirst, -⟩ := List.forall_mem_cons.1 begins
    obtain ⟨c, rest, first, noGap, noBracket, noBrace⟩ := beginsFirst
    have readsComma : ∀ x ∈ xs, ∀ behind, Follows behind →
        (do if ← eat ',' then some <$> item else return none : Scan (Option α))
        (',' :: (text x).toList ++ behind) = some (some (value x), behind) := by
      intro x member behind follows
      have read := readsOthers x member behind follows
      simp [read]
    have follow : ∀ x ∈ xs, ∀ behind, Follows behind →
        Follows (',' :: (text x).toList ++ behind) :=
      fun x _ behind _ => .comma _
    have nonempty : ∀ x ∈ xs, ',' :: (text x).toList ≠ [] :=
      fun x _ => List.cons_ne_nil _ _
    have noComma : (closing :: behind).head? ≠ some ',' := by
      rcases isClosing with rfl | rfl <;> simp
    have stops :
        (do if ← eat ',' then some <$> item else return none : Scan (Option α))
        (closing :: behind) = some (none, closing :: behind) := by
      simp [eat_of_head noComma]
    have others := many_items readsComma follow nonempty stops closes
    have front := follow_items follow closes
    have noClosing : (c :: (rest ++ (xs.flatMap (fun x => ',' ::
        (text x).toList) ++ closing :: behind))).head? ≠ some closing := by
      rcases isClosing with rfl | rfl <;> simp [noBracket, noBrace]
    have stays := gap_none (s := c :: (rest ++
      (xs.flatMap (fun x => ',' :: (text x).toList) ++ closing :: behind)))
      (fun other here => by cases here; exact noGap)
    have read := readsFirst _ front
    rw [first, List.cons_append] at read
    rw [List.map_cons, separated_cons, first, List.flatMap_map]
    simp [itemsUpTo, stays, eat_of_head noClosing, read, others]

end Items

/-- Each of some texts is no longer than all of them with commas between. -/
theorem length_le_separated {text : String} {texts : List String}
    (h : text ∈ texts) :
    text.toList.length ≤ (separated "," texts).toList.length := by
  cases texts with
  | nil => exact absurd h List.not_mem_nil
  | cons first others =>
    rw [separated_cons, List.length_append]
    cases List.mem_cons.1 h with
    | inl same =>
      rw [same]
      exact Nat.le_add_right _ _
    | inr later =>
      have part := (List.infix_of_mem_flatten (List.mem_map_of_mem
        (f := fun text : String => ',' :: text.toList) later)).length_le
      rw [List.length_cons, ← List.flatMap_def] at part
      omega

section Values

variable {value : Scan Json} {behind : List Char}

theorem valueFrom_digit {c : Char} (digit : c.isDigit = true) :
    valueFrom value (some c) = nat <$> natural := by
  unfold valueFrom
  split
  iterate 6 next same => cases same; exact absurd digit (by decide)
  rfl

/-- A field is read back where its value is. -/
theorem member_field {field : String × Json}
    (reads : value (field.2.compact.toList ++ behind) =
      some (field.2, behind)) :
    member value ((fieldText field).toList ++ behind) =
      some (field, behind) := by
  have name := string_quote field.1 (':' :: (field.2.compact.toList ++ behind))
  have front := ((quote_begins field.1).append
    (':' :: (field.2.compact.toList ++ behind))).gap_none
  have colon : gap (':' :: (field.2.compact.toList ++ behind)) =
      some ((), ':' :: (field.2.compact.toList ++ behind)) := by
    apply gap_none
    intro c here
    cases here
    decide
  have text : (fieldText field).toList ++ behind =
      (quote field.1).toList ++ ':' :: (field.2.compact.toList ++ behind) := by
    simp [fieldText]
  rw [text]
  simp [member, front, name, colon, reads]

/-- **A value is read back** by its first character, if the values inside
are. -/
theorem valueFrom_compact (v : Json) (follows : Follows behind)
    (inside : ∀ w : Json, w.compact.toList.length < v.compact.toList.length →
      ∀ behind, Follows behind → value (w.compact.toList ++ behind) =
      some (w, behind)) :
    valueFrom value (v.compact.toList ++ behind).head?
      (v.compact.toList ++ behind) = some (v, behind) := by
  cases v with
  | null =>
    exact congrArg (Option.map fun read => (null, read.2))
      (word_append "null" behind)
  | bool b => cases b with
    | true =>
      exact congrArg (Option.map fun read => (bool true, read.2))
        (word_append "true" behind)
    | false =>
      exact congrArg (Option.map fun read => (bool false, read.2))
        (word_append "false" behind)
  | nat n =>
    obtain ⟨c, others, written, digit, -⟩ := digits_begin n
    have number := natural_digits n follows
    rw [written] at number
    rw [toList_compact_nat, written, List.cons_append, List.head?_cons,
      valueFrom_digit digit, map_apply, ← List.cons_append, number,
      Option.map_some]
  | str s =>
    have read := string_quote s behind
    have start : ((str s).compact.toList ++ behind).head? = some '"' := by
      simp [compact, quote]
    rw [start, valueFrom, map_apply, compact, read, Option.map_some]
  | array items =>
    have shorter : ∀ w ∈ items, w.compact.toList.length <
        (array items).compact.toList.length := by
      intro w member
      have part :=
        length_le_separated (List.mem_map_of_mem (f := compact) member)
      rw [compact_array, List.length_cons, List.length_append]
      omega
    have reads : ∀ w ∈ items, ∀ behind, Follows behind →
        value (w.compact.toList ++ behind) = some (id w, behind) :=
      fun w isItem => inside w (shorter w isItem)
    have begins : ∀ w ∈ items, Begins w.compact.toList :=
      fun w _ => compact_begins w
    have read := itemsUpTo_separated reads begins (.inl rfl) behind
    rw [compact_array]
    simpa [valueFrom] using read
  | object fields =>
    have shorter : ∀ field ∈ fields, field.2.compact.toList.length <
        (object fields).compact.toList.length := by
      intro field member
      have part :=
        length_le_separated (List.mem_map_of_mem (f := fieldText) member)
      have value : field.2.compact.toList.length ≤
          (fieldText field).toList.length := by
        simp [fieldText]
        omega
      rw [compact_object, List.length_cons, List.length_append]
      omega
    have reads : ∀ field ∈ fields, ∀ behind, Follows behind → member value
        ((fieldText field).toList ++ behind) = some (id field, behind) := by
      intro field isField behind follows
      have within := inside field.2 (shorter field isField) behind follows
      exact member_field within
    have begins : ∀ field ∈ fields, Begins (fieldText field).toList :=
      fun field _ => fieldText_begins field
    have read := itemsUpTo_separated reads begins (.inr rfl) behind
    rw [compact_object]
    simpa [valueFrom] using read

end Values

/-- A value is read back with any bound that its text does not exceed: what is
within brackets has a shorter text. -/
theorem valueWithin_compact {n : Nat} {v : Json}
    (deep : v.compact.toList.length ≤ n) {behind : List Char}
    (follows : Follows behind) :
    valueWithin n (v.compact.toList ++ behind) = some (v, behind) := by
  induction n generalizing v behind with
  | zero =>
    obtain ⟨c, others, begins, -⟩ := compact_begins v
    rw [begins, List.length_cons] at deep
    omega
  | succ n ih =>
    have front := ((compact_begins v).append behind).gap_none
    have back := gap_none follows.not_gap
    have read := valueFrom_compact v follows fun w shorter behind follows =>
      ih (by omega) follows
    simp only [valueWithin, bind_apply, front, Option.bind_some, peek?_apply,
      read, back, pure_apply]

/-- **What is written on one line is read back.** -/
theorem read?_compact (v : Json) : read? v.compact = some v := by
  have read : valueWithin (v.compact.toList.length + 1)
      (v.compact.toList ++ []) = some (v, []) :=
    valueWithin_compact (Nat.le_succ _) (fun _ none => nomatch none)
  rw [List.append_nil] at read
  simp [read?, read]

end NullGuard.Text.Json
