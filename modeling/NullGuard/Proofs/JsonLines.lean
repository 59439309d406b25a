import NullGuard.Diagnostics.Record
import NullGuard.Proofs.JsonReading
import NullGuard.Proofs.ShownLines

/-!
# Diagnostics are read back from their lines

Every diagnostic is written on a line of its own. No line has a line feed in it
whatever the texts of the diagnostic are (`feed_not_mem_compact`), so the lines
are found again, and what is on a line is read as JSON (`read?_compact`).

A value is then read by the names of its fields, which may stand in any order.
The place of a note is a text; the numbers at its end have no colon in them, so
a colon in the name of a file does no harm (`Location.ofText_text`).
-/

namespace NullGuard.Text.Json

/-- The value of a field. -/
def field? (name : String) : Json → Option Json
  | object fields => fields.lookup name
  | _ => none

/-- The text of a string. -/
def text? : Json → Option String
  | str s => some s
  | _ => none

/-- The number of a number. -/
def number? : Json → Option Nat
  | nat n => some n
  | _ => none

/-- The items of an array. -/
def items? : Json → Option (List Json)
  | array items => some items
  | _ => none

section Options

variable {α β : Type}

/-- A value, or null where there is none. -/
def ofOption (write : α → Json) : Option α → Json
  | none => null
  | some a => write a

/-- What a value gives, or nothing where it is null. -/
def toOption? (read : Json → Option β) : Json → Option (Option β)
  | null => some none
  | v => some <$> read v

/-- What may be missing is read back. -/
theorem toOption?_ofOption {write : α → Json} {read : Json → Option β}
    {value : α → β} (reads : ∀ a, read (write a) = some (value a))
    (present : ∀ a, write a ≠ null) (a? : Option α) :
    toOption? read (ofOption write a?) = some (a?.map value) := by
  cases a? with
  | none => rfl
  | some a =>
    rw [ofOption, toOption?, reads a]
    · rfl
    · exact present a

end Options

theorem feed_not_mem_escapeChar (c : Char) : '\n' ∉ escapeChar c := by
  unfold escapeChar
  split
  iterate 7 decide
  next noFeed _ _ =>
    split
    · have digit : ∀ n < 16, '\n' ≠ hexDigit n := by decide
      have high := digit (c.toNat / 16) (by omega)
      have low := digit (c.toNat % 16) (Nat.mod_lt _ (by decide))
      simp [high, low]
    · intro member
      exact noFeed (List.mem_singleton.1 member).symm

theorem feed_not_mem_quote (s : String) : '\n' ∉ (quote s).toList := by
  have body : '\n' ∉ s.toList.flatMap escapeChar := by
    intro member
    obtain ⟨c, -, here⟩ := List.mem_flatMap.1 member
    exact feed_not_mem_escapeChar c here
  simp [quote, body]

theorem feed_not_mem_separated {texts : List String}
    (oneLine : ∀ text ∈ texts, '\n' ∉ text.toList) :
    '\n' ∉ (separated "," texts).toList := by
  cases texts with
  | nil => exact List.not_mem_nil
  | cons first others =>
    obtain ⟨ofFirst, ofOthers⟩ := List.forall_mem_cons.1 oneLine
    rw [separated_cons]
    simp only [List.mem_append, List.mem_flatMap, List.mem_cons, not_or,
      not_exists, not_and]
    exact ⟨ofFirst, fun text member => ⟨by decide, ofOthers text member⟩⟩

mutual

/-- **A value on one line has no line feed in it.** -/
theorem feed_not_mem_compact : ∀ v : Json, '\n' ∉ v.compact.toList
  | null => by decide
  | bool true => by decide
  | bool false => by decide
  | nat n => by
    rw [toList_compact_nat]
    exact not_mem_digits (by decide) n
  | str s => feed_not_mem_quote s
  | array items => by
    have oneLine := feed_not_mem_separated (feed_not_mem_compactItems items)
    simp [compact, oneLine]
  | object fields => by
    have oneLine := feed_not_mem_separated (feed_not_mem_compactFields fields)
    simp [compact, oneLine]

theorem feed_not_mem_compactItems :
    ∀ items : List Json, ∀ text ∈ compactItems items, '\n' ∉ text.toList
  | [] => fun _ member => absurd member List.not_mem_nil
  | v :: vs =>
    List.forall_mem_cons.2 ⟨feed_not_mem_compact v,
      feed_not_mem_compactItems vs⟩

theorem feed_not_mem_compactFields :
    ∀ fields : List (String × Json), ∀ text ∈ compactFields fields,
      '\n' ∉ text.toList
  | [] => fun _ member => absurd member List.not_mem_nil
  | (key, v) :: rest => by
    have name := feed_not_mem_quote key
    have value := feed_not_mem_compact v
    exact List.forall_mem_cons.2 ⟨by simp [name, value],
      feed_not_mem_compactFields rest⟩

end

end NullGuard.Text.Json

namespace NullGuard.Diagnostics

open NullGuard.Text

/-- What a line says about another place. -/
structure NoteReport where
  message : String
  location : Option Location
deriving DecidableEq, Repr

/-- What a line says about a finding. -/
structure Report where
  code : Code
  severity : Severity
  message : String
  location : Option Location
  span : Option (Nat × Nat)
  help : Option String
  notes : List NoteReport
deriving DecidableEq, Repr

/-- A note with its place as the files have it. -/
def Note.report (fs : SourceFiles) (n : Note) : NoteReport :=
  ⟨n.message, n.span.bind fs.location?⟩

/-- A diagnostic with its places as the files have them. -/
def Diagnostic.report (fs : SourceFiles) (d : Diagnostic) : Report where
  code := d.code
  severity := d.severity
  message := d.message
  location := d.span.bind fs.location?
  span := d.span.map fun s => (s.start, s.stop)
  help := d.help
  notes := d.notes.map (Note.report fs)

/-- The location that a text gives: a file, a line and a column, with colons
between them. -/
def Location.ofText (text : String) : Location :=
  let front := (text.toList.rdropWhile (· != ':')).dropLast
  ⟨String.ofList (front.rdropWhile (· != ':')).dropLast,
    Nat.ofDigitChars 10 (front.rtakeWhile (· != ':')) 0,
    Nat.ofDigitChars 10 (text.toList.rtakeWhile (· != ':')) 0⟩

/-- The location that a value gives. -/
def Location.ofJson? (v : Json) : Option Location := do
  let file ← (← v.field? "file").text?
  let line ← (← v.field? "line").number?
  let column ← (← v.field? "column").number?
  return ⟨file, line, column⟩

/-- The range that a value gives. -/
def rangeOfJson? (v : Json) : Option (Nat × Nat) := do
  let start ← (← v.field? "start").number?
  let stop ← (← v.field? "end").number?
  return (start, stop)

/-- The code that is printed just so. -/
def Code.ofPrinted? (text : String) : Option Code :=
  all.find? fun code => code.text == text

/-- The severity with a name. -/
def Severity.ofName? (name : String) : Option Severity :=
  [hint, warning, error].find? fun severity => severity.name == name

/-- The note that a value gives. -/
def NoteReport.ofJson? (v : Json) : Option NoteReport := do
  let message ← (← v.field? "message").text?
  let location ← (← v.field? "location").toOption? Json.text?
  return ⟨message, location.map Location.ofText⟩

/-- The finding that a value gives. -/
def Report.ofJson? (v : Json) : Option Report := do
  let code ← Code.ofPrinted? (← (← v.field? "code").text?)
  let severity ← Severity.ofName? (← (← v.field? "severity").text?)
  let message ← (← v.field? "message").text?
  let location ← (← v.field? "location").toOption? Location.ofJson?
  let span ← (← v.field? "span").toOption? rangeOfJson?
  let help ← (← v.field? "help").toOption? Json.text?
  let notes ← (← (← v.field? "notes").items?).mapM NoteReport.ofJson?
  return { code, severity, message, location, span, help, notes }

/-- The finding that a line gives. -/
def Report.ofLine? (line : String) : Option Report := do
  ofJson? (← Json.read? line)

theorem rtakeWhile_behind (front : List Char) {back : List Char}
    (noColon : ':' ∉ back) :
    (front ++ ':' :: back).rtakeWhile (· != ':') = back ∧
      ((front ++ ':' :: back).rdropWhile (· != ':')).dropLast = front := by
  have all : ∀ c ∈ back.reverse, (c != ':') = true := by
    intro c member
    rw [bne_iff_ne]
    intro colon
    rw [colon, List.mem_reverse] at member
    exact noColon member
  have reversed : (front ++ ':' :: back).reverse = back.reverse ++ ':' ::
      front.reverse := by
    simp
  constructor
  · rw [List.rtakeWhile, reversed, List.takeWhile_append_of_pos all]
    simp
  · rw [List.rdropWhile, reversed, List.dropWhile_append_of_pos all]
    simp

/-- **A location is read back from its text.** -/
theorem Location.ofText_text (l : Location) : ofText l.text = l := by
  have text : l.text.toList = (l.file.toList ++ ':' ::
      Nat.toDigits 10 l.line) ++ ':' :: Nat.toDigits 10 l.column := by
    simp [Location.text]
  obtain ⟨column, front⟩ := rtakeWhile_behind (l.file.toList ++ ':' ::
    Nat.toDigits 10 l.line) (not_mem_digits (by decide) l.column)
  obtain ⟨line, file⟩ :=
    rtakeWhile_behind l.file.toList (not_mem_digits (by decide) l.line)
  rw [ofText, text, column, front, line, file]
  simp only [Nat.ofDigitChars_ten_toDigits, String.ofList_toList]

theorem Location.ofJson?_json (l : Location) : ofJson? l.json = some l := by
  simp [ofJson?, Location.json, Json.field?, Json.text?, Json.number?,
    List.lookup_cons]

theorem Code.ofPrinted?_text (code : Code) :
    ofPrinted? code.text = some code := by
  cases code <;> decide

theorem Severity.ofName?_name (severity : Severity) :
    ofName? severity.name = some severity := by
  cases severity <;> decide

section Reports

variable (fs : SourceFiles)

theorem ofString?_eq (s? : Option String) :
    Json.ofString? s? = Json.ofOption .str s? := by
  cases s? <;> rfl

/-- A text that may be missing is read back. -/
theorem toOption?_ofString? (s? : Option String) :
    (Json.ofString? s?).toOption? Json.text? = some s? := by
  have read : (Json.ofOption .str s?).toOption? Json.text? = some (s?.map id) :=
    by
    apply Json.toOption?_ofOption
    · intro s
      rfl
    · intro s
      exact Json.noConfusion
  rw [ofString?_eq, read, Option.map_id]
  rfl

/-- A note is read back from its value. -/
theorem NoteReport.ofJson?_json (n : Note) :
    ofJson? (n.json fs) = some (n.report fs) := by
  rw [Note.json, Note.report]
  generalize n.span.bind fs.location? = place
  have text := toOption?_ofString? (place.map Location.text)
  have back : (place.map Location.text).map Location.ofText = place := by
    cases place with
    | none => rfl
    | some l => rw [Option.map_some, Option.map_some, Location.ofText_text]
  simp only [ofJson?, Json.field?, List.lookup_cons, Json.text?]
  simp only [Option.map_map] at back
  simp [text, back]

theorem mapM_notes (notes : List Note) :
    (notes.map (Note.json fs)).mapM NoteReport.ofJson? =
      some (notes.map (Note.report fs)) := by
  induction notes with
  | nil => rfl
  | cons n notes ih =>
    rw [List.map_cons, List.mapM_cons, NoteReport.ofJson?_json, ih]
    rfl

/-- A range as JSON. -/
def rangeJson (s : FileSpan) : Json :=
  .object [("start", .nat s.start), ("end", .nat s.stop)]

/-- The fields of a diagnostic, with what may be missing in one form. -/
theorem Diagnostic.json_eq (d : Diagnostic) :
    d.json fs = .object [ ("code", .str d.code.text),
      ("severity", .str d.severity.name), ("message", .str d.message),
      ("location", .ofOption Location.json (d.span.bind fs.location?)),
      ("span", .ofOption rangeJson d.span), ("help", .ofString? d.help),
      ("notes", .array (d.notes.map (Note.json fs)))] := by
  rw [Diagnostic.json]
  cases d.span.bind fs.location? <;> cases d.span <;> rfl

/-- A diagnostic is read back from its value. -/
theorem Report.ofJson?_json (d : Diagnostic) :
    ofJson? (d.json fs) = some (d.report fs) := by
  have location :
      (Json.ofOption Location.json (d.span.bind fs.location?)).toOption?
      Location.ofJson? = some ((d.span.bind fs.location?).map id) :=
    Json.toOption?_ofOption Location.ofJson?_json (fun _ => Json.noConfusion) _
  have span : (Json.ofOption rangeJson d.span).toOption? rangeOfJson? =
      some (d.span.map fun s => (s.start, s.stop)) := by
    apply Json.toOption?_ofOption
    · intro s
      rfl
    · intro s
      exact Json.noConfusion
  have help := toOption?_ofString? d.help
  have notes := mapM_notes fs d.notes
  simp only [Diagnostic.json_eq, ofJson?, Json.field?, List.lookup_cons]
  simp [Json.text?, Json.items?, Code.ofPrinted?_text, Severity.ofName?_name,
    location, span, help, notes, Diagnostic.report]

/-- **Every diagnostic has a line of its own, and is read back from it.** The
text is just these lines, with a line feed behind each. -/
theorem jsonLines_read (ds : List Diagnostic) :
    (jsonLines fs ds).toList =
      ended ((fullLines (jsonLines fs ds)).map String.toList) ∧
      (fullLines (jsonLines fs ds)).length = ds.length ∧
        (∀ line ∈ fullLines (jsonLines fs ds), '\n' ∉ line.toList) ∧
      (fullLines (jsonLines fs ds)).map Report.ofLine? =
        ds.map fun d => some (d.report fs) := by
  have written : (jsonLines fs ds).toList =
      ended ((ds.map fun d => (d.json fs).compact).map String.toList) := by
    rw [jsonLines]
    induction ds with
    | nil => rfl
    | cons d ds ih =>
      rw [List.map_cons, List.map_cons, List.map_cons, String.join_cons,
        String.toList_append, ih, ended_cons]
      simp
  have oneLine : ∀ line ∈ ds.map fun d => (d.json fs).compact,
      '\n' ∉ line.toList := by
    intro line member
    obtain ⟨d, -, rfl⟩ := List.mem_map.1 member
    exact Json.feed_not_mem_compact _
  have lines := fullLines_of_ended written oneLine
  rw [lines]
  refine ⟨written, List.length_map _, oneLine, ?_⟩
  rw [List.map_map]
  apply List.map_congr_left
  intro d _
  simp [Report.ofLine?, Json.read?_compact, Report.ofJson?_json]

end Reports

end NullGuard.Diagnostics
