import NullGuard.Diagnostics.Files
import NullGuard.Proofs.ShownLines

/-!
# Frames point at locations

A frame consists of rows: one for each line around the location of a span, with
its number, and one with carets below the row of the location's line, which is
marked. No row has a line feed in it, so the rows are found again in the text of
the frame (`rows_frame`).

The numbers of the rows count the lines that are shown, and the location comes
from the table of the starts; that these agree is `isLine_of_shown`. All numbers
take the same room (`length_padded_number`), so the carets stand below the bytes
of the span.

One span has no marked row: at the end of a text with nothing behind its last
line feed, the location has a line that is not shown (`frame_marks_location`).
-/

namespace NullGuard.Diagnostics

open NullGuard.Text

/-- The row of a line: a mark, the number, and the line. -/
def lineRow (mark : String) (width number : Nat) (line : String) : String :=
  mark ++ padded width (toString number) ++ " | " ++ line

/-- The row below a marked one: the carets, as far to the right as the column
is. -/
def caretRow (width column carets : Nat) : String :=
  "  " ++ repeated width ' ' ++ " | " ++ repeated (column - 1) ' ' ++
    repeated carets '^'

/-- The row of a line with its number, without a mark. -/
def plainRow (width : Nat) (numbered : Nat × String) : String :=
  lineRow "  " width numbered.1 numbered.2

/-- The rows of a line with its number. Only the location's line has a mark, and
carets below it. -/
def rowsOf (width line column length : Nat) (numbered : Nat × String) :
    List String :=
  if numbered.1 = line then
    [lineRow "> " width line numbered.2, caretRow width column
      (max 1 (min length (numbered.2.utf8ByteSize - (column - 1))))]
  else [plainRow width numbered]

/-- The lines of a text from one number to another that are shown, with their
numbers. -/
def linesBetween (text : String) (first last : Nat) : List (Nat × String) :=
  (List.range' first (min last (shownLines text).length + 1 - first)).map
    fun n => (n, (shownLines text).getD (n - 1) "")

/-- A row with a mark. -/
def isMarked (row : String) : Bool :=
  row.toList.head? == some '>'

section Numbers

/-- A smaller number takes no more room. -/
theorem length_toString_mono {a b : Nat} (h : a ≤ b) :
    (toString a).length ≤ (toString b).length := by
  simp only [Nat.toString_eq_ofList_toDigits, String.length_ofList]
  have room := (Nat.length_toDigits_le_iff (by decide)
    Nat.length_toDigits_pos).1 (Nat.le_refl (Nat.toDigits 10 b).length)
  exact (Nat.length_toDigits_le_iff (by decide) Nat.length_toDigits_pos).2
    (Nat.lt_of_le_of_lt h room)

@[simp] theorem toList_repeated (n : Nat) (c : Char) :
    (repeated n c).toList = List.replicate n c :=
  String.toList_ofList

@[simp] theorem length_repeated (n : Nat) (c : Char) :
    (repeated n c).length = n := by
  rw [← String.length_toList, toList_repeated, List.length_replicate]

/-- **All numbers of a frame take the same room.** -/
theorem length_padded_number {number last : Nat} (upTo : number ≤ last) :
    (padded (toString last).length (toString number)).length =
      (toString last).length := by
  have room := length_toString_mono upTo
  rw [padded, String.length_append, length_repeated]
  omega

end Numbers

section Rows

variable {width line column length number : Nat} {mark text : String}

theorem feed_not_mem_lineRow (oneMark : '\n' ∉ mark.toList)
    (oneLine : '\n' ∉ text.toList) :
    '\n' ∉ (lineRow mark width number text).toList := by
  have inNumber : '\n' ∉ Nat.toDigits 10 number :=
    not_mem_digits (by decide) number
  simp [lineRow, padded, oneMark, oneLine, inNumber]

theorem feed_not_mem_caretRow (carets : Nat) :
    '\n' ∉ (caretRow width column carets).toList := by
  simp [caretRow]

theorem feed_not_mem_rowsOf {numbered : Nat × String}
    (oneLine : '\n' ∉ numbered.2.toList) {row : String}
    (member : row ∈ rowsOf width line column length numbered) :
    '\n' ∉ row.toList := by
  rw [rowsOf] at member
  split at member
  · cases List.mem_cons.1 member with
    | inl marked =>
      rw [marked]
      exact feed_not_mem_lineRow (by decide) oneLine
    | inr below =>
      rw [List.mem_singleton.1 below]
      exact feed_not_mem_caretRow _
  · rw [List.mem_singleton.1 member]
    exact feed_not_mem_lineRow (by decide) oneLine

/-- What a frame has for a line are the rows of the line. -/
theorem frameLine_eq :
    (frameLine width line column length number text).toList = ended
      ((rowsOf width line column length (number, text)).map String.toList) := by
  by_cases here : number = line
  · simp [frameLine, rowsOf, lineRow, caretRow, ended, here]
  · simp [frameLine, rowsOf, plainRow, lineRow, ended, here]

@[simp] theorem isMarked_marked :
    isMarked (lineRow "> " width number text) = true := by
  simp [isMarked, lineRow]

@[simp] theorem isMarked_plain (numbered : Nat × String) :
    isMarked (plainRow width numbered) = false := by
  simp [isMarked, plainRow, lineRow]

@[simp] theorem isMarked_caretRow (carets : Nat) :
    isMarked (caretRow width column carets) = false := by
  simp [isMarked, caretRow]

end Rows

section Frames

variable (text : String)

/-- A line that is shown has no line feed in it. -/
theorem feed_not_mem_shown (n : Nat) :
    '\n' ∉ ((shownLines text).getD n "").toList := by
  by_cases inside : n < (shownLines text).length
  · obtain ⟨_, isLine⟩ := isLine_of_shown (List.getElem?_eq_getElem inside)
    rw [List.getD_eq_getElem?_getD, List.getElem?_eq_getElem inside,
      Option.getD_some]
    intro member
    apply isLine.oneLine
    rw [bytes_eq, List.mem_flatMap]
    exact ⟨'\n', member, by decide⟩
  · rw [List.getD_eq_getElem?_getD,
      List.getElem?_eq_none (Nat.le_of_not_lt inside), Option.getD_none]
    simp

/-- The lines that a frame takes are those between two numbers. -/
theorem zipIdx_taken {first last : Nat} (positive : 1 ≤ first) :
    (((shownLines text).drop (first - 1)).take (last + 1 - first)).zipIdx
      first = (linesBetween text first last).map Prod.swap := by
  apply List.ext_getElem
  · simp only [linesBetween, List.length_zipIdx, List.length_take,
      List.length_drop, List.length_map, List.length_range']
    omega
  · intro i taken between
    have inside : first - 1 + i < (shownLines text).length := by
      rw [List.length_zipIdx, List.length_take, List.length_drop] at taken
      omega
    have index : first + i - 1 = first - 1 + i := by omega
    simp [linesBetween, index, List.getD_eq_getElem?_getD,
      List.getElem?_eq_getElem inside]

/-- **The rows around a line are those of the lines around it.** -/
theorem rows_linesAround (name : String) (line column last length : Nat) :
    fullLines ((SourceFile.mk name text).linesAround line column last length) =
      (linesBetween text (max 1 (line - frameMargin)) last).flatMap
        (rowsOf (toString last).length line column length) := by
  generalize picked :
    linesBetween text (max 1 (line - frameMargin)) last = between
  have oneLine : ∀ numbered ∈ between, '\n' ∉ numbered.2.toList := by
    intro numbered member
    rw [← picked] at member
    obtain ⟨n, -, rfl⟩ := List.mem_map.1 member
    exact feed_not_mem_shown text (n - 1)
  have written :
      ((SourceFile.mk name text).linesAround line column last length).toList =
        ended ((between.flatMap
          (rowsOf (toString last).length line column length)).map
            String.toList) := by
    simp only [SourceFile.linesAround]
    rw [zipIdx_taken text (Nat.le_max_left _ _), picked]
    clear picked oneLine
    induction between with
    | nil => rfl
    | cons numbered between ih =>
      rw [List.map_cons, List.map_cons, String.join_cons, String.toList_append,
        ih, List.flatMap_cons, List.map_append, ended_append]
      exact congrArg (· ++ _) frameLine_eq
  apply fullLines_of_ended written
  intro row member
  obtain ⟨numbered, known, here⟩ := List.mem_flatMap.1 member
  exact feed_not_mem_rowsOf (oneLine numbered known) here

theorem mem_linesBetween {first last : Nat} {numbered : Nat × String}
    (h : numbered ∈ linesBetween text first last) :
    first ≤ numbered.1 ∧ numbered.1 ≤ min last (shownLines text).length ∧
      numbered.2 = (shownLines text).getD (numbered.1 - 1) "" := by
  obtain ⟨n, inside, rfl⟩ := List.mem_map.1 h
  have range := List.mem_range'_1.1 inside
  exact ⟨range.1, by omega, rfl⟩

/-- **The lines of a frame are those of the text** with their numbers. -/
theorem isLine_of_between {first last : Nat} (positive : 1 ≤ first)
    {numbered : Nat × String} (h : numbered ∈ linesBetween text first last) :
    ∃ start, IsLine text numbered.1 start numbered.2 := by
  obtain ⟨front, upTo, line⟩ := mem_linesBetween text h
  have inside : numbered.1 - 1 < (shownLines text).length := by omega
  rw [List.getD_eq_getElem?_getD, List.getElem?_eq_getElem inside,
    Option.getD_some] at line
  have shown : (shownLines text)[numbered.1 - 1]? = some numbered.2 := by
    rw [line, List.getElem?_eq_getElem inside]
  obtain ⟨start, isLine⟩ := isLine_of_shown shown
  rw [show numbered.1 - 1 + 1 = numbered.1 by omega] at isLine
  exact ⟨start, isLine⟩

/-- The lines around a line that is shown are those in front of it, itself, and
those behind it. -/
theorem linesBetween_around {first line last : Nat} (positive : 1 ≤ first)
    (front : first ≤ line) (back : line ≤ last)
    (shown : line ≤ (shownLines text).length) :
    linesBetween text first last = linesBetween text first (line - 1) ++
      (line, (shownLines text).getD (line - 1) "") ::
      linesBetween text (line + 1) last := by
  have split : List.range' first (min last (shownLines text).length + 1 -
      first) = List.range' first (min (line - 1) (shownLines text).length +
      1 - first) ++ line :: List.range' (line + 1)
      (min last (shownLines text).length + 1 - (line + 1)) := by
    have whole : min last (shownLines text).length + 1 - first = (line -
        first) + (min last (shownLines text).length + 1 - (line + 1) + 1) := by
      omega
    have early : min (line - 1) (shownLines text).length + 1 - first =
        line - first := by
      omega
    have atLine : first + (line - first) = line := by omega
    rw [whole, early, ← List.range'_append_1, atLine, List.range'_succ]
  rw [linesBetween, split, List.map_append, List.map_cons]
  rfl

variable {text}

/-- Other lines have plain rows. -/
theorem flatMap_rowsOf {width line column length : Nat}
    {between : List (Nat × String)}
    (others : ∀ numbered ∈ between, numbered.1 ≠ line) :
    between.flatMap (rowsOf width line column length) =
      between.map (plainRow width) := by
  induction between with
  | nil => rfl
  | cons numbered between ih =>
    obtain ⟨first, later⟩ := List.forall_mem_cons.1 others
    rw [List.flatMap_cons, ih later, rowsOf, if_neg first, List.map_cons,
      List.singleton_append]

theorem filter_plain (width : Nat) (between : List (Nat × String)) :
    (between.map (plainRow width)).filter isMarked = [] := by
  apply List.filter_eq_nil_iff.2
  intro row member
  obtain ⟨numbered, -, rfl⟩ := List.mem_map.1 member
  simp

section Location

variable (name : String) {line : Nat} (column length : Nat)

/-- The rows around a line that is shown. -/
theorem rows_shown (positive : 1 ≤ line)
    (within : line ≤ (shownLines text).length) :
    fullLines ((SourceFile.mk name text).linesAround line column
        (line + frameMargin) length) =
      (linesBetween text (max 1 (line - frameMargin)) (line - 1)).map
          (plainRow (toString (line + frameMargin)).length) ++
        rowsOf (toString (line + frameMargin)).length line column length
          (line, (shownLines text).getD (line - 1) "") ++
        (linesBetween text (line + 1) (line + frameMargin)).map
          (plainRow (toString (line + frameMargin)).length) := by
  have around :=
    linesBetween_around text (Nat.le_max_left 1 (line - frameMargin)) (by omega)
      (Nat.le_add_right line frameMargin) within
  rw [rows_linesAround, around, List.flatMap_append, List.flatMap_cons,
    flatMap_rowsOf, flatMap_rowsOf, List.append_assoc]
  · intro numbered member
    have behind := (mem_linesBetween text member).1
    omega
  · intro numbered member
    have front := (mem_linesBetween text member).2.1
    omega

/-- The rows around a line behind those that are shown. -/
theorem rows_blank (beyond : line = (shownLines text).length + 1) :
    fullLines ((SourceFile.mk name text).linesAround line column
        (line + frameMargin) length) =
      (linesBetween text (max 1 (line - frameMargin)) (line - 1)).map
        (plainRow (toString (line + frameMargin)).length) := by
  have all :
      linesBetween text (max 1 (line - frameMargin)) (line + frameMargin) =
      linesBetween text (max 1 (line - frameMargin)) (line - 1) := by
    rw [linesBetween, linesBetween, Nat.min_eq_right (by omega),
      Nat.min_eq_right (by omega)]
  rw [rows_linesAround, all, flatMap_rowsOf]
  intro numbered member
  have front := (mem_linesBetween text member).2.1
  omega

end Location

end Frames

/-- How wide the numbers of a frame are. -/
def numberWidth (l : Location) : Nat :=
  (toString (l.line + frameMargin)).length

/-- What the rows of a frame show for a span: `line` is the line of the
location, and begins at the byte `start`. -/
structure PointsAt (f : SourceFile) (s : FileSpan) (l : Location)
    (shown : List String) (line : String) (start : Nat) : Prop where
  /-- The location is that of the first byte of the span. -/
  isLine : IsLine f.text l.line start line
  column_eq : start ≤ s.start ∧ l.column = s.start - start + 1
  /-- The rows are those of the lines around the location. Below the row of the
  location's line the carets begin under the column, and there are as many as
  the span has bytes on the line, but at least one. -/
  rows_eq : shown = (linesBetween f.text (max 1 (l.line - frameMargin))
    (l.line - 1)).map (plainRow (numberWidth l)) ++
    [lineRow "> " (numberWidth l) l.line line, caretRow (numberWidth l) l.column
    (max 1 (min s.stop (start + line.utf8ByteSize) - s.start))] ++
    (linesBetween f.text (l.line + 1) (l.line + frameMargin)).map
    (plainRow (numberWidth l))
  /-- No other row is marked. -/
  onlyMark : shown.filter isMarked = [lineRow "> " (numberWidth l) l.line line]
  /-- The lines stand in the text under their numbers, and all numbers take the
  same room. -/
  numbers : ∀ numbered ∈
    linesBetween f.text (max 1 (l.line - frameMargin)) (l.line + frameMargin),
    (∃ start, IsLine f.text numbered.1 start numbered.2) ∧
    (padded (numberWidth l) (toString numbered.1)).length = numberWidth l
  /-- No caret is behind the end of the line, unless the span begins there. -/
  withinLine : l.column - 1 + max 1 (min s.stop (start + line.utf8ByteSize) -
    s.start) ≤ line.utf8ByteSize ∨ line.utf8ByteSize ≤ l.column - 1 ∧
    max 1 (min s.stop (start + line.utf8ByteSize) - s.start) = 1

section Short

variable {f : SourceFile} {start : Nat}
  (short : f.text.utf8ByteSize < 2 ^ 32 - 3)
  (inside : start ≤ f.text.utf8ByteSize)
include short inside

/-- In a text with room for the numbers, the line and the column of a span are
those of its start. -/
theorem lineColumn_inside :
    (lineColumn f.text start.toUInt32).1.toNat = lineAt f.text start ∧
      (lineColumn f.text start.toUInt32).2.toNat = columnAt f.text start := by
  have whole : capped f.text start.toUInt32 = start := by
    rw [capped, toNat_toUInt32 (by omega), Nat.min_eq_left inside]
  have numbers := @lineColumn_toNat f.text (by omega) start.toUInt32 (by omega)
  rwa [whole] at numbers

/-- A frame has the lines around the line of the span. -/
theorem frame_eq (stop : Nat) :
    f.frame start stop = f.linesAround (lineAt f.text start) (columnAt f.text
      start) (lineAt f.text start + frameMargin) (stop - start) := by
  obtain ⟨line, column⟩ := lineColumn_inside short inside
  have bound := lineAt_le f.text start
  have margin : frameMargin.toUInt32.toNat = 2 := rfl
  have last : ((lineColumn f.text start.toUInt32).1 +
      frameMargin.toUInt32).toNat = lineAt f.text start + frameMargin := by
    rw [UInt32.toNat_add, line, margin, Nat.mod_eq_of_lt (by omega)]
    rfl
  rw [SourceFile.frame, ← last, ← line, ← column]

end Short

/-- **Where the line of a location is shown, the frame points at it.** -/
theorem pointsAt_of_shown {f : SourceFile} {s : FileSpan}
    (short : f.text.utf8ByteSize < 2 ^ 32 - 3)
    (inside : s.start ≤ f.text.utf8ByteSize)
    (within : lineAt f.text s.start ≤ (shownLines f.text).length) :
    ∃ line start, PointsAt f s ⟨f.name, lineAt f.text s.start, columnAt f.text
      s.start⟩ (fullLines (f.frame s.start s.stop)) line start := by
  obtain ⟨start, found, upTo, -, column⟩ := lineStart_of_offset f.text inside
  have positive : 0 < lineAt f.text s.start :=
    Nat.lt_of_lt_of_le Nat.zero_lt_one (Nat.le_add_right _ _)
  have inRange : lineAt f.text s.start - 1 < (shownLines f.text).length := by
    omega
  have here : (shownLines f.text)[lineAt f.text s.start - 1]? =
      some ((shownLines f.text).getD (lineAt f.text s.start - 1) "") := by
    rw [List.getD_eq_getElem?_getD, List.getElem?_eq_getElem inRange,
      Option.getD_some]
  generalize (shownLines f.text).getD (lineAt f.text s.start - 1) "" =
    line at here
  obtain ⟨other, isLine⟩ := isLine_of_shown here
  rw [Nat.sub_add_cancel positive] at isLine
  have same : other = start :=
    Option.some_inj.1 (isLine.start_eq.symm.trans found)
  subst same
  -- The line is cut at its end as the carets are: the column counts from the
  -- start of the line.
  have carets : max 1 (min (s.stop - s.start)
      (line.utf8ByteSize - (columnAt f.text s.start - 1))) =
      max 1 (min s.stop (other + line.utf8ByteSize) - s.start) := by
    omega
  have shown := rows_shown f.name (columnAt f.text s.start) (s.stop - s.start)
    positive within
  rw [← frame_eq short inside, List.getD_eq_getElem?_getD, here,
    Option.getD_some, rowsOf, if_pos rfl, carets] at shown
  refine ⟨line, other, isLine, ⟨upTo, column⟩, shown, ?_, ?_, ?_⟩
  · rw [shown, List.filter_append, List.filter_append, filter_plain,
      filter_plain]
    simp [numberWidth]
  · intro numbered member
    refine ⟨isLine_of_between f.text (Nat.le_max_left _ _) member,
      length_padded_number ?_⟩
    have bound := (mem_linesBetween f.text member).2.1
    omega
  · dsimp only
    omega

/-- **A frame points at the location of its span**, wherever in the text the
span begins. The exception is the end of a text with nothing behind its last
line feed: the line that the location has there is not shown, and no row is
marked.

The last number of a frame is larger than the size of the text by at most three,
and has 32 bits. -/
theorem frame_marks_location {fs : SourceFiles} {s : FileSpan} {f : SourceFile}
    (known : fs.files[s.file]? = some f)
    (short : f.text.utf8ByteSize < 2 ^ 32 - 3)
    (inside : s.start ≤ f.text.utf8ByteSize) :
    ∃ l frame, fs.location? s = some l ∧ fs.frame? s = some frame ∧
      if s.start = f.text.utf8ByteSize ∧ EndsBlank f.text.toList then l.line =
      (shownLines f.text).length + 1 ∧ (fullLines frame).filter isMarked = [] ∧
      fullLines frame = (linesBetween f.text (max 1 (l.line - frameMargin))
        (l.line - 1)).map (plainRow (numberWidth l))
        else ∃ line start, PointsAt f s l (fullLines frame) line start := by
  refine ⟨⟨f.name, lineAt f.text s.start, columnAt f.text s.start⟩,
    f.frame s.start s.stop, ?_, ?_, ?_⟩
  · obtain ⟨line, column⟩ := lineColumn_inside short inside
    rw [SourceFiles.location?, known, Option.map_some, ← line, ← column]
  · rw [SourceFiles.frame?, known, Option.map_some]
  have isShown := line_is_shown_iff inside
  by_cases blank : s.start = f.text.utf8ByteSize ∧ EndsBlank f.text.toList
  · have notShown : ¬ lineAt f.text s.start ≤ (shownLines f.text).length :=
      fun within => isShown.1 within blank
    have upTo := lineAt_le_shown inside
    have beyond : lineAt f.text s.start = (shownLines f.text).length + 1 := by
      omega
    have shown := rows_blank f.name (columnAt f.text s.start) (s.stop - s.start)
      beyond
    rw [if_pos blank, frame_eq short inside, shown]
    exact ⟨beyond, filter_plain _ _, rfl⟩
  · rw [if_neg blank]
    exact pointsAt_of_shown short inside (isShown.2 blank)

/-- Behind the last line feed there is no line to be marked. -/
theorem frame_marks_location_behindLastFeed :
    ∃ l frame, (⟨[⟨"a.js", "f(\n"⟩]⟩ : SourceFiles).location? ⟨0, 3, 3⟩ =
      some l ∧
      (⟨[⟨"a.js", "f(\n"⟩]⟩ : SourceFiles).frame? ⟨0, 3, 3⟩ = some frame ∧
        (fullLines frame).filter isMarked = [] := by
  obtain ⟨l, frame, located, framed, shown⟩ :=
    @frame_marks_location ⟨[⟨"a.js", "f(\n"⟩]⟩ ⟨0, 3, 3⟩ ⟨"a.js", "f(\n"⟩ rfl
      (by decide) (by decide)
  rw [if_pos (by decide)] at shown
  exact ⟨l, frame, located, framed, shown.2.1⟩

/-- A span that goes on in the next line. -/
example :
    (SourceFile.mk "a.js" "idx(a, _ => \x7b\n  return _.b;\r\n\x7d);").frame
      7 30 =
      "> 1 | idx(a, _ => \x7b\n    |        ^^^^^^\n" ++
        "  2 |   return _.b;\n  3 | \x7d);\n" := by
  decide +kernel

end NullGuard.Diagnostics
