import NullGuard.Access.Pattern

/-!
# What the pieces of a pattern match

`covers` works through a text with one table of marks for each piece. Here its
answer is put independently of the tables: a text *fits* a list of pieces if it
is the letters in order with some text that is not empty and stays on one line
in place of each gap, and the pieces cover a text if and only if some contiguous
part of it fits them.

* `Marks` says what a table means: its entry for a position answers a question
  about the text from that position on.
* `marks_coverStarts` is the invariant of the tables, by induction on the
  pieces.
* `covers_iff` is the answer for the whole text.
-/

namespace NullGuard.Access

/-- A text that is exactly what the pieces stand for. -/
inductive Fits : List Piece → List Char → Prop where
  | nil : Fits [] []
  | letter (c : Char) {ps : List Piece} {text : List Char}
      (rest : Fits ps text) :
      Fits (.letter c :: ps) (c :: text)
  | gap (filling : List Char) {ps : List Piece} {text : List Char}
      (filled : filling ≠ []) (oneLine : '\n' ∉ filling) (rest : Fits ps text) :
      Fits (.gap :: ps) (filling ++ text)

/-- A text that begins with something that fits. -/
def Begins (ps : List Piece) (text : List Char) : Prop :=
  ∃ front back, text = front ++ back ∧ Fits ps front

/-- Every text begins with something that fits no pieces. -/
theorem begins_nil (text : List Char) : Begins [] text :=
  ⟨[], text, rfl, .nil⟩

/-- A text begins with a letter and something more exactly if that letter is its
first one and the rest begins with what more there is. -/
theorem begins_letter (c : Char) (ps : List Piece) (text : List Char) :
    Begins (.letter c :: ps) text ↔ ∃ rest, text = c :: rest ∧
      Begins ps rest := by
  constructor
  · rintro ⟨front, back, rfl, fits⟩
    cases fits with
    | letter _ fits => exact ⟨_, rfl, _, _, rfl, fits⟩
  · rintro ⟨rest, rfl, front, back, rfl, fits⟩
    exact ⟨c :: front, back, rfl, .letter c fits⟩

/-- A text begins with a gap and something more exactly if it begins with a
filling of the gap and what follows begins with what more there is. -/
theorem begins_gap (ps : List Piece) (text : List Char) :
    Begins (.gap :: ps) text ↔ ∃ filling rest, filling ≠ [] ∧ '\n' ∉ filling ∧
      text = filling ++ rest ∧ Begins ps rest := by
  constructor
  · rintro ⟨front, back, rfl, fits⟩
    cases fits with
    | gap filling filled oneLine fits =>
      exact ⟨filling, _, filled, oneLine, List.append_assoc .., _, _, rfl, fits⟩
  · rintro ⟨filling, rest, filled, oneLine, rfl, front, back, rfl, fits⟩
    exact ⟨filling ++ front, back, (List.append_assoc ..).symm,
      .gap filling filled oneLine fits⟩

/-- A table of marks for a text and its end, each of which answers a question
about the text from there on. -/
def Marks (question : List Char → Prop) : List Char → List Bool → Prop
  | [], marks => ∃ b, marks = [b] ∧ (b = true ↔ question [])
  | c :: text, marks =>
    ∃ b later, marks = b :: later ∧ (b = true ↔ question (c :: text)) ∧
      Marks question text later

/-- The first mark answers the question about the whole text. -/
theorem Marks.head {question : List Char → Prop} {text : List Char}
    {marks : List Bool} (h : Marks question text marks) :
    marks.headD false = true ↔ question text := by
  cases text with
  | nil =>
    obtain ⟨b, rfl, hb⟩ := h
    exact hb
  | cons c text =>
    obtain ⟨b, later, rfl, hb, -⟩ := h
    exact hb

/-- Equivalent questions have the same tables. -/
theorem Marks.congr {question question' : List Char → Prop}
    (same : ∀ t, question t ↔ question' t) {text : List Char}
    {marks : List Bool} (h : Marks question text marks) :
    Marks question' text marks := by
  induction text generalizing marks with
  | nil =>
    obtain ⟨b, rfl, hb⟩ := h
    exact ⟨b, rfl, hb.trans (same _)⟩
  | cons c text ih =>
    obtain ⟨b, later, rfl, hb, hl⟩ := h
    exact ⟨b, later, rfl, hb.trans (same _), ih hl⟩

/-- Some mark is set exactly if some position of the text has the answer yes. -/
theorem Marks.any {question : List Char → Prop} {text : List Char}
    {marks : List Bool} (h : Marks question text marks) :
    marks.any id = true ↔ ∃ before rest, text = before ++ rest ∧
      question rest := by
  induction text generalizing marks with
  | nil =>
    obtain ⟨b, rfl, hb⟩ := h
    rw [List.any_cons, List.any_nil, Bool.or_false, id, hb]
    constructor
    · exact fun here => ⟨[], [], rfl, here⟩
    · rintro ⟨before, rest, split, there⟩
      obtain ⟨-, rfl⟩ := List.append_eq_nil_iff.1 split.symm
      exact there
  | cons c text ih =>
    obtain ⟨b, later, rfl, hb, hl⟩ := h
    rw [List.any_cons, Bool.or_eq_true, ih hl, id, hb]
    constructor
    · rintro (here | ⟨before, rest, rfl, there⟩)
      · exact ⟨[], _, rfl, here⟩
      · exact ⟨c :: before, rest, rfl, there⟩
    · rintro ⟨before, rest, split, there⟩
      cases before with
      | nil => exact .inl (split ▸ there)
      | cons d before =>
        obtain ⟨-, rfl⟩ := List.cons.inj split
        exact .inr ⟨before, rest, rfl, there⟩

/-- A question that is always answered with yes. -/
theorem marks_replicate {question : List Char → Prop} (always : ∀ t, question t)
    (text : List Char) :
    Marks question text (List.replicate (text.length + 1) true) := by
  induction text with
  | nil => exact ⟨true, rfl, by simp [always]⟩
  | cons c text ih => exact ⟨true, _, rfl, by simp [always], ih⟩

/-- What the table of a letter means. -/
theorem marks_letterStarts {question : List Char → Prop} (c : Char)
    {text : List Char} {marks : List Bool} (h : Marks question text marks) :
    Marks (fun t => ∃ rest, t = c :: rest ∧ question rest) text
      (letterStarts c text marks) := by
  induction text generalizing marks with
  | nil => exact ⟨false, rfl, by simp⟩
  | cons x text ih =>
    obtain ⟨b, later, rfl, -, hl⟩ := h
    refine ⟨_, _, rfl, ?_, ih hl⟩
    rw [Bool.and_eq_true, beq_iff_eq, hl.head]
    constructor
    · rintro ⟨rfl, there⟩
      exact ⟨text, rfl, there⟩
    · rintro ⟨rest, split, there⟩
      obtain ⟨rfl, rfl⟩ := List.cons.inj split
      exact ⟨rfl, there⟩

/-- A filling of a gap followed by a text that has a certain property. -/
def AfterGap (question : List Char → Prop) (text : List Char) : Prop :=
  ∃ filling rest, filling ≠ [] ∧ '\n' ∉ filling ∧ text = filling ++ rest ∧
    question rest

/-- The filling of a gap is its first letter, which ends no line, and then
nothing or a filling. -/
theorem afterGap_cons (question : List Char → Prop) (x : Char)
    (text : List Char) :
    AfterGap question (x :: text) ↔
      x ≠ '\n' ∧ (question text ∨ AfterGap question text) := by
  constructor
  · rintro ⟨filling, rest, filled, oneLine, split, there⟩
    cases filling with
    | nil => exact absurd rfl filled
    | cons y filling =>
      obtain ⟨rfl, rfl⟩ := List.cons.inj split
      rw [List.mem_cons, not_or] at oneLine
      refine ⟨Ne.symm oneLine.1, ?_⟩
      by_cases last : filling = []
      · exact .inl (by simpa [last] using there)
      · exact .inr ⟨filling, rest, last, oneLine.2, rfl, there⟩
  · rintro ⟨inLine, there | ⟨filling, rest, -, oneLine, rfl, there⟩⟩
    · exact ⟨[x], text, by simp, by simpa using Ne.symm inLine, rfl, there⟩
    · refine ⟨x :: filling, rest, by simp, ?_, rfl, there⟩
      rw [List.mem_cons, not_or]
      exact ⟨Ne.symm inLine, oneLine⟩

/-- What the table of a gap means. -/
theorem marks_gapStarts {question : List Char → Prop} {text : List Char}
    {marks : List Bool} (h : Marks question text marks) :
    Marks (AfterGap question) text (gapStarts text marks) := by
  induction text generalizing marks with
  | nil =>
    refine ⟨false, rfl, ?_⟩
    simp only [Bool.false_eq_true, false_iff]
    rintro ⟨filling, rest, filled, -, split, -⟩
    exact filled (List.append_eq_nil_iff.1 split.symm).1
  | cons x text ih =>
    obtain ⟨b, later, rfl, -, hl⟩ := h
    refine ⟨_, _, rfl, ?_, ih hl⟩
    rw [Bool.and_eq_true, Bool.or_eq_true, hl.head, (ih hl).head, bne_iff_ne]
    exact (afterGap_cons question x text).symm

/-- **The invariant of the tables.** For every position, the table of a list of
pieces says whether the text from there on begins with something that fits the
pieces. -/
theorem marks_coverStarts (ps : List Piece) (text : List Char) :
    Marks (Begins ps) text (coverStarts ps text) := by
  induction ps with
  | nil => exact marks_replicate begins_nil text
  | cons p ps ih =>
    cases p with
    | letter c =>
      exact (marks_letterStarts c ih).congr fun t => (begins_letter c ps t).symm
    | gap => exact (marks_gapStarts ih).congr fun t => (begins_gap ps t).symm

/-- **Covering is fitting a part.** Pieces cover a text exactly if some
contiguous part of the text fits them. -/
theorem covers_iff (ps : List Piece) (text : List Char) :
    covers ps text = true ↔ ∃ before part after, text = before ++
      part ++ after ∧
      Fits ps part := by
  rw [covers, (marks_coverStarts ps text).any]
  constructor
  · rintro ⟨before, rest, rfl, part, after, rfl, fits⟩
    exact ⟨before, part, after, (List.append_assoc ..).symm, fits⟩
  · rintro ⟨before, part, after, rfl, fits⟩
    exact ⟨before, part ++ after, List.append_assoc .., part, after, rfl, fits⟩

/-- What fits pieces that start with the letters of a text starts with that
text. -/
theorem fits_letters_append (text : List Char) (ps : List Piece)
    (whole : List Char) :
    Fits (text.map Piece.letter ++ ps) whole ↔ ∃ rest, whole = text ++ rest ∧
      Fits ps rest := by
  induction text generalizing whole with
  | nil => simp
  | cons c text ih =>
    rw [List.map_cons, List.cons_append]
    constructor
    · intro fits
      cases fits with
      | letter _ fits =>
        obtain ⟨rest, rfl, fitsRest⟩ := (ih _).1 fits
        exact ⟨rest, rfl, fitsRest⟩
    · rintro ⟨rest, rfl, fits⟩
      exact .letter c ((ih _).2 ⟨rest, rfl, fits⟩)

end NullGuard.Access
