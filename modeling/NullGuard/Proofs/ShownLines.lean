import NullGuard.Proofs.LineTable

/-!
# The lines that are shown

A text is shown line by line: an empty line behind the last line feed is left
out, and so is a carriage return in front of a line feed. The numbers of the
lines come from elsewhere, from the table of the starts. Both are the same cut
of the text at its line feeds (`Cut`), so the line that is shown under a number
stands in the text where the table has the start of that line
(`isLine_of_shown`).

The table has one line more than is shown just if there is nothing behind the
last line feed, and then that line is found at the end of the text only
(`line_is_shown_iff`).
-/

namespace NullGuard.Text

/-- Lines with a line feed behind each. -/
def ended (lines : List (List Char)) : List Char :=
  lines.flatMap (· ++ ['\n'])

/-- A text consists of lines that end in line feeds, and of what is behind the
last of them. -/
structure Cut (text : List Char) (lines : List (List Char)) (tail : List Char) :
    Prop where
  text_eq : text = ended lines ++ tail
  oneLine : ∀ line ∈ lines, '\n' ∉ line
  tail_oneLine : '\n' ∉ tail

section Cuts

variable {text tail line : List Char} {lines : List (List Char)}

@[simp] theorem ended_cons (line : List Char) (lines : List (List Char)) :
    ended (line :: lines) = line ++ '\n' :: ended lines := by
  simp [ended]

@[simp] theorem ended_append (front back : List (List Char)) :
    ended (front ++ back) = ended front ++ ended back :=
  List.flatMap_append

theorem splitLines_of_oneLine (h : '\n' ∉ tail) : splitLines tail = [tail] := by
  induction tail with
  | nil => rfl
  | cons c cs ih =>
    obtain ⟨differ, others⟩ := List.ne_and_not_mem_of_not_mem_cons h
    rw [splitLines, ih others]
    exact fun same => differ same.symm

theorem splitLines_line (h : '\n' ∉ line) (rest : List Char) :
    splitLines (line ++ '\n' :: rest) = line :: splitLines rest := by
  induction line with
  | nil => rfl
  | cons c cs ih =>
    obtain ⟨differ, others⟩ := List.ne_and_not_mem_of_not_mem_cons h
    rw [List.cons_append, splitLines, ih others]
    exact fun same => differ same.symm

/-- The pieces of a text are its lines and what is behind them. -/
theorem Cut.pieces (cut : Cut text lines tail) :
    splitLines text = lines ++ [tail] := by
  obtain ⟨rfl, oneLine, tail_oneLine⟩ := cut
  induction lines with
  | nil => exact splitLines_of_oneLine tail_oneLine
  | cons line lines ih =>
    obtain ⟨first, others⟩ := List.forall_mem_cons.1 oneLine
    rw [ended_cons, List.append_assoc, List.cons_append, splitLines_line first,
      ih others, List.cons_append]

/-- The lines of a text that end in a line feed. -/
def fullLines (text : String) : List String :=
  (splitLines text.toList).dropLast.map String.ofList

/-- Lines with a line feed behind each are found again. -/
theorem fullLines_of_ended {text : String} {lines : List String}
    (written : text.toList = ended (lines.map String.toList))
    (oneLine : ∀ line ∈ lines, '\n' ∉ line.toList) :
    fullLines text = lines := by
  have cut : Cut text.toList (lines.map String.toList) [] := by
    refine ⟨by rw [written, List.append_nil], ?_, List.not_mem_nil⟩
    intro line member
    obtain ⟨line, inside, rfl⟩ := List.mem_map.1 member
    exact oneLine line inside
  rw [fullLines, cut.pieces, List.dropLast_concat, List.map_map]
  simp [Function.comp_def]

/-- The digits of a number are digits only. -/
theorem not_mem_digits {c : Char} (noDigit : c.isDigit = false) (n : Nat) :
    c ∉ Nat.toDigits 10 n := by
  intro member
  have digit := Nat.isDigit_of_mem_toDigits (by decide) (by decide) member
  rw [noDigit] at digit
  exact Bool.noConfusion digit

/-- Every text can be cut. -/
theorem Cut.exists (text : List Char) : ∃ lines tail, Cut text lines tail := by
  induction text with
  | nil => exact ⟨[], [], rfl, by simp, by simp⟩
  | cons c text ih =>
    obtain ⟨lines, tail, rfl, oneLine, tail_oneLine⟩ := ih
    by_cases feed : c = '\n'
    · refine ⟨[] :: lines, tail, ?_, List.forall_mem_cons.2 ⟨by simp, oneLine⟩,
        tail_oneLine⟩
      rw [feed, ended_cons]
      rfl
    · have fresh : ∀ {cs : List Char}, '\n' ∉ cs → '\n' ∉ c :: cs := by
        intro cs h
        simp [h, Ne.symm feed]
      cases lines with
      | nil => exact ⟨[], c :: tail, rfl, by simp, fresh tail_oneLine⟩
      | cons line lines =>
        obtain ⟨first, others⟩ := List.forall_mem_cons.1 oneLine
        refine ⟨(c :: line) :: lines, tail, ?_,
          List.forall_mem_cons.2 ⟨fresh first, others⟩, tail_oneLine⟩
        rw [ended_cons, ended_cons]
        rfl

/-- Nothing is behind the last line feed. -/
def EndsBlank (text : List Char) : Prop :=
  text = [] ∨ text.getLast? = some '\n'

instance (text : List Char) : Decidable (EndsBlank text) :=
  inferInstanceAs (Decidable (_ ∨ _))

theorem Cut.endsBlank_iff (cut : Cut text lines tail) :
    EndsBlank text ↔ tail = [] := by
  obtain ⟨rfl, -, tail_oneLine⟩ := cut
  by_cases nothing : tail = []
  · have blank : EndsBlank (ended lines ++ tail) := by
      rw [nothing, List.append_nil]
      cases List.eq_nil_or_concat lines with
      | inl none => exact .inl (by rw [none]; rfl)
      | inr some =>
        obtain ⟨front, last, rfl⟩ := some
        exact .inr (by simp [ended])
    exact iff_of_true blank nothing
  · refine iff_of_false ?_ nothing
    intro blank
    cases blank with
    | inl empty => exact nothing (List.append_eq_nil_iff.1 empty).2
    | inr feed =>
      rw [List.getLast?_append_of_ne_nil _ nothing] at feed
      exact tail_oneLine (List.mem_of_getLast? feed)

end Cuts

/-- Characters in UTF-8. -/
def encode (cs : List Char) : List UInt8 :=
  cs.flatMap String.utf8EncodeChar

section Encoding

variable (front back : List Char)

@[simp] theorem encode_append :
    encode (front ++ back) = encode front ++ encode back :=
  List.flatMap_append

@[simp] theorem encode_feed :
    encode ('\n' :: back) = lineFeed :: encode back := by
  rw [encode, List.flatMap_cons, encode_lineFeed]
  rfl

theorem bytes_ofList (cs : List Char) :
    bytes (String.ofList cs) = encode cs := by
  rw [bytes_eq, String.toList_ofList]
  rfl

theorem lineFeed_not_mem_encode {cs : List Char} (h : '\n' ∉ cs) :
    lineFeed ∉ encode cs := by
  intro member
  obtain ⟨c, inside, here⟩ := List.mem_flatMap.1 member
  exact lineFeed_not_mem (fun feed => h (feed ▸ inside)) here

end Encoding

section Table

variable {lines : List (List Char)} {tail : List Char} {text : String}

/-- The starts of lines that begin at `pos`: each is behind the lines in front
of it. -/
theorem starts_of_lines (pos : Nat) (oneLine : ∀ line ∈ lines, '\n' ∉ line)
    (tail_oneLine : '\n' ∉ tail) :
    pos :: behindFeeds pos (encode (ended lines ++ tail)) =
      (List.range (lines.length + 1)).map fun k => pos +
      (encode (ended (lines.take k))).length := by
  induction lines generalizing pos with
  | nil =>
    rw [ended, List.flatMap_nil, List.nil_append,
      behindFeeds_of_not_mem pos _ (lineFeed_not_mem_encode tail_oneLine)]
    rfl
  | cons line lines ih =>
    obtain ⟨first, others⟩ := List.forall_mem_cons.1 oneLine
    have later : behindFeeds pos (encode (ended (line :: lines) ++ tail)) =
        (pos + (encode line).length + 1) :: behindFeeds
        (pos + (encode line).length + 1) (encode (ended lines ++ tail)) := by
      rw [ended_cons, List.append_assoc, List.cons_append,
        encode_append, encode_feed, behindFeeds_append,
        behindFeeds_of_not_mem pos _ (lineFeed_not_mem_encode first),
        List.nil_append, behindFeeds, if_pos rfl]
    rw [later, ih _ others, List.length_cons, List.range_succ_eq_map
      (n := lines.length + 1), List.map_cons, List.map_map]
    congr 1
    apply List.map_congr_left
    intro k _
    simp only [Function.comp_apply, Nat.succ_eq_add_one, List.take_succ_cons,
      ended_cons, encode_append, encode_feed, List.length_append,
      List.length_cons]
    omega

theorem Cut.starts (cut : Cut text.toList lines tail) :
    lineStarts text = (List.range (lines.length + 1)).map fun k =>
      (encode (ended (lines.take k))).length := by
  have starts := starts_of_lines 0 cut.oneLine cut.tail_oneLine
  simp only [Nat.zero_add] at starts
  rw [lineStarts_eq, bytes_eq, cut.text_eq]
  exact starts

theorem Cut.start (cut : Cut text.toList lines tail) {k : Nat}
    (inside : k ≤ lines.length) :
    (lineStarts text)[k]? = some (encode (ended (lines.take k))).length := by
  rw [cut.starts, List.getElem?_map,
    List.getElem?_range (Nat.lt_succ_of_le inside), Option.map_some]

theorem Cut.size (cut : Cut text.toList lines tail) :
    text.utf8ByteSize = (encode (ended lines)).length +
      (encode tail).length := by
  rw [← length_bytes, bytes_eq, cut.text_eq, ← List.length_append,
    ← encode_append]
  rfl

end Table

/-- The byte of a carriage return. -/
def carriageReturn : UInt8 :=
  13

/-- `line` is the line of a text with a number. It begins at the byte `start`,
where the table has the start of that line; what ends it is a line feed with or
without a carriage return in front of it, or the end of the text. -/
structure IsLine (text : String) (number start : Nat) (line : String) :
    Prop where
  number_pos : 0 < number
  start_eq : (lineStarts text)[number - 1]? = some start
  stands : ∃ back, (bytes text).drop start = bytes line ++ back ∧
    (back = [] ∧ line ≠ "" ∨ [lineFeed] <+: back ∧
      line.toList.getLast? ≠ some '\r' ∨ [carriageReturn, lineFeed] <+: back)
  oneLine : lineFeed ∉ bytes line

section Shown

variable {lines : List (List Char)} {tail : List Char} {text : String}

theorem Cut.shown (cut : Cut text.toList lines tail) :
    shownLines text = (lines.map fun line => String.ofList (dropReturn line)) ++
      if tail = [] then [] else [String.ofList tail] := by
  rw [shownLines, cut.pieces, List.dropLast_concat, List.getLastD_concat]
  by_cases nothing : tail = []
  · simp [nothing]
  · simp [nothing]

/-- What stands behind the lines in front of a line. -/
theorem Cut.drop_bytes (cut : Cut text.toList lines tail) (k : Nat) :
    (bytes text).drop (encode (ended (lines.take k))).length =
      encode (ended (lines.drop k) ++ tail) := by
  have parted : encode (ended lines) = encode (ended (lines.take k)) ++
      encode (ended (lines.drop k)) := by
    rw [← encode_append, ← ended_append, List.take_append_drop]
  have whole : bytes text = encode (ended (lines.take k)) ++
      encode (ended (lines.drop k) ++ tail) := by
    rw [bytes_eq, cut.text_eq, ← encode, encode_append, parted, encode_append,
      List.append_assoc]
  rw [whole, List.drop_left]

theorem mem_of_mem_dropReturn {line : List Char} {c : Char}
    (h : c ∈ dropReturn line) : c ∈ line := by
  rw [dropReturn] at h
  split at h
  · exact List.dropLast_subset _ h
  · exact h

/-- The carriage return at the end of a line belongs to the end of the line. -/
theorem encode_line (line rest : List Char) :
    ∃ back, encode (line ++ '\n' :: rest) = encode (dropReturn line) ++ back ∧
      ([lineFeed] <+: back ∧
        (dropReturn line).getLast? ≠ some '\r' ∨
          [carriageReturn, lineFeed] <+: back) := by
  by_cases returned : line.getLast? = some '\r'
  · obtain ⟨front, rfl⟩ := List.getLast?_eq_some_iff.1 returned
    refine ⟨carriageReturn :: lineFeed :: encode rest, ?_,
      .inr ⟨encode rest, rfl⟩⟩
    rw [dropReturn, if_pos returned, List.dropLast_concat, encode_append,
      encode_append, encode_feed, List.append_assoc]
    rfl
  · refine ⟨lineFeed :: encode rest, ?_, .inl ⟨⟨encode rest, rfl⟩, ?_⟩⟩
    · rw [dropReturn, if_neg returned, encode_append, encode_feed]
    · rwa [dropReturn, if_neg returned]

/-- **What is shown under a number is the line with that number.** -/
theorem isLine_of_shown {k : Nat} {line : String}
    (shown : (shownLines text)[k]? = some line) :
    ∃ start, IsLine text (k + 1) start line := by
  obtain ⟨lines, tail, cut⟩ := Cut.exists text.toList
  rw [cut.shown] at shown
  by_cases early : k < lines.length
  · rw [List.getElem?_append_left (by simpa using early), List.getElem?_map,
      List.getElem?_eq_getElem early, Option.map_some, Option.some_inj] at shown
    have rest : lines.drop k = lines[k] :: lines.drop (k + 1) :=
      List.drop_eq_getElem_cons early
    obtain ⟨back, stands, ends⟩ :=
      encode_line lines[k] (ended (lines.drop (k + 1)) ++ tail)
    refine ⟨_, k.succ_pos, cut.start (Nat.le_of_lt early), ⟨back, ?_, ?_⟩, ?_⟩
    · rw [Nat.add_sub_cancel, cut.drop_bytes, rest, ended_cons,
        List.append_assoc, List.cons_append, stands, ← shown, bytes_ofList]
    · rw [← shown, String.toList_ofList]
      exact .inr ends
    · rw [← shown, bytes_ofList]
      exact lineFeed_not_mem_encode fun member => cut.oneLine _
        (List.getElem_mem early) (mem_of_mem_dropReturn member)
  · rw [List.getElem?_append_right (by simpa using early), List.length_map]
      at shown
    by_cases nothing : tail = []
    · simp [nothing] at shown
    · rw [if_neg nothing, List.getElem?_singleton] at shown
      split at shown
      · next last =>
        have all : k = lines.length := by omega
        rw [Option.some_inj] at shown
        refine ⟨_, k.succ_pos, cut.start (Nat.le_of_eq all),
          ⟨[], ?_, .inl ⟨rfl, ?_⟩⟩, ?_⟩
        · rw [Nat.add_sub_cancel, cut.drop_bytes, all, List.drop_length,
            ← shown, bytes_ofList, List.append_nil]
          rfl
        · intro empty
          apply nothing
          rw [← String.toList_ofList (l := tail), shown, empty]
          rfl
        · rw [← shown, bytes_ofList]
          exact lineFeed_not_mem_encode cut.tail_oneLine
      · cases shown

/-- The last line of the table is that of the offsets from its start on. -/
theorem Cut.lineAt_last (cut : Cut text.toList lines tail) {offset : Nat}
    (inside : offset ≤ text.utf8ByteSize) :
    lineAt text offset ≤ lines.length + 1 ∧
      (lineAt text offset = lines.length + 1 ↔
        (encode (ended lines)).length ≤ offset) := by
  obtain ⟨start, found, upTo, last, -⟩ := lineStart_of_offset text inside
  have positive : 0 < lineAt text offset :=
    Nat.lt_of_lt_of_le Nat.zero_lt_one (Nat.le_add_right _ _)
  have ends := cut.start (Nat.le_refl lines.length)
  rw [List.take_length] at ends
  obtain ⟨bound, here⟩ := List.getElem?_eq_some_iff.1 found
  obtain ⟨top, there⟩ := List.getElem?_eq_some_iff.1 ends
  have inTable : lineAt text offset - 1 < lines.length + 1 := by
    rwa [cut.starts, List.length_map, List.length_range] at bound
  refine ⟨by omega, ?_, ?_⟩
  · intro isLast
    have index : lineAt text offset - 1 = lines.length := by omega
    rw [index, ends, Option.some_inj] at found
    omega
  · intro behind
    have latest := last _ (List.mem_of_getElem? ends) behind
    -- The table ascends, so an earlier entry would lie in front of the last
    -- one.
    by_contra earlier
    have less := List.pairwise_iff_getElem.1
      (lineStarts_ascending text) _ _ bound top (by omega)
    omega

/-- **The line of an offset is shown, unless the offset is the end of a text
with nothing behind its last line feed.** -/
theorem line_is_shown_iff {offset : Nat} (inside : offset ≤ text.utf8ByteSize) :
    lineAt text offset ≤ (shownLines text).length ↔
      ¬(offset = text.utf8ByteSize ∧ EndsBlank text.toList) := by
  obtain ⟨lines, tail, cut⟩ := Cut.exists text.toList
  obtain ⟨upTo, isLast⟩ := cut.lineAt_last inside
  have size := cut.size
  rw [cut.shown, List.length_append, List.length_map, cut.endsBlank_iff]
  by_cases nothing : tail = []
  · have all : text.utf8ByteSize = (encode (ended lines)).length := by
      rw [size, nothing]
      rfl
    rw [if_pos nothing, List.length_nil]
    constructor
    · intro early both
      have last := isLast.2 (by omega)
      omega
    · intro differ
      by_contra beyond
      exact differ ⟨by have behind := isLast.1 (by omega); omega, nothing⟩
  · rw [if_neg nothing, List.length_singleton]
    exact iff_of_true upTo fun both => nothing both.2

/-- At most one line of the table is not shown. -/
theorem lineAt_le_shown {offset : Nat} (inside : offset ≤ text.utf8ByteSize) :
    lineAt text offset ≤ (shownLines text).length + 1 := by
  obtain ⟨lines, tail, cut⟩ := Cut.exists text.toList
  have upTo := (cut.lineAt_last inside).1
  rw [cut.shown, List.length_append, List.length_map]
  omega

end Shown

end NullGuard.Text
