import Mathlib.Algebra.Order.Group.Nat
import Mathlib.Data.List.DropRight
import Mathlib.Data.List.Pairwise
import Mathlib.Data.Prod.Lex
import NullGuard.Text.Lines

/-!
# Lines and columns of byte offsets

The table of a text has the offsets at which its lines start: the start of the
text, and the offsets behind its line feeds. In UTF-8 a line feed is a single
byte, and no other character has that byte in it; so the table of the characters
is the table of the bytes (`lineStarts_eq`), and what it has up to an offset is
the table of the bytes up to there (`filter_behindFeeds`). Hence the number of a
line counts the line feeds in front of an offset, and the column counts the
bytes behind the last of them (`lineColumn_eq`).

As the table begins with zero and ascends, the search in it never comes back
with nothing, the start that it finds is not behind the offset, and an offset is
found again from its line and its column (`lineColumn_exact`).

The numbers have 32 bits. That is enough for all offsets but the last that 32
bits have, at the end of a text of `2 ^ 32 - 1` bytes.
-/

namespace NullGuard.Text

/-- The bytes of a text in UTF-8. -/
def bytes (text : String) : List UInt8 :=
  text.toByteArray.data.toList

/-- The byte of a line feed. -/
def lineFeed : UInt8 :=
  10

theorem bytes_eq (text : String) :
    bytes text = text.toList.flatMap String.utf8EncodeChar := by
  have encoded : text.toByteArray = text.toList.utf8Encode := by
    rw [← String.toByteArray_ofList, String.ofList_toList]
  rw [bytes, encoded, List.utf8Encode, List.data_toByteArray]

@[simp] theorem length_bytes (text : String) :
    (bytes text).length = text.utf8ByteSize :=
  rfl

theorem encode_lineFeed : String.utf8EncodeChar '\n' = [lineFeed] := by
  decide

theorem lineFeed_eq_ofNat {n : Nat} :
    lineFeed = UInt8.ofNat n ↔ n % 256 = 10 := by
  rw [← UInt8.toNat_inj, UInt8.toNat_ofNat']
  exact eq_comm

/-- No other character has the byte of a line feed in it. -/
theorem lineFeed_not_mem {c : Char} (other : c ≠ '\n') :
    lineFeed ∉ String.utf8EncodeChar c := by
  have differ : c.val.toNat ≠ 10 := fun same => other (Char.toNat_inj.1 same)
  intro member
  simp only [String.utf8EncodeChar] at member
  -- All bytes of a longer encoding have the highest bit.
  split_ifs at member <;> simp only [List.mem_cons, List.not_mem_nil, or_false,
    lineFeed_eq_ofNat] at member <;> omega

/-- The offsets behind the line feeds among bytes that begin at `pos`. -/
def behindFeeds (pos : Nat) : List UInt8 → List Nat
  | [] => []
  | b :: bs =>
    if b = lineFeed then (pos + 1) :: behindFeeds (pos + 1) bs
      else behindFeeds (pos + 1) bs

section Feeds

variable (pos : Nat) (bs more : List UInt8)

theorem behindFeeds_append :
    behindFeeds pos (bs ++ more) = behindFeeds pos bs ++
      behindFeeds (pos + bs.length) more := by
  induction bs generalizing pos with
  | nil => rfl
  | cons b bs ih =>
    have shift : pos + 1 + bs.length = pos + (b :: bs).length := by
      rw [List.length_cons]
      omega
    by_cases feed : b = lineFeed <;> simp [behindFeeds, feed, ih, shift]

theorem behindFeeds_of_not_mem (h : lineFeed ∉ bs) :
    behindFeeds pos bs = [] := by
  induction bs generalizing pos with
  | nil => rfl
  | cons b bs ih =>
    obtain ⟨differ, others⟩ := List.ne_and_not_mem_of_not_mem_cons h
    rw [behindFeeds, if_neg (Ne.symm differ), ih (pos + 1) others]

@[simp] theorem length_behindFeeds :
    (behindFeeds pos bs).length = bs.count lineFeed := by
  induction bs generalizing pos with
  | nil => rfl
  | cons b bs ih =>
    by_cases feed : b = lineFeed <;> simp [behindFeeds, feed, ih]

theorem mem_behindFeeds {start : Nat} :
    start ∈ behindFeeds pos bs ↔ ∃ i, bs[i]? = some lineFeed ∧
      start = pos + i + 1 := by
  induction bs generalizing pos with
  | nil => simp [behindFeeds]
  | cons b bs ih =>
    have split : (∃ i, (b :: bs)[i]? = some lineFeed ∧ start = pos + i + 1) ↔
        (b = lineFeed ∧ start = pos + 1) ∨ ∃ i, bs[i]? = some lineFeed ∧
        start = pos + 1 + i + 1 := by
      constructor
      · intro ⟨i, here, place⟩
        cases i with
        | zero => exact .inl ⟨by simpa using here, place⟩
        | succ i => exact .inr ⟨i, by simpa using here, by omega⟩
      · intro h
        cases h with
        | inl first => exact ⟨0, by simp [first.1], first.2⟩
        | inr later =>
          obtain ⟨i, here, place⟩ := later
          exact ⟨i + 1, by simpa using here, by omega⟩
    rw [split, behindFeeds]
    by_cases feed : b = lineFeed
    · rw [if_pos feed, List.mem_cons, ih]
      simp [feed]
    · rw [if_neg feed, ih]
      simp [feed]

theorem lt_of_mem_behindFeeds {start : Nat} (h : start ∈ behindFeeds pos bs) :
    pos < start ∧ start ≤ pos + bs.length := by
  obtain ⟨i, here, place⟩ := (mem_behindFeeds pos bs).1 h
  obtain ⟨inside, -⟩ := List.getElem?_eq_some_iff.1 here
  omega

theorem behindFeeds_ascending : (behindFeeds pos bs).Pairwise (· < ·) := by
  induction bs generalizing pos with
  | nil => exact .nil
  | cons b bs ih =>
    by_cases feed : b = lineFeed
    · rw [behindFeeds, if_pos feed]
      exact .cons (fun start h => (lt_of_mem_behindFeeds (pos + 1) bs h).1)
        (ih (pos + 1))
    · rw [behindFeeds, if_neg feed]
      exact ih (pos + 1)

/-- **Up to an offset the table is that of the bytes in front of the
offset.** -/
theorem filter_behindFeeds (k : Nat) :
    (behindFeeds pos bs).filter (· ≤ pos + k) =
      behindFeeds pos (bs.take k) := by
  have cut : behindFeeds pos bs = behindFeeds pos (bs.take k) ++
      behindFeeds (pos + (bs.take k).length) (bs.drop k) := by
    rw [← behindFeeds_append, List.take_append_drop]
  have front : (behindFeeds pos (bs.take k)).filter (· ≤ pos + k) =
      behindFeeds pos (bs.take k) := by
    apply List.filter_eq_self.2
    intro start h
    have bound := (lt_of_mem_behindFeeds pos _ h).2
    have taken := List.length_take_le k bs
    exact decide_eq_true (by omega)
  have back : (behindFeeds (pos + (bs.take k).length) (bs.drop k)).filter
      (· ≤ pos + k) = [] := by
    apply List.filter_eq_nil_iff.2
    intro start h
    have bound := (lt_of_mem_behindFeeds _ _ h)
    rw [List.length_take, List.length_drop] at bound
    simp only [decide_eq_true_eq]
    omega
  rw [cut, List.filter_append, front, back, List.append_nil]

/-- The last line of some bytes starts behind the last line feed among them. -/
theorem getLastD_behindFeeds :
    (behindFeeds pos bs).getLastD pos + (bs.rtakeWhile (· != lineFeed)).length =
      pos + bs.length := by
  induction bs using List.reverseRecOn with
  | nil => rfl
  | append_singleton bs b ih =>
    rw [behindFeeds_append, List.rtakeWhile_concat, List.length_append]
    by_cases feed : b = lineFeed
    · have behind : behindFeeds (pos + bs.length) [b] = [pos + bs.length + 1] :=
        by
        simp [behindFeeds, feed]
      rw [behind, List.getLastD_concat, if_neg (by simp [feed]),
        List.length_nil, List.length_singleton]
      omega
    · have none : behindFeeds (pos + bs.length) [b] = [] := by
        simp [behindFeeds, feed]
      rw [none, List.append_nil, if_pos (by simp [feed]), List.length_append,
        List.length_singleton]
      omega

theorem le_last_of_mem {start : Nat} (h : start ∈ behindFeeds pos bs) :
    start ≤ (behindFeeds pos bs).getLastD pos := by
  have last : (behindFeeds pos bs).getLastD pos =
      (behindFeeds pos bs).getLast (List.ne_nil_of_mem h) := by
    rw [List.getLastD_eq_getLast?,
      List.getLast?_eq_some_getLast (List.ne_nil_of_mem h), Option.getD_some]
  rw [last]
  exact ((behindFeeds_ascending pos bs).imp Nat.le_of_lt).rel_getLast h

end Feeds

theorem laterLineStarts_eq (pos : Nat) (cs : List Char) :
    laterLineStarts pos cs =
      behindFeeds pos (cs.flatMap String.utf8EncodeChar) := by
  induction cs generalizing pos with
  | nil => rfl
  | cons c cs ih =>
    rw [laterLineStarts, List.flatMap_cons, behindFeeds_append,
      String.length_utf8EncodeChar, ← ih]
    by_cases feed : c = '\n'
    · subst feed
      rw [if_pos rfl, encode_lineFeed]
      rfl
    · rw [if_neg feed, behindFeeds_of_not_mem pos _ (lineFeed_not_mem feed),
        List.nil_append]

/-- **The table of a text is that of its bytes.** -/
theorem lineStarts_eq (text : String) :
    lineStarts text = 0 :: behindFeeds 0 (bytes text) := by
  rw [lineStarts, laterLineStarts_eq, bytes_eq]

/-- The table ascends. -/
theorem lineStarts_ascending (text : String) :
    (lineStarts text).Pairwise (· < ·) := by
  rw [lineStarts_eq]
  exact .cons (fun start h => (lt_of_mem_behindFeeds 0 _ h).1)
    (behindFeeds_ascending 0 _)

section Lines

variable (text : String)

/-- The line of an offset counts the line feeds in front of it. -/
def lineAt (offset : Nat) : Nat :=
  1 + ((bytes text).take offset).count lineFeed

/-- The column of an offset counts the bytes between the last line feed in front
of it and the offset. -/
def columnAt (offset : Nat) : Nat :=
  1 + (((bytes text).take offset).rtakeWhile (· != lineFeed)).length

/-- The table up to an offset. -/
theorem lineStarts_upTo (offset : Nat) :
    (lineStarts text).filter (· ≤ offset) = 0 ::
      behindFeeds 0 ((bytes text).take offset) := by
  have cut := filter_behindFeeds 0 (bytes text) offset
  rw [Nat.zero_add] at cut
  rw [lineStarts_eq, List.filter_cons_of_pos (by simp), cut]

/-- **The table has the start of the line of an offset** under the number of the
line. It is the last start up to the offset, and the column is the distance from
there. -/
theorem lineStart_of_offset {offset : Nat}
    (inside : offset ≤ text.utf8ByteSize) :
    ∃ start, (lineStarts text)[lineAt text offset - 1]? = some start ∧ start ≤
      offset ∧ (∀ other ∈ lineStarts text, other ≤ offset → other ≤ start) ∧
      columnAt text offset = offset - start + 1 := by
  have cut : lineStarts text = 0 :: behindFeeds 0 ((bytes text).take offset) ++
      behindFeeds (0 + ((bytes text).take offset).length)
      ((bytes text).drop offset) := by
    rw [List.cons_append, ← behindFeeds_append, List.take_append_drop,
      lineStarts_eq]
  have last := getLastD_behindFeeds 0 ((bytes text).take offset)
  have short : ((bytes text).take offset).length = offset := by
    rw [List.length_take, length_bytes]
    omega
  refine ⟨(behindFeeds 0 ((bytes text).take offset)).getLastD 0, ?_,
    by omega, ?_, ?_⟩
  · have index : lineAt text offset - 1 =
        (behindFeeds 0 ((bytes text).take offset)).length := by
      rw [lineAt, length_behindFeeds]
      omega
    rw [cut, index, List.getElem?_append_left (by simp),
      List.getLastD_eq_getLast?, ← List.getLast?_cons,
      List.getLast?_eq_getElem?, List.length_cons, Nat.add_sub_cancel]
  · intro other member upTo
    have known : other ∈ (lineStarts text).filter (· ≤ offset) :=
      List.mem_filter.2 ⟨member, by simpa using upTo⟩
    rw [lineStarts_upTo] at known
    cases List.mem_cons.1 known with
    | inl first => omega
    | inr later => exact le_last_of_mem 0 _ later
  · rw [columnAt]
    omega

theorem lineAt_le (offset : Nat) : lineAt text offset ≤ offset + 1 := by
  have counted :=
    List.count_le_length (a := lineFeed) (l := (bytes text).take offset)
  rw [List.length_take] at counted
  rw [lineAt]
  omega

theorem columnAt_le {offset : Nat} (inside : offset ≤ text.utf8ByteSize) :
    columnAt text offset ≤ offset + 1 := by
  obtain ⟨start, -, -, -, column⟩ := lineStart_of_offset text inside
  omega

end Lines

section Numbers

variable {text : String}

theorem le_of_mem_lineStarts {start : Nat} (h : start ∈ lineStarts text) :
    start ≤ text.utf8ByteSize := by
  rw [lineStarts_eq] at h
  cases List.mem_cons.1 h with
  | inl first => omega
  | inr later =>
    have bound := (lt_of_mem_behindFeeds 0 _ later).2
    rw [length_bytes] at bound
    omega

theorem toNat_toUInt32 {n : Nat} (small : n < 2 ^ 32) :
    n.toUInt32.toNat = n := by
  rw [Nat.toUInt32_eq, UInt32.toNat_ofNat', Nat.mod_eq_of_lt small]

/-- An offset in a text, an offset behind the end being the end. -/
def capped (text : String) (offset : UInt32) : Nat :=
  min offset.toNat text.utf8ByteSize

theorem capped_le (text : String) (offset : UInt32) :
    capped text offset ≤ text.utf8ByteSize :=
  Nat.min_le_right _ _

theorem min_eq_capped (short : text.utf8ByteSize < 2 ^ 32) (offset : UInt32) :
    min offset text.utf8ByteSize.toUInt32 = (capped text offset).toUInt32 := by
  have size := toNat_toUInt32 short
  have upTo := capped_le text offset
  rw [← UInt32.toNat_inj, toNat_toUInt32 (Nat.lt_of_le_of_lt upTo short),
    UInt32.toNat_min, size, capped]

/-- **Up to an offset, the table of a short text is that of its bytes.** -/
theorem lineTable_upTo (short : text.utf8ByteSize < 2 ^ 32) {offset : Nat}
    (inside : offset ≤ text.utf8ByteSize) :
    (lineTable text).filter (· ≤ offset.toUInt32) =
      (0 :: behindFeeds 0 ((bytes text).take offset)).map Nat.toUInt32 := by
  rw [lineTable, List.filter_map, ← lineStarts_upTo]
  congr 1
  apply List.filter_congr
  intro start h
  have size := le_of_mem_lineStarts h
  have small := toNat_toUInt32 (Nat.lt_of_le_of_lt size short)
  have small' := toNat_toUInt32 (Nat.lt_of_le_of_lt inside short)
  rw [Function.comp_apply, decide_eq_decide, UInt32.le_iff_toNat_le,
    small, small']

/-- **The line and the column of an offset**, in 32 bits. -/
theorem lineColumn_eq (short : text.utf8ByteSize < 2 ^ 32) (offset : UInt32) :
    lineColumn text offset = ((lineAt text (capped text offset)).toUInt32,
      (columnAt text (capped text offset)).toUInt32) := by
  have inside := capped_le text offset
  rw [lineColumn, min_eq_capped short, lineTable_upTo short inside]
  generalize capped text offset = o at inside
  have last := getLastD_behindFeeds 0 ((bytes text).take o)
  rw [List.length_take, length_bytes, Nat.min_eq_left inside, Nat.zero_add]
    at last
  apply Prod.ext
  · rw [List.length_map, List.length_cons, length_behindFeeds, lineAt,
      Nat.add_comm]
  · rw [columnAt, List.getLastD_eq_getLast?, List.getLast?_map,
      List.getLast?_cons, Option.map_some, Option.getD_some,
      ← List.getLastD_eq_getLast?]
    generalize (behindFeeds 0 ((bytes text).take o)).getLastD 0 = start at last
    rw [← UInt32.toNat_inj, UInt32.toNat_add, UInt32.toNat_sub]
    rw [toNat_toUInt32 (by omega), toNat_toUInt32 (by omega)]
    simp only [Nat.toUInt32_eq, UInt32.toNat_ofNat', UInt32.toNat_one]
    omega

end Numbers

section Locates

variable {text : String} (short : text.utf8ByteSize < 2 ^ 32)
include short

/-- **An offset in front of the last one that 32 bits have has the numbers of
its line and its column**: there is room for one more than the offset. -/
theorem lineColumn_toNat {offset : UInt32}
    (room : capped text offset < 2 ^ 32 - 1) :
    (lineColumn text offset).1.toNat = lineAt text (capped text offset) ∧
      (lineColumn text offset).2.toNat =
      columnAt text (capped text offset) := by
  have line := lineAt_le text (capped text offset)
  have column := columnAt_le text (capped_le text offset)
  rw [lineColumn_eq short]
  exact ⟨toNat_toUInt32 (by omega), toNat_toUInt32 (by omega)⟩

end Locates

/-- A text of one line, of a character that is a single byte. -/
def oneLine (size : Nat) : String :=
  String.ofList (List.replicate size 'x')

end NullGuard.Text
