import Mathlib.Data.List.Forall2
import NullGuard.Proofs.Matching

/-!
# A derived pattern means its sample message

A sample message is cut at the marks for the object, found from left to right,
and what remains is cut at the marks for the property (`SplitsAt`). The pattern
that is derived from the sample covers a message exactly if some contiguous part
of it consists of the remaining parts in order, with a text that is not empty
and stays on one line between any two of them (`Joins`).

The pattern is had by replacing escaped marks in the escaped sample. That could
go wrong where an occurrence of a mark starts inside of what stands for one
letter, and it does not: a mark starts with a dollar sign, which is escaped, so
that behind the first character of anything that is escaped there is no room for
a backslash with a dollar sign behind it (`substitute_sources`). As the sources
of the pieces are a prefix code (`source_prefix_source`), the escaped text has
an escaped mark where the text has a mark, and what results is read back as the
pieces it was made of (`readPieces_sources`).

The cut at the marks for the property may be made in the pieces between the
gaps, as a mark has no gap in it (`substitute_beside`).
-/

namespace NullGuard.Access

section Occurrences

variable {α : Type} {a : α} {mark back : List α}

/-- A list that begins with a mark has it in front of anything that the mark
does not have. -/
theorem prefix_before (front : List α) (foreign : a ∉ mark)
    (h : mark <+: front ++ a :: back) : mark <+: front := by
  rcases Nat.lt_or_ge front.length mark.length with longer | fits
  · have upTo : front ++ [a] <+: front ++ a :: back :=
      ⟨back, List.append_cons .. |>.symm⟩
    have within : front ++ [a] <+: mark :=
      List.prefix_of_prefix_length_le upTo h
        (by rw [List.length_append]; exact longer)
    exact absurd (within.subset (by simp)) foreign
  · exact List.prefix_of_prefix_length_le h (List.prefix_append ..) fits

/-- Induction from the front of a list: it begins with an occurrence of the
mark, or with something that starts none. -/
theorem mark_induction {motive : List α → Prop} (nonempty : mark ≠ [])
    (nil : motive []) (here : ∀ rest, motive rest → motive (mark ++ rest))
    (skip : ∀ a text, ¬ mark <+: a :: text → motive text → motive (a :: text))
    (text : List α) : motive text := by
  induction n : text.length using Nat.strongRecOn generalizing text with
  | ind n ih =>
    by_cases starts : mark <+: text
    · obtain ⟨rest, rfl⟩ := starts
      refine here rest (ih _ ?_ rest rfl)
      rw [← n, List.length_append]
      exact Nat.lt_add_of_pos_left (List.length_pos_iff.2 nonempty)
    · cases text with
      | nil => exact nil
      | cons a text =>
        exact skip a text starts
          (ih _ (by rw [← n]; exact Nat.lt_succ_self _) text rfl)

end Occurrences

/-- A text is cut into parts at the occurrences of a mark, found from left to
right. -/
inductive SplitsAt (mark : List Char) :
    List Char → List (List Char) → Prop where
  /-- A text without the mark is a single part. -/
  | last {text : List Char} (absent : ¬ mark <:+: text) :
      SplitsAt mark text [text]
  /-- The first part ends where the mark is complete for the first time. -/
  | cut {front rest : List Char} {parts : List (List Char)}
      (first : ¬ mark <:+: (front ++ mark).dropLast)
      (more : SplitsAt mark rest parts) :
      SplitsAt mark (front ++ mark ++ rest) (front :: parts)

/-- Parts in order, with a text that is not empty and stays on one line between
any two of them. -/
inductive Joins : List (List Char) → List Char → Prop where
  | last (part : List Char) : Joins [part] part
  | next (part filling : List Char) {parts : List (List Char)}
      {text : List Char} (filled : filling ≠ []) (oneLine : '\n' ∉ filling)
      (more : Joins parts text) :
      Joins (part :: parts) (part ++ filling ++ text)

/-- Parts as the pieces of a pattern. -/
def gapped : List (List Char) → List Piece
  | [] => []
  | [part] => part.map .letter
  | part :: parts => part.map .letter ++ .gap :: gapped parts

theorem gapped_cons (part : List Char) {parts : List (List Char)}
    (more : parts ≠ []) :
    gapped (part :: parts) = part.map .letter ++ .gap :: gapped parts := by
  cases parts with
  | nil => exact absurd rfl more
  | cons _ _ => rfl

theorem gapped_append {front back : List (List Char)} (hf : front ≠ [])
    (hb : back ≠ []) :
    gapped (front ++ back) = gapped front ++ .gap :: gapped back := by
  induction front with
  | nil => exact absurd rfl hf
  | cons part front ih =>
    by_cases last : front = []
    · rw [last]
      exact gapped_cons part hb
    · rw [List.cons_append, gapped_cons part (by simp [last]),
        gapped_cons part last, ih last, List.append_assoc]
      rfl

/-- What fits the pieces of some parts is what joins the parts. -/
theorem fits_gapped {parts : List (List Char)} (nonempty : parts ≠ [])
    (text : List Char) :
    Fits (gapped parts) text ↔ Joins parts text := by
  induction parts generalizing text with
  | nil => exact absurd rfl nonempty
  | cons part parts ih =>
    by_cases last : parts = []
    · have alone := fits_letters_append part [] text
      rw [List.append_nil] at alone
      rw [last, gapped, alone]
      constructor
      · rintro ⟨rest, rfl, fits⟩
        cases fits
        rw [List.append_nil]
        exact .last part
      · intro joins
        cases joins with
        | last => exact ⟨[], (List.append_nil _).symm, .nil⟩
        | next _ _ _ _ more => cases more
    · rw [gapped_cons part last, fits_letters_append]
      constructor
      · rintro ⟨rest, rfl, fits⟩
        cases fits with
        | gap filling filled oneLine fits =>
          rw [← List.append_assoc]
          exact .next part filling filled oneLine ((ih last _).1 fits)
      · intro joins
        cases joins with
        | last => exact absurd rfl last
        | next _ filling filled oneLine more =>
          exact ⟨_, List.append_assoc ..,
            .gap filling filled oneLine ((ih last _).2 more)⟩

section Cuts

variable {mark text : List Char} {parts : List (List Char)}

/-- A text is cut into at least one part. -/
theorem SplitsAt.ne_nil (h : SplitsAt mark text parts) : parts ≠ [] := by
  cases h <;> simp

/-- Something in front of a text without an occurrence at its start makes the
first part longer. -/
theorem SplitsAt.cons {c : Char} (nonempty : mark ≠ [])
    (notHere : ¬ mark <+: c :: text) (h : SplitsAt mark text parts) :
    ∃ parts, SplitsAt mark (c :: text) parts := by
  cases h with
  | last absent =>
    exact ⟨_,
      .last (by rw [List.infix_cons_iff, not_or]; exact ⟨notHere, absent⟩)⟩
  | cut first more =>
    rename_i front rest parts
    have later : ¬ mark <:+: (c :: front ++ mark).dropLast := by
      rw [List.cons_append, List.dropLast_cons_of_ne_nil (by simp [nonempty]),
        List.infix_cons_iff, not_or]
      refine ⟨fun here => notHere (here.trans ?_), first⟩
      exact List.cons_prefix_cons.2
        ⟨rfl, (List.dropLast_prefix _).trans (List.prefix_append ..)⟩
    exact ⟨(c :: front) :: parts, .cut later more⟩

/-- Every text can be cut at a mark. -/
theorem SplitsAt.exists (nonempty : mark ≠ []) (text : List Char) :
    ∃ parts, SplitsAt mark text parts := by
  induction text using mark_induction nonempty with
  | nil => exact ⟨_, .last (mt List.infix_nil.1 nonempty)⟩
  | here rest ih =>
    have first : ¬ mark <:+: ([] ++ mark).dropLast := by
      intro occurs
      have shorter := occurs.length_le
      have positive := List.length_pos_iff.2 nonempty
      rw [List.nil_append, List.length_dropLast] at shorter
      omega
    obtain ⟨parts, cut⟩ := ih
    exact ⟨[] :: parts, .cut first cut⟩
  | skip c text notHere ih =>
    obtain ⟨parts, cut⟩ := ih
    exact cut.cons nonempty notHere

/-- The first occurrence of a mark does not end later than another one. -/
theorem first_le {front front' rest rest' : List Char}
    (first : ¬ mark <:+: (front ++ mark).dropLast)
    (same : front ++ mark ++ rest = front' ++ mark ++ rest') :
    front.length ≤ front'.length := by
  refine Nat.le_of_not_lt fun longer => ?_
  have within : front' ++ mark <+: (front ++ mark).dropLast := by
    have upTo : front' ++ mark <+: front ++ mark ++ rest :=
      same ▸ List.prefix_append ..
    refine List.prefix_of_prefix_length_le upTo ?_ ?_
    · exact (List.dropLast_prefix _).trans (List.prefix_append ..)
    · rw [List.length_dropLast, List.length_append, List.length_append]
      omega
  exact first ((List.suffix_append ..).isInfix.trans within.isInfix)

/-- A text is cut at a mark in one way only. -/
theorem SplitsAt.unique {parts' : List (List Char)}
    (h : SplitsAt mark text parts) (h' : SplitsAt mark text parts') :
    parts = parts' := by
  induction h generalizing parts' with
  | last absent =>
    cases h' with
    | last => rfl
    | cut => exact absurd ⟨_, _, rfl⟩ absent
  | cut first more ih =>
    generalize whole : _ ++ mark ++ _ = text at h'
    cases h' with
    | last absent => exact absurd ⟨_, _, whole⟩ absent
    | cut first' more' =>
      have sameLength :=
        Nat.le_antisymm (first_le first whole) (first_le first' whole.symm)
      rw [List.append_assoc, List.append_assoc] at whole
      obtain ⟨rfl, behind⟩ := List.append_inj whole sameLength
      rw [List.append_cancel_left behind] at ih
      rw [ih more']

end Cuts

section Substitute

variable {α : Type} [BEq α] [LawfulBEq α] {a : α}
  {mark replacement text front : List α}

/-- An occurrence at the start is replaced. -/
theorem substitute_mark (nonempty : mark ≠ []) (rest : List α) :
    substitute mark replacement (mark ++ rest) = replacement ++
      substitute mark replacement rest := by
  cases mark with
  | nil => exact absurd rfl nonempty
  | cons b mark =>
    have here : (b :: mark).isPrefixOf (b :: (mark ++ rest)) = true :=
      List.isPrefixOf_iff_prefix.2 (List.prefix_append (b :: mark) rest)
    rw [List.cons_append, substitute, if_pos here, List.length_cons,
      Nat.add_sub_cancel, List.drop_left]

/-- What no occurrence starts with is kept. -/
theorem substitute_skip (h : ¬ mark <+: a :: text) :
    substitute mark replacement (a :: text) = a ::
      substitute mark replacement text := by
  rw [substitute, if_neg (mt List.isPrefixOf_iff_prefix.1 h)]

/-- A list without the mark is kept. -/
theorem substitute_absent (absent : ¬ mark <:+: text) :
    substitute mark replacement text = text := by
  induction text with
  | nil => rw [substitute]
  | cons a text ih =>
    rw [List.infix_cons_iff, not_or] at absent
    rw [substitute_skip absent.1, ih absent.2]

/-- The first occurrence is replaced, and then come the others. -/
theorem substitute_first (nonempty : mark ≠ [])
    (first : ¬ mark <:+: (front ++ mark).dropLast) (rest : List α) :
    substitute mark replacement (front ++ mark ++ rest) = front ++
      (replacement ++ substitute mark replacement rest) := by
  induction front with
  | nil => exact substitute_mark nonempty rest
  | cons a front ih =>
    rw [List.cons_append, List.dropLast_cons_of_ne_nil (by simp [nonempty]),
      List.infix_cons_iff, not_or] at first
    have notHere : ¬ mark <+: a :: (front ++ mark ++ rest) := by
      intro here
      refine first.1 (List.prefix_of_prefix_length_le here ?_ ?_)
      · exact List.cons_prefix_cons.2
          ⟨rfl, (List.dropLast_prefix _).trans (List.prefix_append ..)⟩
      · rw [List.length_cons, List.length_dropLast, List.length_append]
        omega
    rw [List.cons_append, List.cons_append, substitute_skip notHere, ih first.2]
    rfl

/-- What is no part of the mark separates the occurrences. -/
theorem substitute_beside (nonempty : mark ≠ []) (foreign : a ∉ mark)
    (front back : List α) :
    substitute mark replacement (front ++ a :: back) = substitute mark
      replacement front ++ a :: substitute mark replacement back := by
  induction front using mark_induction nonempty with
  | nil =>
    have notHere : ¬ mark <+: a :: back :=
      fun h => nonempty (List.prefix_nil.1 (prefix_before [] foreign h))
    rw [List.nil_append, substitute_skip notHere, substitute, List.nil_append]
  | here rest ih =>
    rw [List.append_assoc, substitute_mark nonempty, ih,
      substitute_mark nonempty, List.append_assoc]
  | skip b text notHere ih =>
    have notHere' : ¬ mark <+: b :: (text ++ a :: back) :=
      fun h => notHere (prefix_before (b :: text) foreign h)
    rw [List.cons_append, substitute_skip notHere', ih, substitute_skip notHere,
      List.cons_append]

end Substitute

theorem source_sign {c : Char} (sign : c ∈ patternSigns) :
    (Piece.letter c).source = ['\\', c] :=
  if_pos sign

theorem source_plain {c : Char} (plain : c ∉ patternSigns) :
    (Piece.letter c).source = [c] :=
  if_neg plain

/-- No plain letter is a sign. -/
theorem plain_ne {c d : Char} (plain : c ∉ patternSigns)
    (sign : d ∈ patternSigns) : c ≠ d :=
  fun same => plain (same ▸ sign)

/-- **The sources are a prefix code.** Two of them agree on what comes first
only if they are the same. -/
theorem source_prefix_source (p q : Piece) (xs ys : List Char) :
    p.source ++ xs <+: q.source ++ ys ↔ p = q ∧ xs <+: ys := by
  have dot : '.' ∈ patternSigns := by decide
  have backslash : '\\' ∈ patternSigns := by decide
  cases p with
  | gap =>
    cases q with
    | gap => simp [Piece.source]
    | letter d =>
      by_cases sign : d ∈ patternSigns
      · simp [Piece.source, sign]
      · simp [Piece.source, sign, (plain_ne sign dot).symm]
  | letter c =>
    cases q with
    | gap =>
      by_cases sign : c ∈ patternSigns
      · simp [Piece.source, sign]
      · simp [Piece.source, sign, plain_ne sign dot]
    | letter d =>
      by_cases sign : c ∈ patternSigns <;> by_cases sign' : d ∈ patternSigns
      · simp [Piece.source, sign, sign']
      · have differ : Piece.letter c ≠ .letter d :=
          fun same => sign' (Piece.letter.inj same ▸ sign)
        simp [Piece.source, sign, sign',
          (plain_ne sign' backslash).symm, differ]
      · simp [Piece.source, sign, sign', plain_ne sign backslash,
          plain_ne sign sign']
      · simp [Piece.source, sign, sign']

/-- A source has one character or two. -/
theorem source_short (p : Piece) :
    (∃ c, p.source = [c]) ∨ ∃ c d, p.source = [c, d] := by
  cases p with
  | gap => exact .inr ⟨_, _, rfl⟩
  | letter c =>
    by_cases sign : c ∈ patternSigns
    · exact .inr ⟨_, _, source_sign sign⟩
    · exact .inl ⟨_, source_plain sign⟩

theorem source_ne_nil (p : Piece) : p.source ≠ [] := by
  rcases source_short p with ⟨c, source⟩ | ⟨c, d, source⟩ <;> simp [source]

/-- One list of pieces begins another exactly if its source does. -/
theorem sources_prefix_sources (ps qs : List Piece) :
    ps.flatMap Piece.source <+: qs.flatMap Piece.source ↔ ps <+: qs := by
  induction ps generalizing qs with
  | nil => simp
  | cons p ps ih =>
    cases qs with
    | nil => simp [source_ne_nil]
    | cons q qs =>
      rw [List.flatMap_cons, List.flatMap_cons, source_prefix_source, ih,
        List.cons_prefix_cons]

/-- No source begins with a dollar sign. -/
theorem dollar_not_first (ps : List Piece) (rest : List Char) :
    ¬ '$' :: rest <+: ps.flatMap Piece.source := by
  have dollar : '$' ∈ patternSigns := by decide
  cases ps with
  | nil => simp
  | cons p ps =>
    rw [List.flatMap_cons]
    cases p with
    | gap => simp [Piece.source]
    | letter c =>
      by_cases sign : c ∈ patternSigns
      · simp [Piece.source, sign]
      · simp [Piece.source, sign, (plain_ne sign dollar).symm]

/-- **Replacing commutes with escaping.** A mark that starts with a dollar sign
occurs in a source only where a piece begins. -/
theorem substitute_sources {mark : List Piece} (ps : List Piece) :
    substitute ((.letter '$' :: mark).flatMap Piece.source) Piece.gap.source
      (ps.flatMap Piece.source) =
      (widen (.letter '$' :: mark) ps).flatMap Piece.source := by
  have opening : (Piece.letter '$' :: mark).flatMap Piece.source = '\\' ::
      '$' :: mark.flatMap Piece.source := by
    rw [List.flatMap_cons, source_sign (by decide)]
    rfl
  have nonempty : (Piece.letter '$' :: mark).flatMap Piece.source ≠ [] := by
    simp [opening]
  unfold widen
  induction ps using mark_induction (List.cons_ne_nil (Piece.letter '$') mark)
    with
  | nil => simp [substitute]
  | here rest ih =>
    rw [List.flatMap_append, substitute_mark nonempty, substitute_mark
      (by simp), ih, List.flatMap_append, List.flatMap_singleton]
  | skip p ps notHere ih =>
    -- What follows the first character of a source may be a backslash, but then
    -- no dollar sign comes behind it.
    have notInside : ∀ d, ¬ (Piece.letter '$' :: mark).flatMap Piece.source <+:
        d :: ps.flatMap Piece.source := by
      intro d inside
      rw [opening, List.cons_prefix_cons] at inside
      exact dollar_not_first ps _ inside.2
    have source_cons : ∀ qs, (p :: qs).flatMap Piece.source = p.source ++
        qs.flatMap Piece.source :=
      fun _ => List.flatMap_cons
    rw [substitute_skip notHere, source_cons, source_cons, ← ih]
    rw [← sources_prefix_sources, source_cons] at notHere
    rcases source_short p with ⟨c, source⟩ | ⟨c, d, source⟩
    · rw [source] at notHere ⊢
      exact substitute_skip notHere
    · rw [source] at notHere ⊢
      exact (substitute_skip notHere).trans
        (congrArg (c :: ·) (substitute_skip (notInside d)))

/-- A source is read as the pieces that it was made of. -/
theorem readPieces_sources (ps : List Piece) :
    readPieces? (ps.flatMap Piece.source) = some ps := by
  induction ps with
  | nil => simp [readPieces?]
  | cons p ps ih =>
    rw [List.flatMap_cons]
    cases p with
    | gap => simp [Piece.source, readPieces?, ih]
    | letter c =>
      by_cases sign : c ∈ patternSigns
      · simp [Piece.source, sign, readPieces?, ih]
      · have dot : c ≠ '.' := plain_ne sign (by decide)
        have backslash : c ≠ '\\' := plain_ne sign (by decide)
        rw [source_plain sign, List.singleton_append, readPieces?]
        · simp [sign, ih]
        · exact fun _ same _ => dot same
        · exact fun _ _ same _ => backslash same

/-- The source that is derived from a sample is that of the sample's pieces. -/
theorem derivedSource_eq (sample : String) :
    derivedSource sample = (piecesOf sample).flatMap Piece.source := by
  have escapes : ∀ text : String, escaped text.toList =
      (letters text).flatMap Piece.source := by
    intro text
    rw [escaped, letters, List.flatMap_map]
  have object : letters objectMark = .letter '$' :: (letters objectMark).tail :=
    by
    decide
  have property : letters propertyMark = .letter '$' ::
      (letters propertyMark).tail := by
    decide
  rw [derivedSource, piecesOf, escapes, escapes, escapes, object,
    substitute_sources, property, substitute_sources]

/-- The derived pattern, written as a regular expression, is the escaped sample
with gaps in place of the escaped marks. -/
theorem source_derive (absent : Absent) (sample : Absent → String) :
    (AccessPattern.derive absent sample).source =
      String.ofList (derivedSource (sample absent)) := by
  rw [derivedSource_eq]
  rfl

/-- The pattern can be derived by way of its source, which is always that of a
pattern. -/
theorem derive?_eq (absent : Absent) (sample : Absent → String) :
    AccessPattern.derive? absent sample =
      some (AccessPattern.derive absent sample) := by
  rw [AccessPattern.derive?, derivedSource_eq, readPieces_sources]
  rfl

/-- The letters of a mark occur among the letters of a text exactly if the mark
occurs in the text. -/
theorem occurs_letters (mark text : List Char) :
    mark.map Piece.letter <:+: text.map Piece.letter ↔ mark <:+: text := by
  have injective : Function.Injective (List.map Piece.letter) :=
    List.map_injective_iff.2 fun _ _ => Piece.letter.inj
  rw [List.infix_map_iff]
  constructor
  · rintro ⟨part, occurs, same⟩
    exact injective same ▸ occurs
  · exact fun occurs => ⟨mark, occurs, rfl⟩

/-- Widening the letters of a text leaves its parts with gaps between them. -/
theorem widen_letters {mark text : List Char} {parts : List (List Char)}
    (nonempty : mark ≠ []) (h : SplitsAt mark text parts) :
    widen (mark.map .letter) (text.map .letter) = gapped parts := by
  have nonempty' : mark.map Piece.letter ≠ [] := by simp [nonempty]
  induction h with
  | last absent => exact substitute_absent (mt (occurs_letters ..).1 absent)
  | cut first more ih =>
    rw [← occurs_letters, List.map_dropLast, List.map_append] at first
    rw [widen, List.map_append, List.map_append,
      substitute_first nonempty' first, gapped_cons _ more.ne_nil]
    exact congrArg (_ ++ .gap :: ·) ih

/-- Widening works on every part on its own, and what it leaves of all of them
has gaps between all of it. -/
theorem widen_gapped {mark : List Char} {parts : List (List Char)}
    {pieces : List (List (List Char))} (nonempty : mark ≠ [])
    (h : List.Forall₂ (SplitsAt mark) parts pieces) :
    widen (mark.map .letter) (gapped parts) = gapped pieces.flatten := by
  have nonempty' : mark.map Piece.letter ≠ [] := by simp [nonempty]
  have noGap : Piece.gap ∉ mark.map Piece.letter := by simp
  induction h with
  | nil => exact substitute_absent (mt List.infix_nil.1 nonempty')
  | cons cut cuts ih =>
    rename_i part partPieces parts pieces
    by_cases last : parts = []
    · subst last
      cases cuts
      rw [gapped, widen_letters nonempty cut, List.flatten_cons,
        List.flatten_nil, List.append_nil]
    · have more : pieces.flatten ≠ [] := by
        cases cuts with
        | nil => exact absurd rfl last
        | cons next _ => simp [next.ne_nil]
      rw [gapped_cons part last, widen, substitute_beside nonempty' noGap,
        List.flatten_cons, gapped_append cut.ne_nil more, ← ih,
        ← widen_letters nonempty cut]
      rfl

/-- Every list of parts can be cut further. -/
theorem cuts_exist {mark : List Char} (nonempty : mark ≠ [])
    (parts : List (List Char)) :
    ∃ pieces, List.Forall₂ (SplitsAt mark) parts pieces := by
  induction parts with
  | nil => exact ⟨[], .nil⟩
  | cons part parts ih =>
    obtain ⟨first, cut⟩ := SplitsAt.exists nonempty part
    obtain ⟨rest, cuts⟩ := ih
    exact ⟨first :: rest, .cons cut cuts⟩

/-- **A derived pattern means its sample message.** The derivation always
succeeds. What it gives matches a message exactly if a contiguous part of the
message is the sample with a text that is not empty and stays on one line in
place of each mark: of the marks for the object, found from left to right, and
then of those for the property in what remains. -/
theorem derived_means_sample (absent : Absent) (sample : Absent → String) :
    AccessPattern.derive? absent sample =
      some (AccessPattern.derive absent sample) ∧
      ∃ parts pieces, SplitsAt objectMark.toList (sample absent).toList parts ∧
        List.Forall₂ (SplitsAt propertyMark.toList) parts pieces ∧
      ∀ message, (AccessPattern.derive absent sample).matchesMessage message =
        true ↔ ∃ before part after, message.toList = before ++ part ++ after ∧
      Joins pieces.flatten part := by
  have objectSome : objectMark.toList ≠ [] := by decide
  have propertySome : propertyMark.toList ≠ [] := by decide
  obtain ⟨parts, object⟩ := SplitsAt.exists objectSome (sample absent).toList
  obtain ⟨pieces, property⟩ := cuts_exist propertySome parts
  have nonempty : pieces.flatten ≠ [] := by
    cases property with
    | nil => exact absurd rfl object.ne_nil
    | cons cut _ => simp [cut.ne_nil]
  have means : piecesOf (sample absent) = gapped pieces.flatten := by
    rw [piecesOf, letters, letters, letters, widen_letters objectSome object,
      widen_gapped propertySome property]
  refine ⟨derive?_eq absent sample, parts, pieces, object, property,
    fun message => ?_⟩
  have matches_iff : (AccessPattern.derive absent sample).matchesMessage
      message = covers (piecesOf (sample absent)) message.toList := rfl
  rw [matches_iff, means, covers_iff]
  simp only [fits_gapped nonempty]

/-- Where two marks share a dollar sign, it belongs to the one for the
object. -/
example : piecesOf "$property$object$" = letters "$property" ++ [.gap] := by
  decide +kernel

end NullGuard.Access
