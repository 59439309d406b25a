import NullGuard.Access.Absent

/-!
# Patterns of failure messages

A pattern is derived from a sample message by widening: the places that stand
for the object and for the property become gaps, and a gap holds any text that
is not empty and stays on one line. A pattern matches a message if it covers
some contiguous part of it.

The same pattern can be had by way of its source, a regular expression: the
sample is escaped, the marks are replaced in the escaped text, and what that
gives is read as pieces (`AccessPattern.derive?`).

Matching works from the last piece to the first and keeps, for every position of
the message, whether the pieces so far cover a part that starts there. Each
piece costs one pass over the message, however many gaps there are.

The loose pattern of an absent value needs no sample. It looks for the value's
word at the start of the message, at its end, or in front of the first
parenthesis, in any letter case.
-/

namespace NullGuard.Access

/-- A piece of a derived pattern. -/
inductive Piece where
  | letter (c : Char)
  | gap
deriving DecidableEq, Repr

/-- What stands for the object in a sample message. -/
def objectMark : String := "$object$"

/-- What stands for the property in a sample message. -/
def propertyMark : String := "$property$"

/-- A text as pieces that stand for themselves. -/
def letters (text : String) : List Piece :=
  text.toList.map Piece.letter

/-- A list with `replacement` in place of each occurrence of `mark`, found from
left to right. -/
def substitute {α : Type} [BEq α] (mark replacement : List α) : List α → List α
  | [] => []
  | a :: as =>
    if mark.isPrefixOf (a :: as) then replacement ++
      substitute mark replacement (as.drop (mark.length - 1))
    else a :: substitute mark replacement as
termination_by as => as.length
decreasing_by
  · simp only [List.length_drop, List.length_cons]
    omega
  · simp

/-- Pieces with a gap in place of each occurrence of `mark`. -/
def widen (mark : List Piece) (pieces : List Piece) : List Piece :=
  substitute mark [.gap] pieces

/-- The pieces of a sample message. -/
def piecesOf (sample : String) : List Piece :=
  widen (letters propertyMark) (widen (letters objectMark) (letters sample))

/-- The characters that mean something else than themselves in the source of a
pattern. -/
def patternSigns : List Char :=
  ['\\', '.', '+', '*', '?', '(', ')', '|', '[', ']', '\x7b', '\x7d', '^', '$',
    '#', '&', '-', '~']

/-- A piece in the source of a pattern. -/
def Piece.source : Piece → List Char
  | gap => ['.', '+']
  | letter c => if c ∈ patternSigns then ['\\', c] else [c]

/-- A text as the source of a pattern that matches nothing else. -/
def escaped (text : List Char) : List Char :=
  text.flatMap fun c => (Piece.letter c).source

/-- The source of the pattern that is derived from a sample message. The marks
are looked for in the escaped message, where they are escaped themselves. -/
def derivedSource (sample : String) : List Char :=
  let source := substitute (escaped objectMark.toList) Piece.gap.source
    (escaped sample.toList)
  substitute (escaped propertyMark.toList) Piece.gap.source source

/-- The pieces that the source of a pattern stands for. A dot with a plus sign
behind it is a gap; a sign stands for itself behind a backslash and nowhere
else. -/
def readPieces? : List Char → Option (List Piece)
  | [] => some []
  | '.' :: '+' :: rest => (readPieces? rest).map (.gap :: ·)
  | '\\' :: c :: rest =>
    if c ∈ patternSigns then (readPieces? rest).map (.letter c :: ·) else none
  | c :: rest =>
    if c ∈ patternSigns then none else (readPieces? rest).map (.letter c :: ·)

/-- Where a letter followed by something covers a part of a text, given for
every position where that something does. -/
def letterStarts (c : Char) : List Char → List Bool → List Bool
  | x :: xs, _ :: later =>
    (x == c && later.headD false) :: letterStarts c xs later
  | _, _ => [false]

/-- Where a gap followed by something covers a part of a text, given for every
position where that something does. -/
def gapStarts : List Char → List Bool → List Bool
  | x :: xs, _ :: later =>
    let behind := gapStarts xs later
    (x != '\n' && (later.headD false || behind.headD false)) :: behind
  | _, _ => [false]

/-- For every position of a text, its end included, whether the pieces cover a
part that starts there. -/
def coverStarts : List Piece → List Char → List Bool
  | [], text => List.replicate (text.length + 1) true
  | .letter c :: rest, text => letterStarts c text (coverStarts rest text)
  | .gap :: rest, text => gapStarts text (coverStarts rest text)

/-- Whether the pieces cover some contiguous part of a text. -/
def covers (pieces : List Piece) (text : List Char) : Bool :=
  (coverStarts pieces text).any id

/-- Whether a word occurs in a text with no opening parenthesis in front of
it. -/
def occursOutside (word : List Char) : List Char → Bool
  | [] => word.isPrefixOf []
  | c :: cs => word.isPrefixOf (c :: cs) || (c != '(' && occursOutside word cs)

/-- Whether a text mentions a word loosely. The word has lower-case letters
only; the text may have any letter case. -/
def mentions (word : String) (text : List Char) : Bool :=
  let text := text.map Char.toLower
  let w := word.toList
  (w ++ [' ']).isPrefixOf text || (' ' :: w).isSuffixOf text ||
    occursOutside (' ' :: w ++ [' ']) text

/-- How a message about an absent value is recognised. -/
inductive Wording where
  /-- A pattern derived from a sample message. -/
  | derived (pieces : List Piece)
  /-- The loose pattern. -/
  | loose
deriving DecidableEq, Repr

/-- A pattern that recognises messages about one absent value. -/
structure AccessPattern where
  absent : Absent
  wording : Wording
deriving DecidableEq, Repr

namespace AccessPattern

/-- The pattern derived from the message that `sample` gives for an absent
value. -/
def derive (absent : Absent) (sample : Absent → String) : AccessPattern :=
  ⟨absent, .derived (piecesOf (sample absent))⟩

/-- The pattern derived from the message that `sample` gives for an absent
value, by way of its source. -/
def derive? (absent : Absent) (sample : Absent → String) :
    Option AccessPattern :=
  (readPieces? (derivedSource (sample absent))).map fun pieces =>
    ⟨absent, .derived pieces⟩

/-- The loose pattern of an absent value. -/
def loose (absent : Absent) : AccessPattern :=
  ⟨absent, .loose⟩

/-- The pattern derived from the wording of an engine. -/
def ofEngine (engine : Engine) (absent : Absent) : AccessPattern :=
  derive absent fun a => engine.readFailure a objectMark propertyMark

/-- The pattern written as a regular expression. -/
def source (p : AccessPattern) : String :=
  let w := p.absent.word
  match p.wording with
  | .derived pieces => String.ofList (pieces.flatMap Piece.source)
  | .loose => "^" ++ w ++ " | " ++ w ++ "$|^[^(]* " ++ w ++ " "

/-- Whether a message is one that the pattern recognises. -/
def matchesMessage (p : AccessPattern) (message : String) : Bool :=
  match p.wording with
  | .derived pieces => covers pieces message.toList
  | .loose => mentions p.absent.word message.toList

end AccessPattern

end NullGuard.Access
