import NullGuard.Text.Span

/-!
# Lines of a text

A line ends at a line feed. For positions a text has one line more than it has
line feeds, and a column is a number of bytes; for showing it, an empty line at
the end does not count, and a carriage return in front of a line feed belongs to
the end of the line.

Offsets, lines and columns have 32 bits, and their arithmetic wraps.
-/

namespace NullGuard.Text

/-- The byte offsets at which lines start, behind the first, in characters that
begin at `pos`. -/
def laterLineStarts (pos : Nat) : List Char → List Nat
  | [] => []
  | c :: rest =>
    let next := pos + c.utf8Size
    if c = '\n' then next :: laterLineStarts next rest
      else laterLineStarts next rest

/-- The byte offsets at which the lines of a text start. -/
def lineStarts (text : String) : List Nat :=
  0 :: laterLineStarts 0 text.toList

/-- The table of a text has the starts of its lines in 32 bits. -/
def lineTable (text : String) : List UInt32 :=
  (lineStarts text).map Nat.toUInt32

/-- The line and column of a byte offset, both counted from one. An offset
behind the end counts as the end. -/
def lineColumn (text : String) (offset : UInt32) : UInt32 × UInt32 :=
  let offset := min offset text.utf8ByteSize.toUInt32
  let before := (lineTable text).filter (· ≤ offset)
  (before.length.toUInt32, offset - before.getLastD 0 + 1)

/-- The pieces of a text between line feeds. -/
def splitLines : List Char → List (List Char)
  | [] => [[]]
  | '\n' :: rest => [] :: splitLines rest
  | c :: rest =>
    match splitLines rest with
    | line :: lines => (c :: line) :: lines
    | [] => [[c]]

/-- A line without the carriage return at its end. -/
def dropReturn (line : List Char) : List Char :=
  if line.getLast? = some '\r' then line.dropLast else line

/-- The lines of a text as they are shown: all pieces but the last end in a line
feed, and the last one counts only if there is something in it. -/
def shownLines (text : String) : List String :=
  let pieces := splitLines text.toList
  let last := pieces.getLastD []
  (pieces.dropLast.map fun p => String.ofList (dropReturn p)) ++
    (if last.isEmpty then [] else [String.ofList last])

end NullGuard.Text
