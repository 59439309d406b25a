import NullGuard.Text.Lines

/-!
# Files that diagnostics point into

The files of a run are numbered in the order in which they are added. A span in
a file is resolved to a line and a column, or to a frame that shows the lines
around it:

1 | first(); > 2 | idx(1, 2, 3);
| ^^^^^^^^^^^^
-/

namespace NullGuard.Diagnostics

open NullGuard.Text

/-- A range of bytes in one of the files. -/
structure FileSpan where
  file : Nat
  start : Nat
  stop : Nat
deriving DecidableEq, Repr, Inhabited

/-- A file by name and content. -/
structure SourceFile where
  name : String
  text : String
deriving DecidableEq, Repr, Inhabited

/-- The files of a run. -/
structure SourceFiles where
  files : List SourceFile := []
deriving DecidableEq, Repr, Inhabited

/-- A place in a file, with line and column counted from one. -/
structure Location where
  file : String
  line : Nat
  column : Nat
deriving DecidableEq, Repr

/-- A location as text. -/
def Location.text (l : Location) : String :=
  l.file ++ ":" ++ toString l.line ++ ":" ++ toString l.column

/-- Adds a file, and gives its number. -/
def SourceFiles.add (fs : SourceFiles) (name text : String) :
    Nat × SourceFiles :=
  (fs.files.length, ⟨fs.files ++ [⟨name, text⟩]⟩)

/-- Where a span starts. -/
def SourceFiles.location? (fs : SourceFiles) (s : FileSpan) : Option Location :=
  (fs.files[s.file]?).map fun f =>
    let (line, column) := lineColumn f.text s.start.toUInt32
    ⟨f.name, line.toNat, column.toNat⟩

/-- How many lines a frame shows on each side of the line that it is about. -/
def frameMargin : Nat :=
  2

/-- The same character several times. -/
def repeated (n : Nat) (c : Char) : String :=
  String.ofList (List.replicate n c)

/-- A number with spaces in front of it. -/
def padded (width : Nat) (s : String) : String :=
  repeated (width - s.length) ' ' ++ s

/-- A line of a frame, and below the marked one the line that underlines the
span. -/
def frameLine (width line column length : Nat) (number : Nat) (text : String) :
    String :=
  let isMarked := number == line
  let shown :=
    (if isMarked then "> " else "  ") ++ padded width (toString number) ++
      " | " ++ text ++ "\n"
  if isMarked then
    let indent := column - 1
    let underline := max 1 (min length (text.utf8ByteSize - indent))
    shown ++ "  " ++ repeated width ' ' ++ " | " ++ repeated indent ' ' ++
      repeated underline '^' ++ "\n"
  else shown

/-- The lines around a line up to a last one, with a span of some length
underlined that begins in a column of that line. -/
def SourceFile.linesAround (f : SourceFile) (line column last length : Nat) :
    String :=
  let first := max 1 (line - frameMargin)
  let width := (toString last).length
  let shown := ((shownLines f.text).drop (first - 1)).take (last + 1 - first)
  String.join ((shown.zipIdx first).map fun (text, number) =>
    frameLine width line column length number text)

/-- The lines around a span, with the span underlined. -/
def SourceFile.frame (f : SourceFile) (start stop : Nat) : String :=
  let (line, column) := lineColumn f.text start.toUInt32
  let last := line + frameMargin.toUInt32
  f.linesAround line.toNat column.toNat last.toNat (stop - start)

/-- The lines around a span in one of the files. -/
def SourceFiles.frame? (fs : SourceFiles) (s : FileSpan) : Option String :=
  (fs.files[s.file]?).map fun f => f.frame s.start s.stop

end NullGuard.Diagnostics
