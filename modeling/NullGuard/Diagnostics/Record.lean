import NullGuard.Diagnostics.Diagnostic
import NullGuard.Text.Json
import NullGuard.Text.Style

/-!
# Writing diagnostics

For a reader, a diagnostic is a heading, the place with the lines around it, the
notes and the help, with an empty line behind it. For a program it is a JSON
object on a line of its own.
-/

namespace NullGuard.Diagnostics

open NullGuard.Text

/-- A location as JSON. -/
def Location.json (l : Location) : Json :=
  .object [("file", .str l.file), ("line", .nat l.line),
    ("column", .nat l.column)]

/-- A note as JSON; its place is text. -/
def Note.json (fs : SourceFiles) (n : Note) : Json :=
  .object [
    ("message", .str n.message),
    ("location", .ofString? ((n.span.bind fs.location?).map Location.text))]

/-- A diagnostic as JSON. -/
def Diagnostic.json (fs : SourceFiles) (d : Diagnostic) : Json :=
  .object [
    ("code", .str d.code.text),
    ("severity", .str d.severity.name),
    ("message", .str d.message),
    ("location", match d.span.bind fs.location? with
      | some l => l.json
      | none => .null),
    ("span", match d.span with
      | some s => .object [("start", .nat s.start), ("end", .nat s.stop)]
      | none => .null),
    ("help", .ofString? d.help),
    ("notes", .array (d.notes.map (Note.json fs)))]

/-- Diagnostics as JSON, one to a line. -/
def jsonLines (fs : SourceFiles) (ds : List Diagnostic) : String :=
  String.join (ds.map fun d => (d.json fs).compact ++ "\n")

/-- The styles of a severity. -/
def Severity.styles : Severity → List Style
  | error => [.red, .bold]
  | warning => [.yellow, .bold]
  | hint => [.blue, .bold]

/-- A note for a reader. -/
def Note.shown (fs : SourceFiles) (isColored : Bool) (n : Note) : String :=
  let place := match n.span.bind fs.location? with
    | some l => " (" ++ l.text ++ ")"
    | none => ""
  "  " ++ styled isColored [.cyan] "note" ++ ": " ++ n.message ++ place ++ "\n"

/-- The place of a diagnostic and the lines around it. -/
def placeShown (fs : SourceFiles) (isColored : Bool) (s : FileSpan) : String :=
  let arrow := match fs.location? s with
    | some l => "  " ++ styled isColored [.cyan] "-->" ++ " " ++ l.text ++ "\n"
    | none => ""
  arrow ++ String.join
    ((shownLines ((fs.frame? s).getD "")).map fun line => "  " ++ line ++ "\n")

/-- A diagnostic for a reader. -/
def Diagnostic.shown (fs : SourceFiles) (isColored : Bool) (d : Diagnostic) :
    String :=
  let heading :=
    styled isColored d.severity.styles (d.severity.name ++ "[" ++ d.code.text ++
      "]") ++ ": " ++ d.message ++ "\n"
  let place := match d.span with
    | some s => placeShown fs isColored s
    | none => ""
  let help := match d.help with
    | some h => "  " ++ styled isColored [.cyan] "= help:" ++ " " ++ h ++ "\n"
    | none => ""
  heading ++ place ++ String.join (d.notes.map (Note.shown fs isColored)) ++
    help ++ "\n"

/-- Diagnostics for a reader. -/
def shownAll (fs : SourceFiles) (isColored : Bool) (ds : List Diagnostic) :
    String :=
  String.join (ds.map (Diagnostic.shown fs isColored))

end NullGuard.Diagnostics
