import NullGuard.Toml.Value

/-!
# Settings files

A file is a sequence of lines: settings, headers of tables, comments, and blank
lines. A setting belongs to the table of the last header before it.
-/

namespace NullGuard.Toml

open Scan

/-- A file as far as it was read: its table, and the header that settings are
under. -/
structure Document where
  fields : Fields := []
  header : List String := []

/-- What a line does to a file. -/
inductive Line where
  | blank
  | setting (key : Key) (value : Item)
  | table (key : Key)
  | element (key : Key)

/-- A file with a line more, if the line agrees with the lines before it. -/
def Document.add? (d : Document) : Line → Option Document
  | .blank => some d
  | .setting key value => do
    return { d with fields := ← Fields.insertUnder d.header key value d.fields }
  | .table key => do
    return ⟨← Fields.openTable key d.fields, key.parts⟩
  | .element key => do
    return ⟨← Fields.openElement key d.fields, key.parts⟩

/-- A header, from its bracket to the end of its line. -/
def headerLine : Scan Line := do
  skip 1
  if ← eat '[' then
    let k ← key
    sign ']'
    sign ']'
    restOfLine
    return .element k
  else
    let k ← key
    sign ']'
    restOfLine
    return .table k

/-- A line, if the text does not end here. -/
def line? : Scan (Option Line) := do
  blanks
  match ← peek? with
  | none => return none
  | some '#' | some '\n' | some '\r' => do
    restOfLine
    return some .blank
  | some '[' => some <$> headerLine
  | some _ => do
    let k ← key
    sign '='
    blanks
    let v ← value
    restOfLine
    return some (.setting k v)

/-- The table that a text writes, if it is a settings file. A mark of the byte
order in front says nothing. -/
def parse? (text : String) : Option Fields := do
  let cs := match text.toList with
    | '\uFEFF' :: cs => cs
    | cs => cs
  let (lines, _) ← many line? cs
  return (← lines.foldlM Document.add? {}).fields

end NullGuard.Toml
