/-!
# Dialects: which grammar a file is read with

A file's extension picks the grammar. Markup is read in JavaScript and TSX,
types and decorators in TypeScript and TSX.
-/

namespace NullGuard.Reading

/-- A grammar for source files. -/
inductive Dialect where
  | javaScript
  | typeScript
  | tsx
deriving DecidableEq, Repr

/-- The name of a dialect. -/
def Dialect.name : Dialect → String
  | javaScript => "JavaScript"
  | typeScript => "TypeScript"
  | tsx => "Tsx"

/-- Whether a program may contain markup. -/
def Dialect.hasMarkup : Dialect → Bool
  | typeScript => false
  | _ => true

/-- Whether a program may contain types and decorators. -/
def Dialect.hasTypes : Dialect → Bool
  | javaScript => false
  | _ => true

/-- The dialect that belongs to an extension; any other extension means
JavaScript. -/
def Dialect.ofExtension? : Option String → Dialect
  | some "ts" | some "mts" | some "cts" => typeScript
  | some "tsx" => tsx
  | _ => javaScript

end NullGuard.Reading
