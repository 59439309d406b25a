import NullGuard.Diagnostics.Files

/-!
# Diagnostics: what a run has to say

A diagnostic has a code, a severity, a message and possibly a place, notes about
other places and a hint how to help oneself. A run collects its diagnostics in
order.
-/

namespace NullGuard.Diagnostics

/-- How bad a finding is. -/
inductive Severity where
  | hint
  | warning
  | error
deriving DecidableEq, Repr

/-- The word for a severity. -/
def Severity.name : Severity → String
  | hint => "hint"
  | warning => "warning"
  | error => "error"

/-- What a finding is about. -/
inductive Code where
  /-- The text cannot be read. -/
  | parseError
  /-- The helper is called with other than two arguments. -/
  | arityMismatch
  /-- The callback is no chain of accesses. -/
  | invalidAccessor
  /-- The import of the helper is malformed. -/
  | invalidHelperImport
  /-- The helper is declared or assigned to again. -/
  | helperRedefined
  /-- The helper is used other than as a call, so it stays. -/
  | untransformedReference
  /-- The helper's module is required in a form that is left alone. -/
  | unrecognizedRequire
  /-- A file cannot be read or written. -/
  | ioError
deriving DecidableEq, Repr

namespace Code

/-- Every code. -/
def all : List Code :=
  [parseError, arityMismatch, invalidAccessor, invalidHelperImport,
    helperRedefined, untransformedReference, unrecognizedRequire, ioError]

/-- A code as it is printed. -/
def text : Code → String
  | parseError => "P001"
  | arityMismatch => "A001"
  | invalidAccessor => "S001"
  | invalidHelperImport => "B001"
  | helperRedefined => "B002"
  | untransformedReference => "W001"
  | unrecognizedRequire => "W002"
  | ioError => "I002"

/-- The code that is printed so, whatever the case of its letters. -/
def ofText? (s : String) : Option Code :=
  all.find? fun c => c.text.toLower == s.toLower

/-- How bad a finding is unless something else is said. -/
def severity : Code → Severity
  | untransformedReference => .warning
  | unrecognizedRequire => .hint
  | _ => .error

end Code

/-- Another place that a finding is about. -/
structure Note where
  message : String
  span : Option FileSpan
deriving DecidableEq, Repr

/-- A finding. -/
structure Diagnostic where
  code : Code
  severity : Severity
  message : String
  span : Option FileSpan := none
  notes : List Note := []
  help : Option String := none
deriving DecidableEq, Repr

/-- A finding with the severity of its code. -/
def Diagnostic.ofCode (code : Code) (message : String)
    (span : Option FileSpan) : Diagnostic :=
  { code, severity := code.severity, message, span }

/-- How many findings there are. -/
structure Counts where
  total : Nat
  errors : Nat
  warnings : Nat
  hints : Nat
deriving DecidableEq, Repr

/-- How many findings have a severity. -/
def countOf (severity : Severity) (ds : List Diagnostic) : Nat :=
  (ds.filter fun d => d.severity == severity).length

/-- How many findings there are. -/
def counts (ds : List Diagnostic) : Counts :=
  ⟨ds.length, countOf .error ds, countOf .warning ds, countOf .hint ds⟩

/-- The findings that are no hints. -/
def withoutHints (ds : List Diagnostic) : List Diagnostic :=
  ds.filter fun d => d.severity != .hint

end NullGuard.Diagnostics
