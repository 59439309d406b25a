import NullGuard.Diagnostics.Record
import NullGuard.Files.Path
import NullGuard.Reading.Program
import NullGuard.Transform.Program
import NullGuard.Writing.Program

/-!
# Sessions: source texts in, source texts out

A session collects the files and the diagnostics of a run. Rewriting a source
text reads it, transforms the program, and prints it if it changed; a text that
did not change is given back as it was. What goes wrong on the way becomes
exactly one error, and the text is then not rewritten.
-/

namespace NullGuard.Transform

open NullGuard.Text
open NullGuard.Tree NullGuard.Reading NullGuard.Diagnostics NullGuard.Files

/-- A span of a text as a span of a file. -/
def inFile (file : Nat) (s : Option Span) : Option FileSpan :=
  s.map fun p => ⟨file, p.start, p.stop⟩

/-- The code of a rejection. -/
def Rejection.code : Rejection → Code
  | .arity _ => .arityMismatch
  | .shape _ _ => .invalidAccessor
  | .binding _ _ => .invalidHelperImport
  | .redefinition _ _ => .helperRedefined

/-- What a rejection says to someone who wants to mend it. -/
def Rejection.help? : Rejection → Option String
  | .arity _ => some "call it as `idx(object, _ => _.path.to.value)`"
  | .shape _ _ =>
    some "the callback must be `_ => _` followed by property accesses or calls"
  | .binding _ _ => some "import the helper as `import idx from 'idx'`"
  | .redefinition _ _ => none

/-- The notes of a rejection. -/
def Rejection.notes (file : Nat) : Rejection → List Note
  | .redefinition _ declaredAt =>
    [⟨"helper declared here", inFile file declaredAt⟩]
  | _ => []

/-- A rejection as a diagnostic. -/
def Rejection.diagnostic (file : Nat) (r : Rejection) : Diagnostic :=
  { Diagnostic.ofCode r.code r.message (inFile file r.span) with
    notes := r.notes file
    help := r.help? }

/-- A fault that stopped the reader. -/
def faultError (file : Nat) (f : Fault) : Diagnostic :=
  Diagnostic.ofCode .parseError f.cause.message (inFile file (some f.span))

/-- A fault that was only noted. -/
def faultWarning (file : Nat) (f : Fault) : Diagnostic :=
  { Diagnostic.ofCode .parseError f.cause.message
    (inFile file (some f.span)) with
    severity := .warning }

/-- The warning about a use that keeps a helper. -/
def RetainedHelper.diagnostic (file : Nat) (h : RetainedHelper)
    (use : Option Span) : Diagnostic :=
  { Diagnostic.ofCode .untransformedReference ("`" ++ h.name ++
    "` is used other than as a direct call; its declaration is kept")
    (inFile file use) with
    notes := [⟨"declared here", inFile file h.declaredAt⟩] }

/-- The hint about a variable that requires the helper's module in another
form. -/
def unrecognizedDiagnostic (file : Nat) (s : Option Span) : Diagnostic :=
  Diagnostic.ofCode .unrecognizedRequire
    ("this require of the helper module is not a plain " ++
      "`const idx = require(...)`; its calls are left alone") (inFile file s)

/-- What a report has to say: the uses that keep helpers, and the variables that
were left alone. -/
def Report.diagnostics (file : Nat) (r : Report) : List Diagnostic :=
  (r.retained.flatMap fun h => h.references.map (h.diagnostic file)) ++
    r.unrecognizedRequires.map (unrecognizedDiagnostic file)

/-- The files and the diagnostics of a run. -/
structure Session where
  files : SourceFiles := {}
  diagnostics : List Diagnostic := []
deriving DecidableEq, Repr, Inhabited

/-- Adds diagnostics to a session. -/
def Session.report (s : Session) (ds : List Diagnostic) : Session :=
  { s with diagnostics := s.diagnostics ++ ds }

/-- A rewritten text. -/
structure Rewritten where
  code : String
  report : Report

/-- A program that was read, or the fault that stopped the reader; the file
belongs to the session either way, and the faults that were noted are its
warnings. -/
def Session.read (s : Session) (name text : String) :
    Except Fault (Nat × Source) × Session :=
  let (file, files) := s.files.add name text
  let s := { s with files }
  match Source.read (dialectOf name) text with
  | .error fault => (.error fault, s.report [faultError file fault])
  | .ok source => (.ok (file, source), s)

/-- Rewrites a source text. There is no answer if and only if an error was
added. -/
def Session.rewrite (s : Session) (options : Options) (name text : String) :
    Option Rewritten × Session :=
  match s.read name text with
  | (.error _, s) => (none, s)
  | (.ok (file, source), s) =>
    let s := s.report (source.faults.map (faultWarning file))
    match transformProgram options text source.tree source.comments with
    | .error rejection => (none, s.report [rejection.diagnostic file])
    | .ok transformed =>
      let report := transformed.report
      let code :=
        if report.isChanged
          then Writing.toSource transformed.tree transformed.comments else text
      (some ⟨code, report⟩, s.report (report.diagnostics file))

end NullGuard.Transform
