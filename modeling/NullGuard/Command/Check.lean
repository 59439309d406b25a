import NullGuard.Command.Batch

/-!
# The command `check`

Does what `transform` does, but writes nothing: it reports what it finds and how
many calls there are to rewrite. It fails on errors, and on warnings if it is
strict.
-/

namespace NullGuard.Command

open NullGuard.Text NullGuard.Files NullGuard.Transform

/-- What is said about a check of nothing. -/
def nothingFound : Format → String
  | .text => "No source files found.\n"
  | .json =>
    Json.compact (.object [ ("errors", .nat 0), ("files", .nat 0),
      ("success", .bool true), ("warnings", .nat 0)]) ++ "\n"

/-- What came of a check so far. -/
structure Findings extends Batch where
  /-- The files that were read. -/
  checked : Nat := 0

/-- What a check shows: everything, or all but the hints. -/
def Findings.select (showsHints : Bool) (f : Findings) : Findings :=
  if showsHints then f else { f with toBatch := f.withoutHints }

/-- Whether a check fails. -/
def isBlocked (isStrict : Bool) (f : Findings) : Bool :=
  f.counts.errors > 0 || (isStrict && f.counts.warnings > 0)

/-- What is said at the end of a check, for a reader. -/
def checkSummary (isStrict isColored : Bool) (f : Findings) : String :=
  let errors := f.counts.errors
  let warnings := f.counts.warnings
  if errors > 0 then
    styled isColored [.red, .bold] "Check failed" ++ ": " ++ toString errors ++
      " error(s), " ++ toString warnings ++ " warning(s)\n"
  else if warnings > 0 && isStrict then
    styled isColored [.yellow, .bold] "Check failed" ++ ": " ++
      toString warnings ++ " warning(s) (strict mode)\n"
  else if warnings > 0 then
    styled isColored [.yellow] "Check passed" ++ ": " ++ toString warnings ++
      " warning(s)\n"
  else
    styled isColored [.green, .bold] "All checks passed!" ++ " - " ++
      toString f.checked ++ " file(s) checked, " ++ toString f.calls ++
      " call(s) to rewrite\n"

/-- What is said at the end of a check, for a program. -/
def checkRecord (isStrict : Bool) (f : Findings) : Json :=
  .object [ ("calls", .nat f.calls), ("errors", .nat f.counts.errors),
    ("files_checked", .nat f.checked), ("hints", .nat f.counts.hints),
    ("success", .bool (!isBlocked isStrict f)), ("type", .str "summary"),
    ("warnings", .nat f.counts.warnings)]

section

variable {m : Type → Type} [Monad m] (h : Host m)

/-- Checks the next file. -/
def checkNext (options : Options) (isVerbose : Bool) (f : Findings)
    (path : String) : m Findings := do
  match ← h.readText path with
  | .error fault => return { f with toBatch := f.skip path fault }
  | .ok text =>
    let (rewritten, batch) := f.rewrite options path text
    if let some r := rewritten then
      if isVerbose && r.report.isChanged then
        h.print ("  " ++ path ++ ": " ++ toString r.report.callsRewritten ++
          " call(s)\n")
    return ⟨batch, f.checked + 1⟩

/-- Checks files in their order. -/
def checkAll (options : Options) (isVerbose : Bool) (paths : List String) :
    m Findings :=
  paths.foldlM (checkNext h options isVerbose) {}

/-- Says how many files are checked, to a reader. -/
def announce (format : Format) (paths : List String) : m Unit := do
  if format == .text
    then h.print ("Checking " ++ toString paths.length ++ " file(s)...\n")

/-- Reports what a check found and sums it up. It fails if the findings say
so. -/
def pronounce (globals : Globals) (isColored isStrict : Bool) (f : Findings) :
    Act m Unit := do
  match globals.format with
  | .text =>
    h.report (f.shown .text isColored)
    h.print ("\n" ++ checkSummary isStrict isColored f)
  | .json =>
    h.print (f.shown .json isColored ++
      (checkRecord isStrict f).compact ++ "\n")
  if isBlocked isStrict f then throw .checkFailed

/-- Carries out the command. -/
def check (options : Options) (globals : Globals) (isColored : Bool)
    (input : String) (showsHints isStrict : Bool) : Act m Unit := do
  let paths ← h.sourceFiles input
  if paths.isEmpty then h.print (nothingFound globals.format)
  else
    (announce h globals.format paths : m Unit)
    let f ← (checkAll h options globals.isVerbose paths : m Findings)
    pronounce h globals isColored isStrict (f.select showsHints)

end

end NullGuard.Command
