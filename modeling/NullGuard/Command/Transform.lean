import NullGuard.Command.Batch

/-!
# The command `transform`

Rewrites a file or the source files of a directory. The result goes to a file,
into a directory that has the shape of the input, or is printed; everything else
is reported, so that it does not mix with printed code. A result that cannot be
written ends the command at once.
-/

namespace NullGuard.Command

open NullGuard.Text NullGuard.Files NullGuard.Transform

/-- Where the result for a file goes in an output directory: as deep as the file
lies in the input, or under its name if it is the input. -/
def destination (input outDir file : String) : String :=
  match stripComponents? (components file) (components input) with
  | some (c :: cs) => join outDir (ofComponents (c :: cs))
  | _ => join outDir ((fileName? file).getD file)

/-- Where the result for a file goes; nothing if it is printed. -/
def targetOf (input : String) (output outDir : Option String) (file : String) :
    Option String :=
  output <|> outDir.map fun directory => destination input directory file

/-- What came of a transformation so far. -/
structure Totals extends Batch where
  /-- The files that were taken. -/
  files : Nat := 0
  /-- The files whose result was written or printed. -/
  written : Nat := 0
  /-- The files that could not be read or were rejected. -/
  failed : Nat := 0

section

variable {m : Type → Type} [Monad m] (h : Host m)

/-- Writes a result, and makes the directories for it. -/
def writeResult (path code : String) : Act m Unit := do
  match parent? path with
  | some above =>
    if let .error fault ← h.makeDirectories above then throw (.file fault)
  | none => pure ()
  if let .error fault ← h.writeText path code
    then throw (.unwritable path fault)

/-- Writes a result where it goes, or prints it. -/
def deliver (target : Option String) (code : String) : Act m Unit :=
  match target with
  | some path => writeResult h path code
  | none => h.print code

/-- Rewrites the next file. -/
def transformNext (options : Options) (target? : String → Option String)
    (t : Totals) (path : String) : Act m Totals := do
  match ← h.readText path with
  | .error fault =>
    return { t with
      toBatch := t.skip path fault
      files := t.files + 1
      failed := t.failed + 1 }
  | .ok text =>
    match t.rewrite options path text with
    | (none, batch) =>
      return { t with
        toBatch := batch, files := t.files + 1, failed := t.failed + 1 }
    | (some r, batch) =>
      deliver h (target? path) r.code
      return { t with
        toBatch := batch, files := t.files + 1, written := t.written + 1 }

/-- Rewrites files in their order. -/
def transformAll (options : Options) (target? : String → Option String)
    (paths : List String) : Act m Totals :=
  paths.foldlM (transformNext h options target?) {}

/-- What is said at the end of a transformation, for a reader. -/
def transformSummary (isColored : Bool) (t : Totals) : String :=
  let summary := toString t.files ++ " file(s), " ++ toString t.calls ++
    " call(s) rewritten, " ++ toString t.written ++ " written\n"
  if t.failed > 0 then
    styled isColored [.red, .bold] (toString t.failed ++ " file(s) failed") ++
      ": " ++ summary
  else styled isColored [.green, .bold] "Done" ++ " " ++ summary

/-- What is said at the end of a transformation, for a program. -/
def transformRecord (t : Totals) : Json :=
  .object [ ("calls_rewritten", .nat t.calls), ("errors", .nat t.counts.errors),
    ("failed", .nat t.failed), ("files", .nat t.files),
    ("success", .bool (t.failed == 0)), ("type", .str "summary"),
    ("warnings", .nat t.counts.warnings), ("written", .nat t.written)]

/-- Sums a transformation up. It fails if a file did. -/
def sumUp (globals : Globals) (isColored writesFiles : Bool) (t : Totals) :
    Act m Unit := do
  match globals.format with
  | .text =>
    if !globals.isQuiet && writesFiles
      then h.report (transformSummary isColored t)
  | .json => h.report ((transformRecord t).compact ++ "\n")
  if t.failed > 0 then throw (.transformFailed t.failed)

/-- Carries out the command. -/
def transform (options : Options) (globals : Globals) (isColored : Bool)
    (input : String) (output outDir : Option String) : Act m Unit := do
  let kind ← h.kind? input
  if kind.isNone then throw (.inputMissing input)
  if kind == some .directory && outDir.isNone then throw .outDirMissing
  let paths ← h.sourceFiles input
  let t ← transformAll h options (targetOf input output outDir) paths
  h.report (t.shown globals.format isColored)
  sumUp h globals isColored (output.isSome || outDir.isSome) t

end

end NullGuard.Command
