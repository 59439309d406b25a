import NullGuard.Command.Run

/-!
# The program

Runs a command line on the files of the disk. A command that fails ends the
program with its failure in words; a command line that is not carried out ends
it with what is wrong with the command line.
-/

namespace NullGuard.Command

open NullGuard.Files

/-- A fault of the system as a fault of a file. -/
def faultOf : IO.Error → FileFault
  | .noFileOrDirectory .. => .notFound
  | .alreadyExists .. => .occupied
  | .inappropriateType _ 20 _ => .notDirectory
  | .inappropriateType _ 21 _ => .isDirectory
  | e => .other (toString e)

/-- Does something that may have a fault. -/
def attempted {α : Type} (act : IO α) : IO (Except FileFault α) := do
  try return .ok (← act) catch e => return .error (faultOf e)

/-- The names that lead to the files below a directory. -/
partial def filesOnDisk (path : String) : IO (List Place) := do
  let mut found := []
  for e in ← (← IO.FS.realPath path).readDir do
    let inside := join path e.fileName
    if ← e.path.isDir then
      found := found ++ (← filesOnDisk inside).map (e.fileName :: ·)
    else found := found ++ [[e.fileName]]
  return found

/-- The text of a file. -/
def textOnDisk (path : String) : IO (Except FileFault String) := do
  match ← attempted (IO.FS.readBinFile path) with
  | .error fault => return .error fault
  | .ok bytes =>
    match String.fromUTF8? bytes with
    | some text => return .ok text
    | none => return .error .notText

/-- What a path leads to. -/
def kindOnDisk? (path : String) : IO (Option EntryKind) := do
  match ← attempted do (← IO.FS.realPath path).metadata with
  | .error _ => return none
  | .ok data => return some (if data.type == .dir then .directory else .file)

/-- The files of the disk as the surroundings of a command. -/
def diskHost : Host IO where
  kind? := kindOnDisk?
  readText := textOnDisk
  writeText path text := attempted (IO.FS.writeFile path text)
  makeDirectory path := attempted (IO.FS.createDir path)
  filesUnder path := do
    match ← attempted (filesOnDisk path) with
    | .ok found => return found
    | .error _ => return []
  print text := do
    IO.print text
    (← IO.getStdout).flush
  report text := IO.eprint text

/-- What is wrong with a command line, in words. -/
def UsageFault.message : UsageFault → String
  | unknownCommand => "error: unrecognized subcommand"
  | unknownArgument => "error: unexpected argument found"
  | missingArgument => "error: a required argument was not provided"
  | conflict => "error: an argument cannot be used with another one"
  | invalidValue => "error: invalid value for an argument"
  | needlessValue => "error: unexpected value for an option"
  | help =>
    "Usage: idx [OPTIONS] [transform | check | init | explain] [ARGUMENTS]"
  | version => "idx 0.3.0"

end NullGuard.Command

open NullGuard.Command in
/-- Runs the program. -/
def main (arguments : List String) : IO UInt32 := do
  let isTerminal ← (← IO.getStderr).isTty
  match ← run diskHost isTerminal ("idx" :: arguments) with
  | .ok () => return 0
  | .error (.failure failure) =>
    IO.eprintln ("Error: " ++ failure.message)
    return 1
  | .error (.usage fault) =>
    if fault == .help || fault == .version then
      IO.println fault.message
      return 0
    else
      IO.eprintln fault.message
      return 2
