import NullGuard.Files.Tree

/-!
# Hosts: what commands need of their surroundings

Commands do not touch files themselves. They are written for any `Host`, which
says how to read and write files and where text goes, in a monad of its own; so
the same command runs on the files of a disk and on a tree held in memory.
-/

namespace NullGuard.Command

open NullGuard.Files

/-- Whether something is a directory or a file. -/
inductive EntryKind where
  | directory
  | file
deriving DecidableEq, Repr

/-- The surroundings of a command. -/
structure Host (m : Type → Type) where
  /-- What a path leads to, if it leads to anything. -/
  kind? : String → m (Option EntryKind)
  /-- The text of a file. -/
  readText : String → m (Except FileFault String)
  /-- Writes a file, new or not. -/
  writeText : String → String → m (Except FileFault Unit)
  /-- Makes one directory. -/
  makeDirectory : String → m (Except FileFault Unit)
  /-- The names that lead to the files below a directory, in any order. -/
  filesUnder : String → m (List Place)
  /-- Prints a text. -/
  print : String → m Unit
  /-- Prints a text that is no result. -/
  report : String → m Unit

/-- Why a command fails. -/
inductive Failure where
  | file (fault : FileFault)
  | inputMissing (path : String)
  | outDirMissing
  | unwritable (path : String) (fault : FileFault)
  | settingsUnreadable (path : String) (fault : FileFault)
  | settingsMalformed (path : String)
  | transformFailed (files : Nat)
  | checkFailed
  | unknownCode (code : String)
deriving DecidableEq, Repr

/-- A failure in words. -/
def Failure.message : Failure → String
  | file fault => fault.message
  | inputMissing path => "Input not found: " ++ path
  | outDirMissing => "--out-dir is required when the input is a directory"
  | unwritable path fault => "Could not write " ++ path ++ ": " ++ fault.message
  | settingsUnreadable path fault =>
    "Could not read " ++ path ++ ": " ++ fault.message
  | settingsMalformed path => path ++ ": "
  | transformFailed files =>
    "Transform failed for " ++ toString files ++ " file(s)"
  | checkFailed => "Check failed with errors"
  | unknownCode code => "Unknown error code: " ++ code

/-- A command that may fail. -/
abbrev Act (m : Type → Type) :=
  ExceptT Failure m

namespace Host

variable {m : Type → Type} [Monad m] (h : Host m)

/-- Makes a directory and those above it, as far as they are missing, with a
bound on how many. -/
def makeDirectoriesWithin (h : Host m) :
    Nat → String → m (Except FileFault Unit)
  | 0, _ => return .ok ()
  | bound + 1, path => do
    if path.isEmpty then return .ok ()
    match ← h.makeDirectory path with
    | .ok () => return .ok ()
    | .error .notFound =>
      match parent? path with
      | none => return .error (.other "failed to create whole tree")
      | some above =>
        match ← makeDirectoriesWithin h bound above with
        | .error fault => return .error fault
        | .ok () => unlessDirectory path (← h.makeDirectory path)
    | other => unlessDirectory path other
where
  /-- A fault does not count if there is a directory after all. -/
  unlessDirectory (path : String) (result : Except FileFault Unit) : m
    (Except FileFault Unit) := do
    match result with
    | .ok () => return .ok ()
    | .error fault =>
      if (← h.kind? path) == some .directory then return .ok ()
        else return .error fault

/-- Makes a directory and those above it, as far as they are missing. -/
def makeDirectories (path : String) : m (Except FileFault Unit) :=
  h.makeDirectoriesWithin ((components path).length + 1) path

/-- What is left out of directories. -/
def passedOver : String := "node_modules"

/-- The source files of a path in order: the path itself if it is a file, else
the source files below it. Nothing in a directory that is passed over counts, be
it the path itself. -/
def sourceFiles (path : String) : m (List String) := do
  if (← h.kind? path) == some .file then return [path]
  if (fileName? path).getD path == passedOver then return []
  let names := (← h.filesUnder path).filter fun names =>
    !names.contains passedOver
  let found := names.map fun names => names.foldl join path
  return (found.filter isSourceFile).mergeSort pathsInOrder

end Host

end NullGuard.Command
