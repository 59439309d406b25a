import NullGuard.Command.Host
import NullGuard.Command.Invocation
import NullGuard.Text.Json

/-!
# The command `init`

Writes the settings file of a directory with the default options, and makes the
directory if it is missing. A settings file that is there already stays unless
the command is told otherwise.
-/

namespace NullGuard.Command

open NullGuard.Text NullGuard.Files

/-- What stands in front of the settings in a fresh settings file. -/
def settingsHeader : String :=
  "# idx rewriter configuration\n" ++
  "#\n" ++
  "# import_name        module whose default import (or require) is the " ++
    "helper\n" ++
  "# policy             \"permissive\" allows calls in callbacks, " ++
    "\"strict\" only property accesses\n" ++
  "# async_method_hoist priority reported for temporaries inside async " ++
    "methods\n" ++
  "\n"

/-- A fresh settings file. -/
def freshSettings : String :=
  settingsHeader ++ Config.toToml {}

/-- Carries out the command. -/
def init {m : Type → Type} [Monad m] (h : Host m) (globals : Globals)
    (directory : String) (overwrites : Bool) : Act m Unit := do
  if let .error fault ← h.makeDirectories directory then throw (.file fault)
  let path := join directory Config.settingsFile
  let isCreated := overwrites || (← h.kind? path).isNone
  if isCreated then
    if let .error fault ← h.writeText path freshSettings
      then throw (.file fault)
  match globals.format with
  | .text =>
    h.print (if isCreated then "Created " ++ path ++ "\n"
      else "Skipped " ++ path ++ " (already exists)\n")
  | .json =>
    h.print (Json.compact (.object [ ("created", .bool isCreated),
      ("path", .str path), ("success", .bool true)]) ++ "\n")

end NullGuard.Command
