import NullGuard.Command.Check
import NullGuard.Command.Explain
import NullGuard.Command.Init
import NullGuard.Command.Transform

/-!
# Running a command line

A command line is written out if it is a shorthand, read, and carried out on a
host. The commands that rewrite take their options from the settings file that
is named, else from the one where the program runs, else from the defaults.
-/

namespace NullGuard.Command

open NullGuard.Transform

/-- Why a run fails: the command line is not carried out, or the command
fails. -/
inductive RunFault where
  | usage (fault : UsageFault)
  | failure (failure : Failure)
deriving DecidableEq, Repr

section

variable {m : Type → Type} [Monad m] (h : Host m)

/-- The options of the settings file. -/
def loadOptions (named : Option String) : Act m Options := do
  let path? ← match named with
    | some path => pure (some path)
    | none => do
      let kind ← h.kind? Config.settingsFile
      pure (if kind == some .file then some Config.settingsFile else none)
  match path? with
  | none => return {}
  | some path =>
    match ← h.readText path with
    | .error fault => throw (.settingsUnreadable path fault)
    | .ok text =>
      match Config.ofToml? text with
      | some options => return options
      | none => throw (.settingsMalformed path)

/-- Carries out what a command line asks for. Colours are for a terminal that
nothing speaks against. -/
def Invocation.perform (i : Invocation) (isTerminal : Bool) : Act m Unit := do
  let isColored := isTerminal && !i.globals.noColor && !i.globals.isQuiet
  match i.request with
  | .transform input output outDir overrides =>
    let options ← loadOptions h i.globals.settings
    transform h (overrides.apply options) i.globals isColored input
      output outDir
  | .check input showsHints isStrict overrides =>
    let options ← loadOptions h i.globals.settings
    check h (overrides.apply options) i.globals isColored input
      showsHints isStrict
  | .init directory overwrites => init h i.globals directory overwrites
  | .explain code => explain h i.globals isColored code

/-- Runs a command line, the program's name in front. -/
def run (isTerminal : Bool) (arguments : List String) :
    m (Except RunFault Unit) := do
  match Invocation.ofArguments ((writtenOut arguments).drop 1) with
  | .error fault => return .error (.usage fault)
  | .ok invocation =>
    match ← (invocation.perform h isTerminal).run with
    | .error failure => return .error (.failure failure)
    | .ok () => return .ok ()

end

end NullGuard.Command
