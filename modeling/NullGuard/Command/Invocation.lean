import NullGuard.Command.Arguments
import NullGuard.Config.Settings
import NullGuard.Files.Path

/-!
# Invocations: what a command line asks for

A command line names a command and what it works on, together with options that
hold for every command. Those may stand in front of the command's name or behind
it; behind it they count more. As a shorthand, a source file may stand in place
of a command and is then transformed.
-/

namespace NullGuard.Command

open NullGuard.Config (Overrides)

/-- How results are written. -/
inductive Format where
  | text
  | json
deriving DecidableEq, Repr

/-- The options that hold for every command. -/
structure Globals where
  format : Format := .text
  isVerbose : Bool := false
  isQuiet : Bool := false
  noColor : Bool := false
  settings : Option String := none
deriving DecidableEq, Repr

/-- What a command is asked to do. -/
inductive Request where
  /-- Rewrite a file, or the source files of a directory. -/
  | transform (input : String) (output outDir : Option String)
      (overrides : Overrides)
  /-- Report what rewriting would do. -/
  | check (input : String) (showsHints isStrict : Bool) (overrides : Overrides)
  /-- Write the settings file of a directory. -/
  | init (directory : String) (overwrites : Bool)
  /-- Explain the code of a diagnostic. -/
  | explain (code : String)
deriving DecidableEq, Repr

/-- What a command line asks for. -/
structure Invocation where
  globals : Globals
  request : Request
deriving DecidableEq, Repr

/-- The global options among the arguments of both levels. -/
def globalsOf (given : Given) : Globals where
  format := if given.lookup .format == some "json" then .json else .text
  isVerbose := (given.lookup .verbose).isSome
  isQuiet := (given.lookup .quiet).isSome
  noColor := (given.lookup .noColor).isSome
  settings := given.lookup .settings

/-- What a command says about the options. -/
def overridesOf (given : Given) : Overrides where
  importName := given.lookup .importName
  isStrict := (given.lookup .strictChains).isSome

/-- What a command is asked to do; help is asked for in another way. -/
def requestOf? (command : Action) (given : Given) : Option Request :=
  let has := fun a => (given.lookup a).isSome
  match command with
  | .transform => do
    return .transform (← given.lookup .input) (given.lookup .output)
      (given.lookup .outDir) (overridesOf given)
  | .check =>
    some (.check ((given.lookup .input).getD ".") (has .all) (has .strict)
      (overridesOf given))
  | .init => some (.init ((given.lookup .directory).getD ".") (has .force))
  | .explain => do return .explain (← given.lookup .code)
  | .help => none

/-- What asking for help on some commands comes to: commands have no further
commands. -/
def helpFault : List String → UsageFault
  | [] => .help
  | [word] => if (Action.ofWord? word).isSome then .help else .unknownCommand
  | _ => .unknownCommand

/-- Reads a command line without the program's name. The command's own arguments
are settled before the last one in front of it. -/
def Invocation.ofArguments (arguments : List String) :
    Except UsageFault Invocation := do
  let (outer, command) ← (Intake.start programLevel).words arguments
  match command with
  | none =>
    let _ ← outer.finish
    throw .help
  | some (.help, rest) => throw (helpFault rest)
  | some (command, rest) =>
    let (inner, _) ← (Intake.start command.level).words rest
    let own ← inner.finish
    let globals := globalsOf (own ++ (← outer.finish))
    match requestOf? command own with
    | some request => return { globals, request }
    | none => throw .missingArgument

/-- Whether the first word that is no option, behind the program's name, is a
source file. -/
def isShorthand (arguments : List String) : Bool :=
  match (arguments.drop 1).find? fun word => !word.startsWith "-" with
  | some word => (Action.ofWord? word).isNone && Files.isSourceFile word
  | none => false

/-- A command line with the word for transforming behind the program's name. -/
def expandShorthand? : List String → Option (List String)
  | [] => none
  | program :: rest => some (program :: "transform" :: rest)

/-- A command line, written out if it is a shorthand. -/
def writtenOut (arguments : List String) : List String :=
  if isShorthand arguments then (expandShorthand? arguments).getD arguments
    else arguments

end NullGuard.Command
