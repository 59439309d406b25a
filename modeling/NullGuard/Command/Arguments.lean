/-!
# Arguments of a command line

A command line is read level by level: first the program's own options up to the
word for a command, then the command's options and operands. At each level the
words are taken one by one. An option that takes a value is settled only when
the next argument is, so a bad value is found out after an unknown option behind
it.

A level allows every argument once, `--verbose` aside. Behind `--` every word is
an operand.
-/

namespace NullGuard.Command

/-- An argument of the program or of one of its commands. -/
inductive Argument where
  | format
  | verbose
  | quiet
  | noColor
  | settings
  | output
  | outDir
  | importName
  | strictChains
  | all
  | strict
  | force
  | input
  | directory
  | code
  | help
  | version
deriving DecidableEq, Repr

/-- A command. -/
inductive Action where
  | transform
  | check
  | init
  | explain
  | help
deriving DecidableEq, Repr

/-- Why a command line is not carried out. -/
inductive UsageFault where
  | unknownCommand
  | unknownArgument
  | missingArgument
  | conflict
  | invalidValue
  | needlessValue
  /-- Help was asked for. -/
  | help
  /-- The version was asked for. -/
  | version
deriving DecidableEq, Repr

/-- The words for commands. -/
def Action.ofWord? : String → Option Action
  | "transform" => some transform
  | "check" => some check
  | "init" => some init
  | "explain" => some explain
  | "help" => some help
  | _ => none

namespace Argument

/-- What follows `--` for an option. -/
def long? : Argument → Option String
  | format => some "format"
  | verbose => some "verbose"
  | quiet => some "quiet"
  | noColor => some "no-color"
  | settings => some "config"
  | output => some "output"
  | outDir => some "out-dir"
  | importName => some "import-name"
  | strictChains => some "strict-chains"
  | all => some "all"
  | strict => some "strict"
  | force => some "force"
  | help => some "help"
  | version => some "version"
  | input | directory | code => none

/-- The letter for an option. -/
def short? : Argument → Option Char
  | verbose => some 'v'
  | quiet => some 'q'
  | output => some 'o'
  | help => some 'h'
  | version => some 'V'
  | _ => none

/-- Whether an argument has a value. -/
def hasValue : Argument → Bool
  | format | settings | output | outDir | importName | input
      | directory | code =>
    true
  | _ => false

/-- Whether an argument may have a value: a format has to be known, and a path
must not be empty. -/
def allows (a : Argument) (value : String) : Bool :=
  match a with
  | format => value == "text" || value == "json"
  | settings | output | outDir | input | directory => !value.isEmpty
  | _ => true

/-- Whether an argument may be given again. -/
def isRepeatable (a : Argument) : Bool :=
  a == verbose

end Argument

/-- What may be given at a level: options, operands in their order, and whether
commands. -/
structure Level where
  options : List Argument
  operands : List Argument := []
  required : List Argument := []
  hasCommands : Bool := false

/-- The options that every level has. -/
def globalOptions : List Argument :=
  [.format, .verbose, .quiet, .noColor, .settings, .help, .version]

/-- The level in front of the command. -/
def programLevel : Level :=
  { options := globalOptions, hasCommands := true }

/-- The level of a command. -/
def Action.level : Action → Level
  | transform =>
    { options := globalOptions ++ [.output, .outDir, .importName, .strictChains]
      operands := [.input]
      required := [.input] }
  | check =>
    { options := globalOptions ++
      [.all, .strict, .importName, .strictChains], operands := [.input] }
  | init => { options := globalOptions ++ [.force], operands := [.directory] }
  | explain =>
    { options := globalOptions, operands := [.code], required := [.code] }
  | help => { options := [] }

/-- Arguments with their values; one without a value has the empty text. -/
abbrev Given :=
  List (Argument × String)

/-- How far a level has been read. -/
structure Intake where
  level : Level
  given : Given := []
  /-- The argument that was given last and is not settled yet, with its value if
  that came. -/
  pending : Option (Argument × Option String) := none
  /-- The operands that are still to come. -/
  operands : List Argument
  /-- Whether every further word is an operand. -/
  isLiteral : Bool := false

namespace Intake

/-- The beginning of a level. -/
def start (level : Level) : Intake :=
  { level, operands := level.operands }

/-- Whether the next word is a value. -/
def isAwaiting (r : Intake) : Bool :=
  match r.pending with
  | some (_, none) => true
  | _ => false

/-- Takes an argument with its value. -/
def add (r : Intake) (a : Argument) (value : Option String) :
    Except UsageFault Intake := do
  if a == .help then throw .help
  if a == .version then throw .version
  if a.hasValue && value.isNone then throw .invalidValue
  let text := value.getD ""
  if !a.isRepeatable && (r.given.lookup a).isSome then throw .conflict
  unless a.allows text do throw .invalidValue
  return { r with given := r.given ++ [(a, text)] }

/-- Settles the argument that was given last. -/
def settle (r : Intake) : Except UsageFault Intake :=
  match r.pending with
  | none => .ok r
  | some (a, value) => add { r with pending := none } a value

/-- Takes an option, with its value if that is attached. -/
def addOption (r : Intake) (a : Argument) (attached : Option String) :
    Except UsageFault Intake := do
  if !a.hasValue && attached.isSome then throw .needlessValue
  let r ← r.settle
  if a.hasValue && attached.isNone
    then return { r with pending := some (a, none) }
  else r.add a attached

/-- Takes an option by its name. -/
def addLong (r : Intake) (name : String) (attached : Option String) :
    Except UsageFault Intake :=
  match r.level.options.find? fun a => a.long? == some name with
  | some a => r.addOption a attached
  | none => .error .unknownArgument

/-- Takes options by their letters. What follows the letter of an option with a
value is that value. -/
def addShort (r : Intake) : List Char → Except UsageFault Intake
  | [] => .ok r
  | c :: rest =>
    match r.level.options.find? fun a => a.short? == some c with
    | none => .error .unknownArgument
    | some a =>
      if a.hasValue then
        match rest with
        | [] => r.addOption a none
        | '=' :: value => r.addOption a (some (String.ofList value))
        | value => r.addOption a (some (String.ofList value))
      else do
        let r ← r.addOption a none
        r.addShort rest

/-- Takes an operand. -/
def addOperand (r : Intake) (word : String) : Except UsageFault Intake :=
  match r.operands with
  | a :: operands => do
    let r ← r.settle
    return { r with pending := some (a, some word), operands }
  | [] =>
    if r.level.hasCommands && !(r.isLiteral && (Action.ofWord? word).isSome)
      then
      .error .unknownCommand
    else .error .unknownArgument

/-- The name and the value of a word that starts with two dashes. -/
def longParts (word : String) : String × Option String :=
  let body := word.toList.drop 2
  let value := (body.dropWhile (· != '=')).tail
  (String.ofList (body.takeWhile (· != '=')),
    if body.contains '=' then some (String.ofList value) else none)

/-- Takes a word that is no command. -/
def addWord (r : Intake) (word : String) : Except UsageFault Intake :=
  if r.isLiteral then r.addOperand word
  else if word == "--" then .ok { r with isLiteral := true }
  else if word.startsWith "--" then
    let (name, attached) := longParts word
    r.addLong name attached
  else if word.startsWith "-" && word != "-"
    then r.addShort (word.toList.drop 1)
  else
    match r.pending with
    | some (a, none) => .ok { r with pending := some (a, some word) }
    | _ => r.addOperand word

/-- Reads a level, up to the word for a command if the level has commands; what
is behind that word is left. -/
def words (r : Intake) :
    List String → Except UsageFault (Intake × Option (Action × List String))
  | [] => .ok (r, none)
  | word :: rest =>
    let command :=
      if r.level.hasCommands && !r.isLiteral && !r.isAwaiting
        then Action.ofWord? word else none
    match command with
    | some c => .ok (r, some (c, rest))
    | none => do
      let r ← r.addWord word
      r.words rest

/-- What was given at a level that has been read to its end. An output file and
an output directory exclude each other. -/
def finish (r : Intake) : Except UsageFault Given := do
  let r ← r.settle
  let has := fun a => (r.given.lookup a).isSome
  if has .output && has .outDir then throw .conflict
  unless r.level.required.all has do throw .missingArgument
  return r.given

end Intake

end NullGuard.Command
