import NullGuard.Toml.Document
import NullGuard.Transform.Options

/-!
# The settings of a project

A project keeps its options in a settings file, in the table `transform`; the
file holds nothing else. Names inside the table that are no option are passed
over. `Options.toToml` writes a file that reads back as the same options.
-/

namespace NullGuard.Config

open NullGuard.Toml (Item Fields)
open NullGuard.Transform (Options ChainPolicy HoistPriority)

/-- The name of a project's settings file. -/
def settingsFile : String :=
  "idx.toml"

/-- The text of an item. -/
def text? : Item → Option String
  | .string s => some s
  | _ => none

/-- Whether an item holds nothing. -/
def isEmpty : Item → Bool
  | .array [] | .table _ [] | .tables [] => true
  | _ => false

/-- The policy of an item: its name, or a table with the name and nothing
else. -/
def policy? : Item → Option ChainPolicy
  | .string s => ChainPolicy.ofName? s
  | .table _ [(name, inner)] =>
    if isEmpty inner then ChainPolicy.ofName? name else none
  | _ => none

/-- The priority of an item: a number of eight bits. -/
def priority? : Item → Option HoistPriority
  | .integer n => if 0 ≤ n ∧ n < 256 then some (UInt8.ofNat n.toNat) else none
  | _ => none

/-- What an item says, or the default where there is none. -/
def orDefault {α : Type} (read : Item → Option α) (default : α) :
    Option Item → Option α
  | none => some default
  | some i => read i

/-- Options from the items that give them, in the order name, policy,
priority. -/
def options? (name policy priority : Option Item) : Option Options := do
  let d : Options := {}
  return {
    importName := ← orDefault text? d.importName name
    policy := ← orDefault policy? d.policy policy
    asyncMethodHoist := ← orDefault priority? d.asyncMethodHoist priority }

/-- The options that an item writes: a table by their names, an array by their
order. A moment has no names, so it writes the defaults. -/
def optionsOf? : Item → Option Options
  | .table _ fields =>
    let item := Fields.get? fields
    options? (item "import_name") (item "policy") (item "async_method_hoist")
  | .array items => options? items[0]? items[1]? items[2]?
  | .tables elements =>
    let items := elements.map (Item.table .header)
    options? items[0]? items[1]? items[2]?
  | .moment => some {}
  | _ => none

/-- The options of a table that holds nothing but them. -/
def optionsIn? (fields : Fields) : Option Options := do
  unless fields.all fun f => f.1 == "transform" do none
  orDefault optionsOf? {} (Fields.get? fields "transform")

/-- The options of a settings file. -/
def ofToml? (text : String) : Option Options := do
  optionsIn? (← Toml.parse? text)

/-- A settings file for options. -/
def toToml (o : Options) : String :=
  "[transform]\n" ++
    "import_name = " ++ Toml.quote o.importName ++ "\n" ++
    "policy = " ++ Toml.quote o.policy.name ++ "\n" ++
    "async_method_hoist = " ++ toString o.asyncMethodHoist.toNat ++ "\n"

/-- What a command says about the options on its own. -/
structure Overrides where
  importName : Option String := none
  isStrict : Bool := false
deriving DecidableEq, Repr

/-- Options with what a command says in place of what the settings say. -/
def Overrides.apply (a : Overrides) (o : Options) : Options :=
  { o with
    importName := a.importName.getD o.importName
    policy := if a.isStrict then .strict else o.policy }

end NullGuard.Config
