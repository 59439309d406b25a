import NullGuard.Toml.Moment
import NullGuard.Toml.Number
import NullGuard.Toml.Quoted

/-!
# Values and names of a settings file

A value is a string, a number, a truth value, a moment, an array, or a table in
braces. Arrays may span lines, tables in braces may not. Both nest to a limit,
and a dotted name has a limit of parts.
-/

namespace NullGuard.Toml

open Scan

/-- The number of parts that no dotted name reaches, and of brackets around a
value. -/
def depthLimit : Nat := 80

/-- A character of a name without quotes. -/
def isBareChar (c : Char) : Bool :=
  c.isAlphanum || c == '_' || c == '-'

/-- A part of a dotted name, with the blanks around it. -/
def keyPart : Scan String := do
  blanks
  let name ← match ← peek? with
    | some '"' => basicString
    | some '\'' => literalString
    | _ => do
      let cs ← run isBareChar
      if cs.isEmpty then fail
      pure (String.ofList cs)
  blanks
  return name

/-- A dotted name. -/
def key : Scan Key := do
  let first ← keyPart
  let rest ← many do
    if ← eat '.' then some <$> keyPart else return none
  let parts := first :: rest
  unless parts.length < depthLimit do fail
  return ⟨parts.dropLast, parts.getLastD first⟩

/-- A value without brackets. -/
def scalar : Scan Item := do
  match ← peek? with
  | some '"' | some '\'' => .string <$> string
  | some 't' => do
    word "true"
    return .boolean true
  | some 'f' => do
    word "false"
    return .boolean false
  | some 'i' | some 'n' => nonFinite
  | some c => do
    if (← seesDate) || (← seesTime 0) then moment
    else if c.isDigit || c == '+' || c == '-' then number
    else fail
  | none => fail

/-- An array of values, behind its bracket. -/
def array (value : Scan Item) : Scan Item := do
  skip 1
  let items ← many do
    space
    if (← peek?) == some ']' then return none
    let item ← value
    space
    if ← eat ',' then return some item
    if (← peek?) == some ']' then return some item else fail
  space
  sign ']'
  return .array items

/-- A name with its value in a table in braces. -/
def member (value : Scan Item) : Scan (Key × Item) := do
  let k ← key
  sign '='
  blanks
  let v ← value
  blanks
  return (k, v)

/-- A table in braces, behind its brace. -/
def bracedTable (value : Scan Item) : Scan Item := do
  skip 1
  blanks
  if ← eat '\x7d' then return .table .braces []
  let first ← member value
  let rest ← many do
    if ← eat ',' then some <$> member value else return none
  sign '\x7d'
  match (first :: rest).foldlM
    (fun fields m => Fields.insert m.1 m.2 .braces fields) [] with
  | some fields => return .table .braces fields
  | none => fail

/-- A value with so many brackets around its parts, at most. -/
def valueWithin : Nat → Scan Item
  | 0 => scalar
  | depth + 1 => do
    match ← peek? with
    | some '[' => array (valueWithin depth)
    | some '\x7b' => bracedTable (valueWithin depth)
    | _ => scalar

/-- A value. -/
def value : Scan Item :=
  valueWithin (depthLimit - 1)

end NullGuard.Toml
