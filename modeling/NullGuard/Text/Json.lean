/-!
# Writing JSON

A value is written either on one line without spaces, or with two spaces of
indentation per level. The fields of an object are written in the order in which
they are given.
-/

namespace NullGuard.Text

/-- A JSON value that the program writes. -/
inductive Json where
  | null
  | bool (value : Bool)
  | nat (value : Nat)
  | str (value : String)
  | array (items : List Json)
  | object (fields : List (String × Json))

namespace Json

/-- A string, or nothing. -/
def ofString? : Option String → Json
  | some s => str s
  | none => null

/-- The hexadecimal digit of a number below sixteen. -/
def hexDigit (n : Nat) : Char :=
  if n < 10 then Char.ofNat ('0'.toNat + n)
    else Char.ofNat ('a'.toNat + (n - 10))

/-- A character inside a string: quotes, backslashes and controls are
escaped. -/
def escapeChar (c : Char) : List Char :=
  match c with
  | '"' => ['\\', '"']
  | '\\' => ['\\', '\\']
  | '\x08' => ['\\', 'b']
  | '\t' => ['\\', 't']
  | '\n' => ['\\', 'n']
  | '\x0c' => ['\\', 'f']
  | '\r' => ['\\', 'r']
  | c =>
    if c.toNat < 32 then
      ['\\', 'u', '0', '0', hexDigit (c.toNat / 16), hexDigit (c.toNat % 16)]
    else [c]

/-- A string in quotes. -/
def quote (s : String) : String :=
  String.ofList ('"' :: s.toList.flatMap escapeChar ++ ['"'])

/-- Texts with a separator between them. -/
def separated (sep : String) : List String → String
  | [] => ""
  | [s] => s
  | s :: rest => s ++ sep ++ separated sep rest

mutual

/-- A value on one line. -/
def compact : Json → String
  | null => "null"
  | bool true => "true"
  | bool false => "false"
  | nat n => toString n
  | str s => quote s
  | array items => "[" ++ separated "," (compactItems items) ++ "]"
  | object fields => "\x7b" ++ separated "," (compactFields fields) ++ "\x7d"

/-- The items of an array, each on one line. -/
def compactItems : List Json → List String
  | [] => []
  | v :: vs => compact v :: compactItems vs

/-- The fields of an object, each on one line. -/
def compactFields : List (String × Json) → List String
  | [] => []
  | (key, v) :: rest => (quote key ++ ":" ++ compact v) :: compactFields rest

end

/-- The start of a line at a depth. -/
def lineStart (depth : Nat) : String :=
  "\n" ++ String.ofList (List.replicate (2 * depth) ' ')

/-- Items in brackets, each on a line of its own; without items only the
brackets. -/
def broken (depth : Nat) (opening closing : String) (items : List String) :
    String :=
  if items.isEmpty then opening ++ closing
  else
    opening ++ lineStart (depth + 1) ++ separated
      ("," ++ lineStart (depth + 1)) items ++ lineStart depth ++ closing

mutual

/-- A value over several lines, in a line at a depth. -/
def prettyAt (depth : Nat) : Json → String
  | array items => broken depth "[" "]" (prettyItems (depth + 1) items)
  | object fields =>
    broken depth "\x7b" "\x7d" (prettyFields (depth + 1) fields)
  | null => "null"
  | bool true => "true"
  | bool false => "false"
  | nat n => toString n
  | str s => quote s

/-- The items of an array. -/
def prettyItems (depth : Nat) : List Json → List String
  | [] => []
  | v :: vs => prettyAt depth v :: prettyItems depth vs

/-- The fields of an object. -/
def prettyFields (depth : Nat) : List (String × Json) → List String
  | [] => []
  | (key, v) :: rest =>
    (quote key ++ ": " ++ prettyAt depth v) :: prettyFields depth rest

end

/-- A value over several lines. -/
def pretty (v : Json) : String :=
  prettyAt 0 v

end Json

end NullGuard.Text
