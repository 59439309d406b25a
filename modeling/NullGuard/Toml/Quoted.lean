import NullGuard.Text.Escape
import NullGuard.Toml.Scan

/-!
# Strings of a settings file

Strings in double quotes have escapes, strings in single quotes have none, and
either kind may span lines when its quotes are threefold. `quote` writes a
string so that it reads back: in single quotes where that saves escapes, in
double quotes otherwise.
-/

namespace NullGuard.Toml

open NullGuard.Text (hexValue? hexNumber)
open Scan

/-- The character of a code that is written with a number of hexadecimal
digits. -/
def escapedCode (digits : Nat) : Scan Char := fun s =>
  let code := s.take digits
  let n := hexNumber code
  if code.length = digits ∧ code.all (fun c => (hexValue? c).isSome) then
    if h : n.isValidChar then some (Char.ofNatAux n h, s.drop digits) else none
  else none

/-- The character of an escape, behind its backslash. -/
def escaped : Scan Char := do
  match ← next with
  | 'b' => return '\x08'
  | 't' => return '\t'
  | 'n' => return '\n'
  | 'f' => return '\x0c'
  | 'r' => return '\r'
  | '"' => return '"'
  | '\\' => return '\\'
  | 'u' => escapedCode 4
  | 'U' => escapedCode 8
  | _ => fail

/-- A character of a string in double quotes; nothing at the closing quote. -/
def basicChar : Scan (Option Char) := do
  match ← peek? with
  | none | some '"' => return none
  | some '\\' => do
    skip 1
    return some (← escaped)
  | some c => if isTextChar c then some <$> next else fail

/-- A string in double quotes on one line. -/
def basicString : Scan String := do
  sign '"'
  let cs ← many basicChar
  sign '"'
  return String.ofList cs

/-- A string in single quotes on one line. -/
def literalString : Scan String := do
  sign '\''
  let cs ← run fun c => isTextChar c && c != '\''
  sign '\''
  return String.ofList cs

/-- Whether the line ends behind the next backslash, blanks aside. -/
def joinsLines : Scan Bool := fun s =>
  let rest := (s.drop 1).dropWhile isBlank
  some (rest.head? == some '\n' || ['\r', '\n'].isPrefixOf rest, s)

/-- Blanks and line ends. -/
def blankLines : Scan Unit := do
  let _ ← many do
    match ← peek? with
    | some '\n' | some '\r' => some <$> newline
    | some c => if isBlank c then some <$> skip 1 else return none
    | none => return none

/-- A piece of a string over several lines; nothing where three quotes come, or
the text ends. Without escapes a backslash stands for itself; otherwise one at
the end of a line joins it with what follows. -/
def linePiece (quote : Char) (hasEscapes : Bool) :
    Scan (Option (List Char)) := do
  match ← peek? with
  | none => return none
  | some c =>
    if c == quote then
      let quotes ← repeats quote
      if quotes < 3 then
        skip quotes
        return some (List.replicate quotes quote)
      else return none
    else if c == '\\' && hasEscapes then
      if ← joinsLines then
        skip 1
        blankLines
        return some []
      else
        skip 1
        return some [← escaped]
    else if c == '\n' || c == '\r' then
      newline
      return some ['\n']
    else if isTextChar c then
      skip 1
      return some [c]
    else fail

/-- A string in threefold quotes. Up to two more quotes before the closing ones
belong to the string, and a line end right behind the opening ones does not. -/
def linesString (quote : Char) (hasEscapes : Bool) : Scan String := do
  skip 3
  match ← peek? with
  | some '\n' | some '\r' => newline
  | _ => pure ()
  let pieces ← many (linePiece quote hasEscapes)
  let quotes ← repeats quote
  if quotes < 3 then fail
  let inside := min quotes 5 - 3
  skip (inside + 3)
  return String.ofList (pieces.flatten ++ List.replicate inside quote)

/-- A string of any kind. -/
def string : Scan String := do
  if ← sees ['"', '"', '"'] then linesString '"' true
  else if ← sees ['\'', '\'', '\''] then linesString '\'' false
  else if (← peek?) == some '"' then basicString
  else literalString

/-- A digit of a code in capitals. -/
def codeDigit (n : Nat) : Char :=
  if n < 10 then Char.ofNat ('0'.toNat + n)
    else Char.ofNat ('A'.toNat + (n - 10))

/-- Whether a character is a control character. -/
def isControl (c : Char) : Bool :=
  c.toNat < 0x20 || c.toNat == 0x7F

/-- A character in double quotes. -/
def escapeChar (c : Char) : List Char :=
  match c with
  | '"' => ['\\', '"']
  | '\\' => ['\\', '\\']
  | '\x08' => ['\\', 'b']
  | '\t' => ['\\', 't']
  | '\n' => ['\\', 'n']
  | '\x0c' => ['\\', 'f']
  | '\r' => ['\\', 'r']
  | c =>
    if isControl c then ['\\', 'u', '0', '0', codeDigit (c.toNat / 16),
      codeDigit (c.toNat % 16)]
    else [c]

/-- Whether single quotes serve a string better: it has something to escape, and
nothing that single quotes cannot hold. -/
def prefersLiteral (s : List Char) : Bool :=
  s.any (fun c => c == '"' || c == '\\') &&
    s.all (fun c => c != '\'' && !isControl c)

/-- A string in quotes. -/
def quote (text : String) : String :=
  let s := text.toList
  if prefersLiteral s then String.ofList ('\'' :: s ++ ['\''])
  else String.ofList ('"' :: s.flatMap escapeChar ++ ['"'])

end NullGuard.Toml
