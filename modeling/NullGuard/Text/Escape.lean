import NullGuard.Text.Span

/-!
# Escapes: what a written string or name means

The body of a string literal is a sequence of characters and backslash escapes.
An escape can name half of a character that takes two UTF-16 units, so
`unescape` gives a list of codes in which such halves may occur, and `ofCodes?`
joins neighbouring halves. A half that stands alone is no character: then the
literal has no value as text.
-/

namespace NullGuard.Text

/-- The value of a hexadecimal digit. -/
def hexValue? (c : Char) : Option Nat :=
  if '0' ≤ c ∧ c ≤ '9' then some (c.toNat - '0'.toNat)
  else if 'a' ≤ c ∧ c ≤ 'f' then some (c.toNat - 'a'.toNat + 10)
  else if 'A' ≤ c ∧ c ≤ 'F' then some (c.toNat - 'A'.toNat + 10)
  else none

/-- The number that a run of hexadecimal digits writes; other characters count
as nothing. -/
def hexNumber (cs : List Char) : Nat :=
  cs.foldl
    (fun n c => match hexValue? c with | some d => 16 * n + d | none => n) 0

/-- The code of a one-letter escape. -/
def letterEscape (c : Char) : Nat :=
  match c with
  | 'n' =>
    10 | 't' => 9 | 'r' => 13 | 'b' => 8 | 'v' => 11 | 'f' => 12 | '0' => 0
  | _ => c.toNat

/-- The codes of a string body, escapes resolved. The first argument bounds the
number of steps; the length of the body is enough. -/
def unescapeSteps : Nat → List Char → List Nat
  | 0, _ => []
  | _, [] => []
  | n + 1, '\\' :: 'u' :: '{' :: r =>
    hexNumber (r.takeWhile (· != '}')) ::
      unescapeSteps n ((r.dropWhile (· != '}')).drop 1)
  | n + 1, '\\' :: 'u' :: r =>
    hexNumber (r.take 4) :: unescapeSteps n (r.drop 4)
  | n + 1, '\\' :: 'x' :: r =>
    hexNumber (r.take 2) :: unescapeSteps n (r.drop 2)
  | n + 1, '\\' :: '\r' :: '\n' :: r => unescapeSteps n r
  | n + 1, '\\' :: c :: r =>
    if c = '\n' ∨ c = '\r' ∨ c.toNat = 0x2028 ∨ c.toNat = 0x2029
      then unescapeSteps n r
    else letterEscape c :: unescapeSteps n r
  | n + 1, c :: r => c.toNat :: unescapeSteps n r

/-- The codes of a string body, escapes resolved. -/
def unescape (body : List Char) : List Nat :=
  unescapeSteps body.length body

/-- The text of a list of codes, where two neighbouring halves make one
character. A lone half, or a code beyond the last character, makes the whole
list no text. -/
def ofCodes? : List Nat → Option (List Char)
  | [] => some []
  | [n] => if h : n.isValidChar then some [Char.ofNatAux n h] else none
  | high :: low :: r =>
    if 0xD800 ≤ high ∧ high < 0xDC00 ∧ 0xDC00 ≤ low ∧ low < 0xE000 then
      (ofCodes? r).map
        (Char.ofNat (0x10000 + (high - 0xD800) * 0x400 + (low - 0xDC00)) :: ·)
    else if h : high.isValidChar then
      (ofCodes? (low :: r)).map (Char.ofNatAux high h :: ·)
    else none

/-- The text that a string body means, if it is text. -/
def bodyValue? (body : List Char) : Option String :=
  (ofCodes? (unescape body)).map String.ofList

end NullGuard.Text
