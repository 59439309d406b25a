import NullGuard.Text.Letters
import NullGuard.Text.Blank
import NullGuard.Text.Escape
import NullGuard.Tree.Operator
import NullGuard.Reading.Fault

/-!
# Tokens: the words and signs of a source text

`Token.scan` reads the token at the start of a list of characters and says how
many characters it takes. Three kinds of text cannot be told from their first
character and are scanned on request: a regular expression (`Token.regexAt`), a
piece of a template (`Token.chunkAt`) and the text between two tags
(`Token.markupTextAt`). Scanning never fails; what is no token becomes
`Token.bad`, so that only a reader that needs the token has to complain.
-/

namespace NullGuard.Reading

open NullGuard.Text NullGuard.Tree

/-- The punctuation of a program. -/
inductive Sign where
  | lparen | rparen | lbracket | rbracket | lbrace | rbrace
  | dot | ellipsis | semi | comma | colon | question | questionDot | arrow
      | at | backtick
  | bang | tilde | increment | decrement
  | binary (op : BinaryOp)
  | assign (op : AssignOp)
deriving DecidableEq, Repr

/-- The spelling of a sign. -/
def Sign.text : Sign → String
  | lparen => "(" | rparen => ")" | lbracket => "[" | rbracket => "]"
  | lbrace => "\x7b" | rbrace => "\x7d"
  | dot =>
    "." | ellipsis => "..." | semi => ";" | comma => "," | colon =>
      ":" | question => "?"
  | questionDot => "?." | arrow => "=>" | «at» => "@" | backtick => "\x60"
  | bang => "!" | tilde => "~" | increment => "++" | decrement => "--"
  | binary op => op.text
  | assign op => op.text

/-- All signs, longer ones first, so that the first that fits is the longest
that fits. -/
def Sign.all : List Sign :=
  [.assign .shiftRightZero, .ellipsis, .assign .power, .assign .shiftLeft,
    .assign .shiftRight, .assign .and, .assign .or, .assign .coalesce,
    .binary .strictEq, .binary .strictNotEq, .binary .shiftRightZero,
    .questionDot, .arrow, .increment, .decrement, .binary .eq, .binary .notEq,
    .binary .lessEq, .binary .greaterEq, .binary .shiftLeft, .binary
    .shiftRight, .binary .or, .binary .and, .binary .power, .binary .coalesce,
    .assign .add, .assign .sub, .assign .mul, .assign .div, .assign .mod,
    .assign .bitOr, .assign .bitXor, .assign .bitAnd, .lparen, .rparen,
    .lbracket, .rbracket, .lbrace, .rbrace, .dot, .semi, .comma, .colon,
    .question, .at, .backtick, .bang, .tilde, .binary .less, .binary .greater,
    .binary .add, .binary .sub, .binary .mul, .binary .div, .binary .mod,
    .binary .bitOr, .binary .bitXor, .binary .bitAnd, .assign .plain]

/-- The longest sign at the start of a text. `?.` before a digit is a question
mark before a number. -/
def Sign.find? (cs : List Char) : Option Sign :=
  all.find? fun s => s.text.toList.isPrefixOf cs &&
    !(s == .questionDot && (cs[2]?.map isAsciiDigit).getD false)

/-- A word or sign of a source text. -/
inductive Token where
  | eof
  /-- A name or keyword, and whether it was written with an escape. -/
  | word (name : String) (isEscaped : Bool)
  | privateName (name : String)
  | num (raw : String)
  | bigint (raw : String)
  | str (raw : String) (value : Option String)
  | regex (raw : String)
  | sign (s : Sign)
  /-- A piece of a template, up to the next `$` and brace or, if it is the last,
  to the end. -/
  | chunk (raw : String) (isLast : Bool)
  /-- Text between two tags. -/
  | markupText (raw : String)
  /-- What cannot be read as a token. -/
  | bad (cause : Cause)
deriving DecidableEq, Repr, Inhabited

/-- The words that can never be names. -/
def keywords : List String :=
  ["break", "case", "catch", "class", "const", "continue", "debugger",
    "default", "delete", "do", "else", "enum", "export", "extends", "false",
    "finally", "for", "function", "if", "import", "in", "instanceof", "new",
    "null", "return", "super", "switch", "this", "throw", "true", "try",
    "typeof", "var", "void", "while", "with"]

/-- The words that take a comment on their line as the next token's: all
keywords, and the three that are keywords in places. -/
def leadingWords : List String :=
  ["await", "let", "yield"] ++ keywords

namespace Token

/-- What a message calls a token. -/
def label : Token → String
  | eof => "<eof>"
  | word name _ => if name ∈ leadingWords then name else "ident"
  | privateName _ => "#"
  | num _ => "numeric literal"
  | bigint _ => "bigint literal"
  | str _ _ => "string literal"
  | regex _ => "regexp literal"
  | sign s => s.text
  | chunk _ _ => "template token"
  | markupText _ => "jsx text"
  | bad _ => "<error>"

/-- Whether a block comment on the line behind the token belongs to it. -/
def takesBlockComment : Token → Bool
  | word name _ => !(name ∈ leadingWords)
  | num _ | bigint _ | str _ _ | regex _ | markupText _ => true
  | sign .lbrace | sign .rbrace | sign .semi => true
  | chunk _ isLast => !isLast
  | _ => false

/-- Whether a line comment on the line behind the token belongs to it. -/
def takesLineComment : Token → Bool
  | sign (.binary _) => false
  | _ => true

/-- The characters of a name, escapes included. `inBraces` tells whether an
escape with braces is open. -/
def nameRun (inBraces : Bool) : List Char → List Char
  | [] => []
  | '\\' :: 'u' :: '{' :: r => '\\' :: 'u' :: '{' :: nameRun true r
  | '\\' :: 'u' :: r => '\\' :: 'u' :: nameRun inBraces r
  | c :: r =>
    if inBraces then c :: nameRun (c != '}') r
    else if isNamePart c then c :: nameRun false r
    else []

/-- The characters of a string up to its closing quote, or nothing if it does
not close. -/
def stringRun (quote : Char) : List Char → Option (List Char)
  | [] => none
  | '\\' :: c :: r => (stringRun quote r).map ('\\' :: c :: ·)
  | c :: r =>
    if c = quote then some []
    else if c = '\n' ∨ c = '\r' then none
    else (stringRun quote r).map (c :: ·)

/-- The characters of a regular expression up to its closing slash; a slash
inside a class does not close it. -/
def regexRun (inClass : Bool) : List Char → Option (List Char)
  | [] => none
  | '\\' :: c :: r =>
    if isLineBreak c then none else (regexRun inClass r).map ('\\' :: c :: ·)
  | c :: r =>
    if isLineBreak c then none
    else if c = '/' ∧ inClass = false then some []
    else (regexRun (if c = '[' then true else if c = ']' then false
      else inClass) r).map (c :: ·)

/-- The characters of a template up to its end (`true`) or to a substitution
(`false`). -/
def chunkRun : List Char → Option (List Char × Bool)
  | [] => none
  | '\\' :: c :: r => (chunkRun r).map fun (cs, e) => ('\\' :: c :: cs, e)
  | '$' :: '{' :: _ => some ([], false)
  | c :: r => if c.toNat = 0x60 then some ([], true)
    else (chunkRun r).map fun (cs, e) => (c :: cs, e)

/-- Digits with separators. -/
def digitRun (cs : List Char) : List Char :=
  cs.takeWhile fun c => isAsciiDigit c || c == '_'

/-- The exponent of a number, with its sign, if there is one. -/
def exponentRun : List Char → List Char
  | e :: s :: r =>
    if e = 'e' ∨ e = 'E' then
      if s = '+' ∨ s = '-' then e :: s :: digitRun r
      else if isAsciiDigit s then e :: digitRun (s :: r)
      else []
    else []
  | _ => []

/-- The characters of a number, without the mark of a big one. -/
def numberRun (cs : List Char) : List Char :=
  match cs with
  | '0' :: b :: r =>
    if b.toLower = 'x' ∨ b.toLower = 'o' ∨ b.toLower = 'b' then
      '0' :: b :: r.takeWhile fun c => (hexValue? c).isSome || c == '_'
    else decimal cs
  | _ => decimal cs
where
  /-- Digits, a fraction and an exponent, each of which may be missing. -/
  decimal (cs : List Char) : List Char :=
    let whole := digitRun cs
    let fraction := match cs.drop whole.length with
      | '.' :: r => '.' :: digitRun r
      | _ => []
    let mantissa := whole ++ fraction
    mantissa ++ exponentRun (cs.drop mantissa.length)

/-- The token at the start of a text, and the characters it takes. -/
def scan (cs : List Char) : Token × List Char :=
  match cs with
  | [] => (eof, [])
  | '#' :: r =>
    let name := nameRun false r
    if name.isEmpty then (bad (.unexpectedCharacter '#'), ['#'])
    else (privateName (String.ofList name), '#' :: name)
  | c :: r =>
    if c = '"' ∨ c = '\'' then
      match stringRun c r with
      | some body =>
        let raw := c :: (body ++ [c])
        (str (String.ofList raw) (bodyValue? body), raw)
      | none => (bad .unterminatedString, c :: r)
    else if isAsciiDigit c ||
      (c == '.' && (r.head?.map isAsciiDigit).getD false) then
      let raw := numberRun cs
      match cs.drop raw.length with
      | 'n' :: _ => (bigint (String.ofList (raw ++ ['n'])), raw ++ ['n'])
      | _ => (num (String.ofList raw), raw)
    else if isNameStart c || c == '\\' then
      let raw := nameRun false cs
      if raw.contains '\\' then
        (word ((bodyValue? raw).getD (String.ofList raw)) true, raw)
      else (word (String.ofList raw) false, raw)
    else match Sign.find? cs with
      | some s => (sign s, s.text.toList)
      | none => (bad (.unexpectedCharacter c), [c])

/-- The regular expression at the start of a text. -/
def regexAt (cs : List Char) : Token × List Char :=
  match cs with
  | '/' :: r =>
    match regexRun false r with
    | some body =>
      let flags := (r.drop (body.length + 1)).takeWhile isNamePart
      let raw := '/' :: (body ++ '/' :: flags)
      (regex (String.ofList raw), raw)
    | none => (bad .unterminatedRegex, cs.takeWhile fun c => !isLineBreak c)
  | _ => (bad .unterminatedRegex, [])

/-- The piece of a template at the start of a text, with the mark that ends
it. -/
def chunkAt (cs : List Char) : Token × List Char :=
  match chunkRun cs with
  | some (body, true) =>
    (chunk (String.ofList body) true, body ++ [Char.ofNat 0x60])
  | some (body, false) => (chunk (String.ofList body) false, body ++ ['$', '{'])
  | none => (bad .unterminatedTemplate, cs)

/-- The text between tags at the start of a text, which may be empty. -/
def markupTextAt (cs : List Char) : Token × List Char :=
  let body := cs.takeWhile fun c => c != '{' && c != '<'
  (markupText (String.ofList body), body)

/-- A name inside a tag, which may contain hyphens. -/
def markupNameAt (cs : List Char) : Token × List Char :=
  let body := cs.takeWhile fun c => isNamePart c || c == '-'
  (word (String.ofList body) false, body)

/-- The value of an attribute at the start of a text: a string without escapes,
or any token. -/
def attributeAt (cs : List Char) : Token × List Char :=
  match cs with
  | c :: r =>
    if c = '"' ∨ c = '\'' then
      let body := r.takeWhile (· != c)
      if body.length = r.length then (bad .unterminatedString, cs)
      else
        let raw := c :: (body ++ [c])
        (str (String.ofList raw) (some (String.ofList body)), raw)
    else scan cs
  | [] => scan cs

end Token

end NullGuard.Reading
