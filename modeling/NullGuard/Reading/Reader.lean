import NullGuard.Tree.Comment
import NullGuard.Tree.Node
import NullGuard.Reading.Dialect
import NullGuard.Reading.Token

/-!
# The reader: a position in a source text

A `Reader` stands at a token and knows the text behind it, what has been read of
the comments, and where it is in the program (inside a function, a loop, strict
code). A `Read` is a computation on a reader that may fail with a fault; since a
reader is a plain value, trying a reading and going back when it fails costs
nothing (`attempt`).

Comments are settled when the reader moves on: a comment on the line of the
token before it belongs to that token if the token takes it, and to the next
token otherwise; behind the last token all comments belong to that token.
-/

namespace NullGuard.Reading

open NullGuard.Text NullGuard.Tree

/-- Where in the program the reader is. -/
structure Context where
  isStrict : Bool := false
  inFunction : Bool := false
  inAsync : Bool := false
  inGenerator : Bool := false
  inClassField : Bool := false
  /-- Whether `in` is left to the head of a `for` loop. -/
  withoutIn : Bool := false
  /-- Whether the reader is between the two signs of a conditional. -/
  inConditional : Bool := false
  /-- Whether declarations only announce what is defined elsewhere. -/
  isAmbient : Bool := false
  /-- Whether `extends` behind a type belongs to an enclosing conditional
  type. -/
  withoutConditionalTypes : Bool := false
  canBreak : Bool := false
  canContinue : Bool := false
  labels : List String := []
deriving Inhabited

/-- A position in a source text. -/
structure Reader where
  dialect : Dialect
  /-- More steps than any repetition can take. -/
  bound : Nat
  /-- The start of the current token. -/
  start : Cursor
  token : Token
  /-- The text behind the current token. -/
  after : Cursor
  /-- Whether a line break precedes the current token. -/
  newLine : Bool
  /-- The end of the token before the current one. -/
  lastEnd : Nat
  context : Context := {}
  comments : CommentMap := {}
  /-- What was noted so far, last first. -/
  faults : List Fault := []
  /-- What is a fault only if the program turns out to be a module, last
  first. -/
  moduleFaults : List Fault := []
  /-- Whether something was read that only a module may contain. -/
  sawModule : Bool := false

namespace Reader

/-- The span of the current token. -/
def span (r : Reader) : Span :=
  ⟨r.start.pos, r.after.pos⟩

/-- What stands between two tokens: comments, each with whether a line break
precedes it and whether a semicolon follows it, and the text behind. -/
structure Gap where
  comments : List (Comment × Bool × Bool)
  newLine : Bool
  next : Cursor
  isOpen : Bool

/-- The body of a block comment and the text behind it, if the comment ends. -/
def blockBody : List Char → Option (List Char × List Char)
  | [] => none
  | '*' :: '/' :: r => some ([], r)
  | c :: r => (blockBody r).map fun (body, rest) => (c :: body, rest)

/-- The line comment of `mark` characters at a position. -/
def lineComment (c : Cursor) (mark : Nat) : Comment × Cursor :=
  let inside := c.skip mark
  let (body, next) := inside.takeWhile fun x => !isLineBreak x
  (⟨false, String.ofList body, ⟨c.pos, next.pos⟩, true⟩, next)

/-- Reads the gap at a position. The first argument bounds the number of steps;
the length of the text is enough. -/
def gapSteps : Nat → Cursor → Bool → List (Comment × Bool × Bool) → Gap
  | 0, c, newLine, found => ⟨found.reverse, newLine, c, false⟩
  | n + 1, c, newLine, found =>
    match c.rest with
    | [] => ⟨found.reverse, newLine, c, false⟩
    | '/' :: '*' :: body =>
      match blockBody body with
      | none => ⟨found.reverse, newLine, c, true⟩
      | some (text, rest) =>
        let next : Cursor := ⟨rest, c.pos + 4 + byteLength text⟩
        let endsLine :=
          ((rest.dropWhile isSourceBlank).head?.map isLineBreak).getD false
        let comment : Comment :=
          ⟨true, String.ofList text, ⟨c.pos, next.pos⟩, endsLine⟩
        let beforeSemi :=
          (rest.dropWhile fun x => isSourceBlank x || isLineBreak x).head? ==
            some ';'
        gapSteps n next (newLine || text.any isLineBreak)
          ((comment, newLine, beforeSemi) :: found)
    | x :: _ =>
      if isSourceBlank x then gapSteps n (c.skip 1) newLine found
      else if isLineBreak x then gapSteps n (c.skip 1) true found
      else if c.startsWith "//" then
        let (comment, next) := lineComment c 2
        gapSteps n next newLine ((comment, newLine, false) :: found)
      else if c.startsWith "<!--" then
        let (comment, next) := lineComment c 4
        gapSteps n next newLine ((comment, newLine, false) :: found)
      else if newLine && c.startsWith "-->" then
        let (comment, next) := lineComment c 3
        gapSteps n next newLine ((comment, newLine, false) :: found)
      else ⟨found.reverse, newLine, c, false⟩

/-- The gap at a position. `newLine` tells whether the position counts as a new
line already. -/
def gapAt (c : Cursor) (newLine : Bool) : Gap :=
  gapSteps (c.rest.length + 1) c newLine []

/-- Whether a comment goes to the next token. -/
def isForNext (before : Token) (entry : Comment × Bool × Bool) : Bool :=
  let (comment, newLine, beforeSemi) := entry
  if comment.isBlock then (newLine || !before.takesBlockComment) && !beforeSemi
  else newLine || !before.takesLineComment

/-- Attaches the comments of a gap. `isEnd` tells whether the text ends behind
the gap. -/
def settle (m : CommentMap) (before : Token) (lastEnd : Nat) (gap : Gap)
    (isEnd isFirst : Bool) : CommentMap :=
  gap.comments.foldl
    (fun m entry =>
      if isForNext before entry && (isFirst || !isEnd) then
        m.addLeading (if isEnd then lastEnd else gap.next.pos) entry.1
      else m.addTrailing lastEnd entry.1)
    m

/-- Moves to a token that was scanned at a position. -/
def moveTo (r : Reader) (start : Cursor) (scanned : Token × List Char)
    (newLine : Bool) (lastEnd : Nat) (comments : CommentMap) : Reader :=
  { r with
    start, token := scanned.1, after := start.skip scanned.2.length, newLine,
      lastEnd, comments }

/-- Moves to the next token. -/
def next (r : Reader) : Reader :=
  let gap := gapAt r.after false
  let scanned :=
    if gap.isOpen then (Token.bad .unterminatedComment, gap.next.rest)
    else Token.scan gap.next.rest
  let comments :=
    settle r.comments r.token r.after.pos gap (scanned.1 == .eof) false
  r.moveTo gap.next scanned gap.newLine r.after.pos comments

/-- Reads the current token again, by another rule. -/
def rescan (r : Reader) (rule : List Char → Token × List Char) : Reader :=
  r.moveTo r.start (rule r.start.rest) r.newLine r.lastEnd r.comments

/-- Moves to the text directly behind the current token, read by a rule. -/
def nextBy (r : Reader) (rule : List Char → Token × List Char) : Reader :=
  r.moveTo r.after (rule r.after.rest) false r.after.pos r.comments

/-- Moves to the token behind a gap, read by a rule. -/
def nextTokenBy (r : Reader) (rule : List Char → Token × List Char) : Reader :=
  (r.next).rescan rule

/-- Keeps only the first character of the current sign, so that `>>` closes one
pair of brackets. -/
def splitSign (r : Reader) (s : Sign) : Reader :=
  { r with token := .sign s, after := r.start.skip s.text.length }

/-- A reader at the first token of a text, and the interpreter line of the text
if it has one. -/
def ofString (dialect : Dialect) (source : String) : Reader × Option String :=
  let cs := source.toList
  let cs := if cs.head?.map Char.toNat == some 0xFEFF then cs.drop 1 else cs
  let start : Cursor := ⟨cs, 0⟩
  let (interpreter, begin) :=
    if start.startsWith "#!" then
      let (line, next) := (start.skip 2).takeWhile fun c => !isLineBreak c
      (some (String.ofList line), next)
    else (none, start)
  let gap := gapAt begin true
  let scanned :=
    if gap.isOpen then (Token.bad .unterminatedComment, gap.next.rest)
    else Token.scan gap.next.rest
  let comments := settle {} .eof 0 gap (scanned.1 == .eof) true
  let reader : Reader :=
    { dialect
      bound := cs.length + 2
      start := gap.next
      token := scanned.1
      after := gap.next.skip scanned.2.length
      newLine := true
      lastEnd := 0
      comments }
  (reader, interpreter)

end Reader

/-- A computation on a reader that may fail. -/
abbrev Read (α : Type) : Type :=
  StateT Reader (Except Fault) α

namespace Read

/-- The current token. -/
def token : Read Token := do
  return (← get).token

/-- The start of the current token. -/
def position : Read Nat := do
  return (← get).start.pos

/-- The end of the token before the current one. -/
def lastEnd : Read Nat := do
  return (← get).lastEnd

/-- Whether the current token begins a line. -/
def newLine : Read Bool := do
  return (← get).newLine

/-- Where the reader is. -/
def context : Read Context := do
  return (← get).context

/-- Whether the program may contain types. -/
def hasTypes : Read Bool := do
  return (← get).dialect.hasTypes

/-- Whether the program may contain markup. -/
def hasMarkup : Read Bool := do
  return (← get).dialect.hasMarkup

/-- Moves to the next token. -/
def advance : Read Unit :=
  modify Reader.next

/-- Fails at a place. -/
def failAt {α : Type} (cause : Cause) (span : Span) : Read α :=
  throw ⟨cause, span⟩

/-- Fails at the current token; a token that could not be read has its own
cause. -/
def fail {α : Type} (cause : Cause) : Read α := do
  let r ← get
  match r.token with
  | .bad own => failAt own r.span
  | _ => failAt cause r.span

/-- Notes a fault and goes on. -/
def note (cause : Cause) (span : Span) : Read Unit :=
  modify fun r => { r with faults := ⟨cause, span⟩ :: r.faults }

/-- Notes a fault of strict code, which sloppy code commits only if it turns out
to be a module. -/
def noteStrict (cause : Cause) (span : Span) : Read Unit :=
  modify fun r =>
    if r.context.isStrict then { r with faults := ⟨cause, span⟩ :: r.faults }
    else { r with moduleFaults := ⟨cause, span⟩ :: r.moduleFaults }

/-- Whether the current token is a certain sign. -/
def atSign (s : Sign) : Read Bool := do
  return (← get).token == .sign s

/-- Whether the current token is a certain word, written without an escape. -/
def atWord (w : String) : Read Bool := do
  return (← get).token == .word w false

/-- Moves past a certain sign, if it is there. -/
def eatSign (s : Sign) : Read Bool := do
  if ← atSign s then
    advance
    return true
  return false

/-- Moves past a certain word, if it is there. -/
def eatWord (w : String) : Read Bool := do
  if ← atWord w then
    advance
    return true
  return false

/-- Moves past a sign that has to be there. -/
def expectSign (s : Sign) : Read Unit := do
  unless ← eatSign s do
    fail (.tokenExpected s.text (← token).label)

/-- Moves past a word that has to be there. -/
def expectWord (w : String) : Read Unit := do
  unless ← eatWord w do
    fail (.tokenExpected w (← token).label)

/-- Runs a reading; if it fails, the reader is where it was. -/
def attempt {α : Type} (p : Read α) : Read (Option α) := fun r =>
  match p r with
  | .ok (a, r') => .ok (some a, r')
  | .error _ => .ok (none, r)

/-- Runs a reading and goes back in any case. -/
def lookahead {α : Type} (p : Read α) : Read (Option α) := fun r =>
  match p r with
  | .ok (a, _) => .ok (some a, r)
  | .error _ => .ok (none, r)

/-- Whether a reading that answers a question succeeds with yes; the reader does
not move. -/
def sees (p : Read Bool) : Read Bool := do
  return (← lookahead p).getD false

/-- Runs a reading in another context and returns to the present one. -/
def within {α : Type} (change : Context → Context) (p : Read α) : Read α := do
  let before ← context
  modify fun r => { r with context := change r.context }
  let a ← p
  modify fun r => { r with context := before }
  return a

/-- A node from a start to the end of the last token. -/
def close (start : Nat) (kind : Kind) (children : List Node) : Read Node := do
  return .node kind (some ⟨start, ← lastEnd⟩) children

/-- A node that takes exactly the current token. -/
def leaf (kind : Kind) : Read Node := do
  let r ← get
  advance
  return .node kind (some r.span) []

/-- Repeats a step until it yields nothing. The bound is never reached when each
step moves on. -/
def repeatSteps {α : Type} (step : Read (Option α)) :
    Nat → List α → Read (List α)
  | 0, found => return found.reverse
  | n + 1, found => do
    match ← step with
    | some a => repeatSteps step n (a :: found)
    | none => return found.reverse

/-- Repeats a step until it yields nothing. -/
def many {α : Type} (step : Read (Option α)) : Read (List α) := do
  repeatSteps step (← get).bound []

/-- Applies a step to its own result until it yields nothing. -/
def growSteps {α : Type} (step : α → Read (Option α)) : Nat → α → Read α
  | 0, a => return a
  | n + 1, a => do
    match ← step a with
    | some b => growSteps step n b
    | none => return a

/-- Applies a step to its own result until it yields nothing. -/
def grow {α : Type} (step : α → Read (Option α)) (a : α) : Read α := do
  growSteps step (← get).bound a

/-- Items up to a closing sign, with commas between them and one allowed behind
the last. Says whether a comma directly precedes the closing sign. -/
def commaList {α : Type} (closing : Sign) (item : Read α) :
    Read (List α × Bool) := do
  let items ← many do
    if ← atSign closing then return none
    let a ← item
    unless ← atSign closing do
      unless ← eatSign .comma do
        fail (.tokenExpected "," (← token).label)
      return some (a, true)
    return some (a, false)
  expectSign closing
  return (items.map (·.1), (items.getLast?.map (·.2)).getD false)

end Read

end NullGuard.Reading
