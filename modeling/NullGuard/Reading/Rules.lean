import NullGuard.Reading.Reader

/-!
# Rules: the grammar that refers to itself

A program is read by mutually recursive rules. Here the recursion is made
explicit: a rule that needs an inner expression, statement or type takes it from
a `Rules` record, and `NullGuard.Reading.rulesAt` ties the record to itself once
for every level of nesting. So each rule is a plain definition, and the depth of
nesting is the only recursion of the grammar.

The readings in this file are those that need no inner rule: names, property
names, ends of statements, and the change of a written expression into a
pattern.
-/

namespace NullGuard.Reading

open NullGuard.Text NullGuard.Tree

/-- The rules that other rules refer to. -/
structure Rules where
  /-- An expression, commas included. -/
  expression : Read Node
  /-- An expression without a comma at its top. -/
  assignment : Read Node
  /-- An expression that an operator can be applied to. -/
  unary : Read Node
  /-- The right side of a power. -/
  power : Read Node
  /-- An operand with the properties, calls and templates behind it. -/
  operand : Read Node
  /-- What a variable can be: a name or a pattern. -/
  binding : Read Node
  type : Read Node
  statement : Read Node
  /-- A statement, or what only a module may have besides. -/
  item : Read Node
  /-- An element of markup; the argument tells whether it stands between tags
  itself. -/
  element : Bool → Read Node

namespace Read

/-- Whether a token can be a name. -/
def isName : Token → Bool
  | .word name _ => !(name ∈ keywords)
  | _ => false

/-- Whether a token is a word of any kind. -/
def isWord : Token → Bool
  | .word _ _ => true
  | _ => false

/-- The text of a word. -/
def wordText : Token → String
  | .word name _ => name
  | _ => ""

/-- A name as a node of a given kind. -/
def named (kind : String → Kind) : Read Node := do
  let t ← token
  if isName t then leaf (kind (wordText t))
  else fail .nameExpected

/-- A name that is neither an expression nor a pattern. -/
def name : Read Node :=
  named .name

/-- A word, keywords included, as a property name. -/
def propName : Read Node := do
  let t ← token
  if isWord t then leaf (.propName (wordText t))
  else fail .nameExpected

/-- A property name behind a dot: a word or a private name. -/
def memberName : Read Node := do
  match ← token with
  | .privateName n => leaf (.privateName n)
  | _ => propName

/-- Whether a statement may end before the current token. -/
def canEndStatement : Read Bool := do
  let t ← token
  return (← newLine) || t == .sign .semi || t == .sign .rbrace || t == .eof

/-- The end of a statement: a semicolon, or a place where one is implied. -/
def endStatement : Read Unit := do
  unless ← eatSign .semi do
    unless ← canEndStatement do
      fail .statementEndExpected

/-- The next token, if it is on the same line. -/
def nextOnLine : Read (Option Token) := do
  let answer ← lookahead do
    advance
    if ← newLine then return none
    return some (← token)
  return answer.join

/-- The next token. -/
def nextToken : Read Token := do
  return (← lookahead do advance; token).getD .eof

/-- Whether the current token closes a pair of angle brackets, alone or as the
first character of a longer sign. -/
def atCloseAngle : Read Bool := do
  match ← token with
  | .sign (.binary .greater) | .sign (.binary .shiftRight)
      | .sign (.binary .shiftRightZero)
  | .sign (.binary .greaterEq) | .sign (.assign .shiftRight)
      | .sign (.assign .shiftRightZero) =>
    return true
  | _ => return false

/-- Moves past a closing angle bracket, which has to be there. -/
def expectCloseAngle : Read Unit := do
  if ← atCloseAngle then
    modify fun r => (r.splitSign (.binary .greater)).next
  else
    fail (.tokenExpected ">" (← token).label)

/-- Items up to a closing angle bracket, with commas between them. -/
def angleList {α : Type} (item : Read α) : Read (List α) := do
  let items ← many do
    if ← atCloseAngle then return none
    let a ← item
    unless ← atCloseAngle do
      expectSign .comma
    return some a
  expectCloseAngle
  return items

/-- Whether an operand can be assigned to. -/
def isTarget : Node → Bool
  | .node (.ident _) _ _ | .node .member _ _ | .node .superMember _ _ => true
  | .node .paren _ [inner] => isTarget inner
  | .node .asType _ [inner, _] | .node .satisfies _ [inner, _]
      | .node .typeAssertion _ [inner, _] =>
    isTarget inner
  | .node .nonNull _ [inner] => isTarget inner
  | .node (.arrayPat _ _) _ _ | .node (.objectPat _ _) _ _ => true
  | _ => false

mutual

/-- A written expression as the pattern that it turns out to be. -/
def toPattern : Node → Node
  | .node (.ident n) s _ => .node (.bindingIdent n false) s [.none]
  | .node (.array comma) s items =>
    .node (.arrayPat comma false) s [.ofList (toPatterns items), .none]
  | .node (.object comma) s props =>
    .node (.objectPat comma false) s [.ofList (toPatterns props), .none]
  | .node .spread s [inner] => .node .restPat s [toPattern inner, .none]
  | .node (.assign .plain) s [target, value] =>
    .node .assignPat s [toPattern target, value]
  | .node .keyValue s [key, value] =>
    .node .keyValuePat s [key, toPattern value]
  | .node (.shorthand n) s _ =>
    .node .shorthandPat s [.node (.bindingIdent n false) s [.none], .none]
  | .node (.shorthandInit n) s [value] =>
    .node .shorthandPat s [.node (.bindingIdent n false)
      (s.map fun p => ⟨p.start, p.start + n.utf8ByteSize⟩) [.none], value]
  | .node .absent s ns => .node .absent s ns
  | .node (.arrayPat c o) s ns => .node (.arrayPat c o) s ns
  | .node (.objectPat c o) s ns => .node (.objectPat c o) s ns
  | n => .node .exprPat n.span [n]

/-- Several expressions as patterns. -/
def toPatterns : List Node → List Node
  | [] => []
  | n :: ns => toPattern n :: toPatterns ns

end

/-- The span of a node, or of the current token if the node has none. -/
def spanOf (n : Node) : Read Span := do
  match n.span with
  | some s => return s
  | none => return (← get).span

/-- The left side of an assignment: lists and objects become patterns, anything
else has to be something that can be assigned to. -/
def assignable (op : AssignOp) (n : Node) : Read Node := do
  match n with
  | .node (.array _) _ _ | .node (.object _) _ _ =>
    if op = .plain then return toPattern n
    else failAt .invalidTarget (← spanOf n)
  | _ =>
    if isTarget n then return n
    else failAt .invalidTarget (← spanOf n)

end Read

end NullGuard.Reading
