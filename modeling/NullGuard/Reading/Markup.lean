import NullGuard.Reading.Type

/-!
# Reading markup

Elements that are written as tags inside an expression. Between tags the text
counts as it stands, so after a tag that has contents the reader moves on by
characters instead of tokens, and only a brace or another tag brings it back to
tokens.
-/

namespace NullGuard.Reading

open NullGuard.Text NullGuard.Tree

namespace Read

/-- The last character of a tag, which has to be there. `inside` tells whether
text follows. -/
def closeTag (inside : Bool) : Read Unit := do
  unless ← atCloseAngle do
    fail (.tokenExpected ">" (← token).label)
  modify fun r =>
    let r := r.splitSign (.binary .greater)
    if inside then r.nextBy Token.markupTextAt else r.next

/-- A word inside a tag, which may contain hyphens. -/
def markupWord : Read String := do
  unless isWord (← token) do fail .nameExpected
  modify fun r => r.rescan Token.markupNameAt
  let w := wordText (← token)
  advance
  return w

/-- The name of an element. -/
def elementName : Read Node := do
  let start ← position
  let first ← markupWord
  if ← eatSign .colon then
    let second ← markupWord
    close start (.markup (.spaced first second)) []
  else
    let n ← close start (.markup (.name first)) []
    grow (fun n => do
      unless ← eatSign .dot do return none
      let p ← propName
      return some (← close start (.markup .member) [n, p])) n

/-- `{expression}` or `{}`, where `finish` moves past the closing brace. -/
def container (r : Rules) (finish : Read Unit) : Read Node := do
  let start ← position
  expectSign .lbrace
  if ← atSign .rbrace then
    let empty : Node := .node (.markup .empty) (some ⟨← lastEnd, ← position⟩) []
    let stop := (← get).after.pos
    finish
    return .node (.markup .container) (some ⟨start, stop⟩) [empty]
  let isSpread ← eatSign .ellipsis
  let e ← within (fun c =>
    { c with withoutIn := false, inConditional := false }) r.expression
  unless ← atSign .rbrace do
    fail (.tokenExpected (Sign.text .rbrace) (← token).label)
  let stop := (← get).after.pos
  finish
  return .node (.markup (if isSpread then .spread else .container))
    (some ⟨start, stop⟩) [e]

/-- An attribute of an element. -/
def elementAttribute (r : Rules) : Read Node := do
  let start ← position
  if ← eatSign .lbrace then
    expectSign .ellipsis
    let e ← r.assignment
    expectSign .rbrace
    return ← close start .spread [e]
  let first ← markupWord
  let name ← if ← eatSign .colon then do
      let second ← markupWord
      close start (.markup (.spaced first second)) []
    else close start (.propName first) []
  let value ← if ← atSign (.assign .plain) then do
      modify fun r => r.nextTokenBy Token.attributeAt
      match ← token with
      | .str raw value => leaf (.str raw value)
      | .sign .lbrace => container r advance
      | .sign (.binary .less) => r.element false
      | _ => fail .expressionExpected
    else pure .none
  close start (.markup .attribute) [name, value]

/-- What stands between tags, up to the tag that closes the element. -/
def contents (r : Rules) : Read (List Node) := do
  let found ← many do
    match ← token with
    | .markupText raw => do
      let s := (← get).span
      modify fun r => r.nextBy Token.scan
      return some [Node.node (.markup (.text raw)) (some s) []]
    | .sign .lbrace => do
      let n ← container r (modify fun r => r.nextBy Token.markupTextAt)
      return some [n]
    | .sign (.binary .less) => do
      if (← nextToken) == .sign (.binary .div) then return none
      return some [← r.element true]
    | _ => fail (.tokenExpected "</" (← token).label)
  return found.flatten.filter fun n => n.kind != .markup (.text "")

/-- An element or fragment. `inside` tells whether it stands between tags
itself. -/
def elementRule (r : Rules) (inside : Bool) : Read Node := do
  let start ← position
  expectSign (.binary .less)
  if ← atCloseAngle then
    closeTag true
    let kids ← contents r
    expectSign (.binary .less)
    expectSign (.binary .div)
    let stop := (← get).start.pos + 1
    closeTag inside
    return .node (.markup .fragment) (some ⟨start, stop⟩) kids
  let name ← elementName
  let args ← typeArgs? r
  let attrs ← many do
    if (← atCloseAngle) || (← atSign (.binary .div)) then return none
    unless isWord (← token) || (← atSign .lbrace) do
      fail (.tokenExpected ">" (← token).label)
    return some (← elementAttribute r)
  if ← eatSign (.binary .div) then
    let stop := (← get).start.pos + 1
    closeTag inside
    let opening : Node :=
      .node (.markup (.opening true)) (some ⟨start, stop⟩)
        [name, .ofList attrs, args]
    return .node (.markup .element) (some ⟨start, stop⟩)
      [opening, .ofList [], .none]
  let stop := (← get).start.pos + 1
  closeTag true
  let opening : Node :=
    .node (.markup (.opening false)) (some ⟨start, stop⟩)
      [name, .ofList attrs, args]
  let kids ← contents r
  let closeStart ← position
  expectSign (.binary .less)
  expectSign (.binary .div)
  let closeName ← elementName
  let stop := (← get).start.pos + 1
  closeTag inside
  let closing : Node :=
    .node (.markup .closing) (some ⟨closeStart, stop⟩) [closeName]
  return .node (.markup .element) (some ⟨start, stop⟩)
    [opening, .ofList kids, closing]

end Read

end NullGuard.Reading
