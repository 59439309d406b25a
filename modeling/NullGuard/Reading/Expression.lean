import NullGuard.Reading.Class
import NullGuard.Reading.Markup

/-!
# Reading expressions

From the loosest rule to the tightest: assignments and arrows, conditionals,
binary operators, unary operators, and operands with what may follow them
(properties, calls, templates). An arrow cannot be told from an expression in
parentheses before its arrow is seen, so its head is tried first.
-/

namespace NullGuard.Reading

open NullGuard.Text NullGuard.Tree

namespace Read

/-- A function expression or declaration, from the word `function`: its name as
a node of its own, and the function. -/
def functionParts (r : Rules) (start : Nat) (isAsync : Bool) :
    Read (Node × Node) := do
  expectWord "function"
  let isGenerator ← eatSign (.binary .mul)
  let n ← if isName (← token) then name else pure .none
  let f ← functionRest r start isAsync isGenerator
  return (n, f)

/-- A template, where its opening quote is the current token. -/
def template (r : Rules) : Read Node := do
  let start ← position
  let (chunks, es) ← templateParts (within (fun c =>
    { c with withoutIn := false, inConditional := false }) r.expression)
  close start (.template chunks) es

/-- A property of an object. -/
def property (r : Rules) : Read Node := do
  let start ← position
  if ← eatSign .ellipsis then
    let e ← r.assignment
    return ← close start .spread [e]
  let lead (w : String) (onLine : Bool) : Read Bool := do
    unless ← atWord w do return false
    let t ← if onLine then do pure ((← nextOnLine).getD .eof) else nextToken
    return beginsKey t || (w == "async" && t == .sign (.binary .mul))
  if ← lead "get" false then
    advance
    let key ← propertyKey r
    return ← within (inFunction false false) do
      expectSign .lparen
      expectSign .rparen
      let t ← resultType? r
      let b ← body r true
      close start .getterProp [key, t, b]
  if ← lead "set" false then
    advance
    let key ← propertyKey r
    return ← within (inFunction false false) do
      expectSign .lparen
      let first ← parameterPattern r true
      let (thisParam, p) ← match first with
        | .node (.bindingIdent "this" _) _ _ => do
          expectSign .comma
          let p ← parameterPattern r false
          pure (first, p)
        | _ => pure (.none, first)
      let _ ← eatSign .comma
      expectSign .rparen
      let _ ← resultType? r
      let b ← body r (isBindingIdent p)
      close start .setterProp [key, thisParam, p, b]
  let isAsync ← if ← lead "async" true then do advance; pure true
    else pure false
  let isGenerator ← eatSign (.binary .mul)
  let keyToken ← token
  let key ← propertyKey r
  let beginsMethod ← match ← token with
    | .sign .lparen => pure true
    | .sign (.binary .less) => hasTypes
    | _ => pure false
  if isAsync || isGenerator || beginsMethod then
    let f ← functionRest r start isAsync isGenerator
    return ← close start .methodProp [key, f]
  if ← eatSign .colon then
    let value ← r.assignment
    return ← close start .keyValue [key, value]
  unless isName keyToken do
    fail (.tokenExpected ":" (← token).label)
  if ← eatSign (.assign .plain) then
    let value ← r.assignment
    return ← close start (.shorthandInit (wordText keyToken)) [value]
  close start (.shorthand (wordText keyToken)) []

/-- An object, from brace to brace. -/
def object (r : Rules) : Read Node := do
  let start ← position
  expectSign .lbrace
  let (props, comma) ← within
    (fun c => { c with withoutIn := false, inConditional := false })
    (commaList .rbrace (property r))
  close start (.object comma) props

/-- A list, from bracket to bracket; a missing item is a hole. -/
def array (r : Rules) : Read Node := do
  let start ← position
  expectSign .lbracket
  let items ← within
    (fun c => { c with withoutIn := false, inConditional := false }) <| many do
    if ← atSign .rbracket then return none
    if ← eatSign .comma then return some (Node.none, true)
    let itemStart ← position
    let item ← if ← eatSign .ellipsis then do
        let e ← r.assignment
        close itemStart .spread [e]
      else r.assignment
    unless ← atSign .rbracket do
      expectSign .comma
      return some (item, true)
    return some (item, false)
  expectSign .rbracket
  close start (.array ((items.getLast?.map (·.2)).getD false)) (items.map (·.1))

/-- An expression in parentheses. -/
def parenthesised (r : Rules) : Read Node := do
  let start ← position
  expectSign .lparen
  let inner ← within
    (fun c => { c with withoutIn := false, inConditional := false }) do
    let innerStart ← position
    let first ← r.assignment
    let rest ← many do
      if ← atSign .rparen then return none
      expectSign .comma
      return some (← r.assignment)
    if rest.isEmpty then return first
    close innerStart .seq (first :: rest)
  expectSign .rparen
  close start .paren [inner]

/-- An operand: a literal, a name, or something in brackets of its own. -/
def primary (r : Rules) : Read Node := do
  let start ← position
  match ← token with
  | .num raw => leaf (.num raw)
  | .bigint raw => leaf (.bigint raw)
  | .str raw value => leaf (.str raw value)
  | .sign (.binary .div) | .sign (.assign .div) => do
    modify fun r => r.rescan Token.regexAt
    match ← token with
    | .regex raw => leaf (.regex raw)
    | _ => fail .unterminatedRegex
  | .sign .backtick => template r
  | .sign .lparen => parenthesised r
  | .sign .lbracket => array r
  | .sign .lbrace => object r
  | .sign (.binary .less) => do
    if ← hasMarkup then r.element false
    else fail .expressionExpected
  | .sign .at => do
    unless ← hasTypes do fail .expressionExpected
    let decs ← decorators r
    expectWord "class"
    let n ← className?
    let c ← classRest r r.operand start decs false
    close start .classExpr [n, c]
  | .word w isEscaped => do
    if isEscaped then
      if w ∈ keywords then fail .expressionExpected
      leaf (.ident w)
    else if w = "function" then do
      let (n, f) ← functionParts r start false
      close start .fnExpr [n, f]
    else if w = "class" then do
      advance
      let n ← className?
      let c ← classRest r r.operand start [] false
      close start .classExpr [n, c]
    else if w = "this" then leaf .this
    else if w = "null" then leaf .null
    else if w = "true" then leaf (.bool true)
    else if w = "false" then leaf (.bool false)
    else if w = "async" && (← nextOnLine) == some (.word "function" false)
      then do
      advance
      let (n, f) ← functionParts r start true
      close start .fnExpr [n, f]
    else if w ∈ keywords then fail .expressionExpected
    else leaf (.ident w)
  | .privateName n => do
    if (← nextToken) == .word "in" false then leaf (.privateName n)
    else fail .expressionExpected
  | _ => fail .expressionExpected

/-- Whether a node belongs to an optional chain, which then goes on. -/
def isOptional : Node → Bool
  | .node (.optMember _) _ _ | .node (.optCall _) _ _ => true
  | .node .nonNull _ [inner] => isOptional inner
  | _ => false

/-- A property access, as part of an optional chain if the object is one. -/
def closeMember (start : Nat) (object property : Node) (optional : Bool) :
    Read Node :=
  if optional || isOptional object
    then close start (.optMember optional) [object, property]
  else match object with
    | .node .super _ _ => close start .superMember [object, property]
    | _ => close start .member [object, property]

/-- A call, as part of an optional chain if the callee is one. -/
def closeCall (start : Nat) (callee args typeArgs : Node) (optional : Bool) :
    Read Node :=
  if optional || isOptional callee
    then close start (.optCall optional) [callee, args, typeArgs]
  else close start .call [callee, args, typeArgs]

/-- Whether a token can begin an expression. -/
def beginsExpression : Token → Bool
  | .word w _ =>
    !(w ∈ keywords) || w ∈ ["class", "delete", "false", "function", "import",
      "new", "null", "super", "this", "true", "typeof", "void"]
  | .num _ | .bigint _ | .str _ _ | .privateName _ => true
  | .sign s =>
    s ∈ [.lparen, .lbracket, .lbrace, .backtick, .bang, .tilde, .increment,
      .decrement, .binary .less, .binary .div, .binary .add, .binary .sub,
      .assign .div, .at]
  | _ => false

/-- Whether the current token can stand behind type arguments that are not
followed by arguments. -/
def canFollowTypeArgs : Read Bool := do
  match ← token with
  | .sign (.binary .less) | .sign (.binary .greater) | .sign (.binary .add)
  | .sign (.binary .sub) => return false
  | .sign (.binary _) | .word "in" _ | .word "instanceof" _ | .word "as" _
  | .word "satisfies" _ => return true
  | t => return (← newLine) || !beginsExpression t

/-- `<types>` behind an operand and what they lead to: a call, a template, or
nothing. -/
def typeApplication (r : Rules) (start : Nat) (n : Node) (withoutCall : Bool) :
    Read Node := do
  let args ← typeArgs r
  if (← atSign .lparen) && !withoutCall then
    let xs ← arguments r
    closeCall start n xs args false
  else if ← atSign .backtick then
    let t ← template r
    close start .tagged [n, args, t]
  else if (← canFollowTypeArgs) && !withoutCall then
    close start .instantiation [n, args]
  else fail .expressionExpected

/-- One thing behind an operand, if there is one. -/
def follow (r : Rules) (start : Nat) (withoutCall : Bool) (n : Node) :
    Read (Option Node) := do
  match ← token with
  | .sign .dot => do
    advance
    let p ← memberName
    return some (← closeMember start n p false)
  | .sign .questionDot => do
    if withoutCall then return none
    advance
    match ← token with
    | .sign .lparen => do
      let xs ← arguments r
      return some (← closeCall start n xs .none true)
    | .sign .lbracket => do
      let p ← computedKey r
      return some (← closeMember start n p true)
    | .sign (.binary .less) => do
      let args ← typeArgs r
      let xs ← arguments r
      return some (← closeCall start n xs args true)
    | _ => do
      let p ← memberName
      return some (← closeMember start n p true)
  | .sign .lbracket => do
    let p ← computedKey r
    return some (← closeMember start n p false)
  | .sign .lparen => do
    if withoutCall then return none
    let xs ← arguments r
    return some (← closeCall start n xs .none false)
  | .sign .backtick => do
    let t ← template r
    return some (← close start .tagged [n, .none, t])
  | .sign .bang => do
    unless (← hasTypes) && !(← newLine) do return none
    advance
    return some (← close start .nonNull [n])
  | .sign (.binary .less) => do
    unless ← hasTypes do return none
    attempt (typeApplication r start n withoutCall)
  | _ => return none

/-- `super`, `import` and `import.meta` as the beginning of an operand. -/
def operandStart (r : Rules) : Read Node := do
  let start ← position
  match ← token with
  | .word "super" false => do
    let s ← leaf .super
    if (← atSign .lparen) || (← atSign .dot) || (← atSign .lbracket)
      then return s
    else fail .expressionExpected
  | .word "import" false => do
    let s ← leaf .importWord
    if ← eatSign .dot then
      expectWord "meta"
      modify fun r => { r with sawModule := true }
      close start (.metaProp "import.meta") []
    else if ← atSign .lparen then return s
    else fail (.tokenExpected "(" (← token).label)
  | _ => primary r

/-- `new callee(arguments)`. The bound limits how many words `new` may follow
each other. -/
def newOperand (r : Rules) : Nat → Read Node
  | 0 => fail .expressionExpected
  | n + 1 => do
    let start ← position
    unless ← atWord "new" do return ← operandStart r
    advance
    if ← eatSign .dot then
      expectWord "target"
      return ← close start (.metaProp "new.target") []
    let calleeStart ← position
    let base ← newOperand r n
    let callee ← grow (follow r calleeStart true) base
    let args ← if (← hasTypes) && (← atSign (.binary .less)) then
        pure (Node.ofOption (← attempt (typeArgs r)))
      else pure .none
    if ← atSign .lparen then
      let xs ← arguments r
      close start .new [callee, xs, args]
    else close start .new [callee, .none, args]

/-- An operand with everything that may follow it. -/
def operandRule (r : Rules) : Read Node := do
  let start ← position
  let base ← newOperand r (← get).bound
  grow (follow r start false) base

/-- The unary operator that a token is, if it is one. -/
def unaryOp? : Token → Option UnaryOp
  | .sign .bang => some .not
  | .sign .tilde => some .bitNot
  | .sign (.binary .add) => some .plus
  | .sign (.binary .sub) => some .minus
  | .word "typeof" false => some .typeOf
  | .word "void" false => some .void
  | .word "delete" false => some .delete
  | _ => none

/-- The update operator that a token is, if it is one. -/
def updateOp? : Token → Option UpdateOp
  | .sign .increment => some .increment
  | .sign .decrement => some .decrement
  | _ => none

/-- Whether the word `await` is an operator here: in an asynchronous function,
and outside all functions in front of an operand. -/
def awaits : Read Bool := do
  unless ← atWord "await" do return false
  let c ← context
  if c.inAsync then return true
  if c.inFunction then return false
  match ← nextOnLine with
  | some t =>
    return beginsExpression t && t != .sign .lparen && t != .sign .lbracket &&
      t != .sign (.binary .add) && t != .sign (.binary .sub) && t !=
      .sign (.binary .div) && t != .sign .backtick
  | none => return false

/-- `<type>value`. -/
def typeAssertion (r : Rules) : Read Node := do
  let start ← position
  expectSign (.binary .less)
  if (← atWord "const") then
    advance
    expectCloseAngle
    let e ← r.unary
    return ← close start .constAssertion [e]
  let t ← r.type
  if ← eatSign (.binary .div) then fail .expressionExpected
  expectCloseAngle
  let e ← r.unary
  close start .typeAssertion [e, t]

/-- An operand with the operators that bind to it alone. -/
def unaryRule (r : Rules) : Read Node := do
  let start ← position
  let t ← token
  if let some op := unaryOp? t then
    advance
    let e ← r.unary
    if op = .delete then
      match e with
      | .node (.ident _) _ _ => noteStrict .deleteOfName (← spanOf e)
      | _ => pure ()
    return ← close start (.unary op) [e]
  if let some op := updateOp? t then
    advance
    let e ← r.unary
    unless isTarget e do failAt .invalidTarget (← spanOf e)
    return ← close start (.update op true) [e]
  if ← awaits then
    unless (← context).inFunction do
      modify fun r => { r with sawModule := true }
    advance
    let e ← r.unary
    return ← close start .await [e]
  if t == .sign (.binary .less) && (← hasTypes) && !(← hasMarkup) then
    return ← typeAssertion r
  let e ← operandRule r
  if let some op := updateOp? (← token) then
    unless ← newLine do
      unless isTarget e do failAt .invalidTarget (← spanOf e)
      advance
      return ← close start (.update op false) [e]
  return e

/-- Powers, which group to the right. -/
def powerRule (r : Rules) : Read Node := do
  let start ← position
  let base ← unaryRule r
  if ← eatSign (.binary .power) then
    let exponent ← r.power
    close start (.binary .power) [base, exponent]
  else return base

/-- The binary operator that the current token is, if it is one here. -/
def binaryOp? : Read (Option BinaryOp) := do
  match ← token with
  | .sign (.binary op) => return some op
  | .word "instanceof" false => return some .instanceOf
  | .word "in" false =>
    return if (← context).withoutIn then none else some .isIn
  | _ => return none

/-- `as type` and `satisfies type` behind a value. -/
def typedValue? (r : Rules) (start : Nat) (e : Node) : Read (Option Node) := do
  unless (← hasTypes) && !(← newLine) do return none
  if ← eatWord "as" then
    if (← atWord "const") then
      advance
      return some (← close start .constAssertion [e])
    let t ← r.type
    return some (← close start .asType [e, t])
  if ← eatWord "satisfies" then
    let t ← r.type
    return some (← close start .satisfies [e, t])
  return none

/-- The binary operators of a level and of all tighter levels. The argument
counts the levels from the tightest, so that level `n` holds the operators of
precedence `11 - n`. -/
def binaryLevels (r : Rules) : Nat → Read Node
  | 0 => powerRule r
  | n + 1 => do
    let start ← position
    let first ← binaryLevels r n
    grow (fun e => do
      let precedence := 10 - n
      if let some op ← binaryOp? then
        if op.precedence = precedence then
          advance
          let right ← binaryLevels r n
          return some (← close start (.binary op) [e, right])
      if precedence = 7 then typedValue? r start e
      else return none) first

/-- `test ? yes : no`, or less. -/
def conditional (r : Rules) : Read Node := do
  let start ← position
  let test ← binaryLevels r 10
  if ← eatSign .question then
    let yes ← within (fun c =>
      { c with withoutIn := false, inConditional := true }) r.assignment
    expectSign .colon
    let no ← r.assignment
    close start .cond [test, yes, no]
  else return test

/-- What stands before the arrow of a function: type parameters, parameters,
result type. -/
structure ArrowHead where
  typeParams : Node
  params : List Node
  result : Node

/-- The arrow, which has to be on the line of the parameters. -/
def expectArrow : Read Unit := do
  if ← newLine then fail .expressionExpected
  expectSign .arrow

/-- A collecting parameter without an ascription has the span of what it
collects into, where it could have been an argument. -/
def withoutDots : Node → Node
  | .node .restPat _ [inner, .node .absent s ns] =>
    .node .restPat inner.span [inner, .node .absent s ns]
  | n => n

/-- The head of an arrow function with its parameters in parentheses. -/
def arrowHead (r : Rules) : Read ArrowHead := do
  let tps ← typeParams? r
  expectSign .lparen
  let (ps, _) ← within
    (fun c => { c with withoutIn := false, inConditional := false })
    (commaList .rparen (parameterPattern r false))
  let result ← resultType? r
  expectArrow
  return ⟨tps, if tps.isNone then ps.map withoutDots else ps, result⟩

/-- The head of an arrow function with a single name as its parameter. -/
def shortArrowHead : Read ArrowHead := do
  let p ← named (fun x => .bindingIdent x false)
  let p := match p with
    | .node k s _ => Node.node k s [.none]
  expectArrow
  return ⟨.none, [p], .none⟩

/-- The rest of an arrow function behind its arrow. -/
def arrowRest (r : Rules) (start : Nat) (isAsync : Bool) (head : ArrowHead) :
    Read Node := do
  let outer ← context
  let b ← if ← atSign .lbrace then
      within (inFunction isAsync false)
        (body r (arePlain (.ofList head.params)))
    else
      within (fun c => { inFunction isAsync false c with
          withoutIn := outer.withoutIn, inConditional := outer.inConditional,
          inFunction := outer.inFunction || isAsync })
        r.assignment
  close start (.arrow isAsync) [.ofList head.params, b, head.typeParams,
    head.result]

/-- Whether angle brackets can begin an arrow function: where markup is possible
too, only if a comma or a bound shows that they hold a type parameter. -/
def angleBeginsArrow : Read Bool := do
  unless ← hasTypes do return false
  unless ← hasMarkup do return true
  sees do
    advance
    let _ ← name
    return (← atSign .comma) || (← atWord "extends") ||
      (← atSign (.assign .plain))

/-- The head of an arrow function, if one begins here, and whether it is
asynchronous. -/
def arrowHead? (r : Rules) : Read (Option (Bool × ArrowHead)) := do
  let plain (p : Read ArrowHead) : Read (Option (Bool × ArrowHead)) := do
    return (← attempt p).map (false, ·)
  let async (p : Read ArrowHead) : Read (Option (Bool × ArrowHead)) := do
    return (← attempt do advance; p).map (true, ·)
  match ← token with
  | .sign .lparen => plain (arrowHead r)
  | .sign (.binary .less) =>
    if ← angleBeginsArrow then plain (arrowHead r) else return none
  | .word w isEscaped => do
    if w ∈ keywords then return none
    if (← nextToken) == .sign .arrow then return ← plain shortArrowHead
    if w = "async" && !isEscaped then
      match ← nextOnLine with
      | some (.word _ _) => async shortArrowHead
      | some (.sign .lparen) => async (arrowHead r)
      | some (.sign (.binary .less)) =>
        if ← hasTypes then async (arrowHead r) else return none
      | _ => return none
    else return none
  | _ => return none

/-- An arrow function, if one begins here. Between the signs of a conditional, a
result type is one only if the conditional's colon is still to come. -/
def arrow? (r : Rules) : Read (Option Node) := do
  let start ← position
  let whole : Read (Option (Node × Bool)) := do
    match ← arrowHead? r with
    | some (isAsync, head) => do
      let n ← arrowRest r start isAsync head
      return some (n, !head.result.isNone)
    | none => return none
  if (← context).inConditional && (← hasTypes) then
    let head ← lookahead (arrowHead? r)
    match head.join with
    | some (_, head) =>
      if head.result.isNone then return (← whole).map (·.1)
      let answer ← attempt do
        let n ← whole
        unless ← atSign .colon do fail .expressionExpected
        return n.map (·.1)
      return answer.join
    | none => return none
  else return (← whole).map (·.1)

/-- `yield value` and `yield* value`. -/
def yieldExpression (r : Rules) : Read Node := do
  let start ← position
  advance
  if ← newLine then return ← close start (.yield false) [.none]
  if ← eatSign (.binary .mul) then
    let e ← r.assignment
    return ← close start (.yield true) [e]
  if beginsExpression (← token) then
    let e ← r.assignment
    close start (.yield false) [e]
  else close start (.yield false) [.none]

/-- An expression without a comma at its top. -/
def assignmentRule (r : Rules) : Read Node := do
  let start ← position
  if (← context).inGenerator && (← atWord "yield")
    then return ← yieldExpression r
  if let some a ← arrow? r then return a
  let left ← conditional r
  match ← token with
  | .sign (.assign op) => do
    let target ← assignable op left
    advance
    let value ← r.assignment
    close start (.assign op) [target, value]
  | _ => return left

/-- An expression, commas included. -/
def expressionRule (r : Rules) : Read Node := do
  let start ← position
  let first ← assignmentRule r
  let rest ← many do
    unless ← eatSign .comma do return none
    return some (← assignmentRule r)
  if rest.isEmpty then return first
  close start .seq (first :: rest)

end Read

end NullGuard.Reading
