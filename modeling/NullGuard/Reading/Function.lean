import NullGuard.Reading.Type

/-!
# Reading functions

Parameters, bodies and the pieces around them (decorators, arguments, property
keys), which function declarations, methods, accessors and arrows share. A body
is read in the context of its function: a directive at its start can make it
strict, loops and labels outside do not reach into it.
-/

namespace NullGuard.Reading

open NullGuard.Text NullGuard.Tree

namespace Read

/-- The arguments of a call, from bracket to bracket. -/
def arguments (r : Rules) : Read Node := do
  expectSign .lparen
  let (items, _) ← within
    (fun c => { c with withoutIn := false, inConditional := false }) <|
    commaList .rparen do
      let start ← position
      if ← eatSign .ellipsis then
        let e ← r.assignment
        close start .spread [e]
      else r.assignment
  return .ofList items

/-- `[expression]` as a key or property. -/
def computedKey (r : Rules) : Read Node := do
  let start ← position
  expectSign .lbracket
  let e ← within
    (fun c => { c with withoutIn := false, inConditional := false })
    r.expression
  expectSign .rbracket
  close start .computed [e]

/-- The key of a property or member. -/
def propertyKey (r : Rules) : Read Node := do
  match ← token with
  | .str raw value => leaf (.str raw value)
  | .num raw => leaf (.num raw)
  | .bigint raw => leaf (.bigint raw)
  | .privateName n => leaf (.privateName n)
  | .sign .lbracket => computedKey r
  | _ => propName

/-- Whether a token can begin a property key. -/
def beginsKey : Token → Bool
  | .word _ _ | .str _ _ | .num _ | .bigint _ | .privateName _
  | .sign .lbracket => true
  | _ => false

/-- `@expression`: a name with properties and perhaps arguments, or anything in
parentheses. -/
def decorator (r : Rules) : Read Node := do
  let start ← position
  expectSign .at
  let eStart ← position
  let e ← if ← eatSign .lparen then do
      let e ← r.expression
      expectSign .rparen
      close eStart .paren [e]
    else do
      let n ← named .ident
      grow (fun n => do
        unless ← eatSign .dot do return none
        let p ← memberName
        return some (← close eStart .member [n, p])) n
  let e ← if ← atSign .lparen then do
      let args ← arguments r
      close eStart .call [e, args, .none]
    else pure e
  close start .decorator [e]

/-- The decorators in front of a class, member or parameter. -/
def decorators (r : Rules) : Read (List Node) := do
  many do
    if (← hasTypes) && (← atSign .at) then return some (← decorator r)
    else return none

/-- A name or pattern with what may follow it as a parameter: a question mark,
an ascription, a default. -/
def parameterPattern (r : Rules) (allowsThis : Bool) : Read Node := do
  let start ← position
  if ← eatSign .ellipsis then
    let inner ← r.binding
    let ann ← ascription? r
    close start .restPat [inner, ann]
  else
    let n ← if allowsThis && (← hasTypes) && (← atWord "this") then do
        let s := (← get).span
        advance
        pure (.node (.bindingIdent "this" false) (some s) [.none])
      else r.binding
    let isOptional ← if ← hasTypes then eatSign .question else pure false
    let ann ← ascription? r
    let n := withAscription n isOptional ann
    let stop ← lastEnd
    let n := if ann.isNone then n else extended n stop
    if ← eatSign (.assign .plain) then
      let value ← within (fun c => { c with withoutIn := false }) r.assignment
      close start .assignPat [n, value]
    else return n

/-- The words that make a constructor's parameter a field as well. -/
def parameterModifiers : Read (Option Modifiers) := do
  let marks ← many do
    match ← token with
    | .word w false => do
      if w ∈ ["public", "protected", "private", "readonly", "override"] &&
          (match ← nextToken with
            | .word _ _ | .sign .lbrace | .sign .lbracket => true
            | _ => false)
      then
        advance
        return some w
      return none
    | _ => return none
  if marks.isEmpty then return none
  let access :=
    if marks.contains "public" then some Access.all
    else if marks.contains "protected" then some Access.family
    else if marks.contains "private" then some Access.self
    else none
  return some
    { access
      isOverride := marks.contains "override"
      isReadonly := marks.contains "readonly" }

/-- A parameter. Only a constructor's may declare a field. -/
def parameter (r : Rules) (ofConstructor : Bool) : Read Node := do
  let start ← position
  let decs ← decorators r
  let modifiers ← if ofConstructor && (← hasTypes) then parameterModifiers
    else pure none
  let p ← parameterPattern r true
  match modifiers with
  | some m => close start (.paramProperty m) [.ofList decs, p]
  | none => close start .param [.ofList decs, p]

/-- The parameters of a function, from bracket to bracket. -/
def parameters (r : Rules) (ofConstructor : Bool) : Read Node := do
  expectSign .lparen
  let (ps, _) ← commaList .rparen (parameter r ofConstructor)
  return .ofList ps

/-- Whether a parameter is no more than a name. -/
def isPlainParameter : Node → Bool
  | .node .param _ [_, .node (.bindingIdent _ _) _ _] => true
  | .node (.bindingIdent _ _) _ _ => true
  | _ => false

/-- Whether all parameters are no more than names. -/
def arePlain : Node → Bool
  | .node .list _ ps => ps.all isPlainParameter
  | _ => false

/-- Whether a statement is a directive, and its text as written. -/
def directiveText? : Node → Option String
  | .node .exprStmt _ [.node (.str raw _) _ _] => some raw
  | _ => none

/-- Whether a statement makes the code behind it strict. -/
def isStrictDirective (n : Node) : Bool :=
  directiveText? n == some "'use strict'" || directiveText? n ==
    some "\"use strict\""

/-- The directives at the start of a body or program. `onStrict` is run at one
that makes the rest strict. -/
def directives (onStrict : Node → Read Unit) (item : Read Node) :
    Read (List Node) := do
  many do
    match ← token with
    | .str _ _ => do
      let isDirective ← lookahead do
        let n ← item
        return (directiveText? n).isSome
      if isDirective == some true then
        let n ← item
        if isStrictDirective n then
          onStrict n
          modify fun r =>
            { r with context := { r.context with isStrict := true } }
        return some n
      return none
    | _ => return none

/-- Statements up to a closing brace. A text that ends early is noted. -/
def statementsUntilBrace (item : Read Node) : Read (List Node) := do
  let stmts ← many do
    let t ← token
    if t == .sign .rbrace || t == .eof then return none
    return some (← item)
  if (← token) == .eof then
    note (.tokenExpected (Sign.text .rbrace) Token.eof.label) (← get).span
  else advance
  return stmts

/-- The context inside a function. -/
def inFunction (isAsync isGenerator : Bool) (c : Context) : Context :=
  { c with
    inFunction := true, inAsync := isAsync, inGenerator :=
      isGenerator, inClassField := false,
    withoutIn := false, inConditional := false, isAmbient :=
      false, canBreak := false,
    canContinue := false, labels := [] }

/-- The body of a function, in its context. `plain` tells whether all parameters
are names. -/
def body (r : Rules) (plain : Bool) : Read Node := do
  let start ← position
  expectSign .lbrace
  let first ← directives
    (fun n => do unless plain do note .strictWithPatterns (← spanOf n))
    r.statement
  let rest ← statementsUntilBrace r.statement
  close start .block (first ++ rest)

/-- Type parameters, parameters, result type and body. Where types are allowed
the body may be missing. -/
def functionRest (r : Rules) (start : Nat) (isAsync isGenerator : Bool) :
    Read Node := do
  let tps ← typeParams? r
  within (inFunction isAsync isGenerator) do
    let ps ← parameters r false
    let result ← resultType? r
    let b ← if (← hasTypes) && !(← atSign .lbrace) && (← canEndStatement)
      then do
        endStatement
        pure Node.none
      else body r (arePlain ps)
    close start (.function isAsync isGenerator) [ps, .ofList [], b, tps, result]

end Read

end NullGuard.Reading
