import NullGuard.Reading.Rules

/-!
# Reading types

The rules for everything that may stand in type position, from ascriptions to
the members of an interface. A type reads as a chain of ever tighter rules:
conditional, union, intersection, operator, array, and the types without an
operator.
-/

namespace NullGuard.Reading

open NullGuard.Text NullGuard.Tree

namespace Read

/-- The words that are types of their own. -/
def keywordTypes : List String :=
  ["any", "unknown", "number", "object", "boolean", "bigint", "string",
    "symbol", "void", "undefined", "null", "never", "intrinsic"]

/-- A name or pattern with an ascription, and whether it is marked as
optional. -/
def withAscription (n : Node) (isOptional : Bool) (ascription : Node) : Node :=
  match n with
  | .node (.bindingIdent x _) s _ =>
    .node (.bindingIdent x isOptional) s [ascription]
  | .node (.arrayPat c _) s (items :: _) =>
    .node (.arrayPat c isOptional) s [items, ascription]
  | .node (.objectPat c _) s (props :: _) =>
    .node (.objectPat c isOptional) s [props, ascription]
  | .node .restPat s (inner :: _) => .node .restPat s [inner, ascription]
  | n => n

/-- A node that ends later than it did. -/
def extended (n : Node) (stop : Nat) : Node :=
  match n with
  | .node k (some s) ns => .node k (some ⟨s.start, stop⟩) ns
  | n => n

/-- Whether a node is an identifier pattern. -/
def isBindingIdent : Node → Bool
  | .node (.bindingIdent _ _) _ _ => true
  | _ => false

/-- `: type`, where a colon has been seen. -/
def ascription (r : Rules) : Read Node := do
  let start ← position
  expectSign .colon
  let t ← within (fun c => { c with inConditional := false }) r.type
  close start (.type .ascription) [t]

/-- `: type`, if there is a colon. -/
def ascription? (r : Rules) : Read Node := do
  if (← hasTypes) && (← atSign .colon) then ascription r
  else return .none

/-- An entity name: words with dots between them. -/
def entityName : Read Node := do
  let start ← position
  let first ← match ← token with
    | .word "this" _ => leaf (.name "this")
    | t => if isWord t then leaf (.name (wordText t)) else fail .nameExpected
  grow (fun n => do
    unless ← eatSign .dot do return none
    let p ← propName
    return some (← close start (.type .qualified) [n, p])) first

/-- `<types>`, where an opening bracket has been seen. -/
def typeArgs (r : Rules) : Read Node := do
  let start ← position
  expectSign (.binary .less)
  let ts ← within (fun c =>
    { c with withoutConditionalTypes := false, inConditional := false })
    (angleList r.type)
  close start (.type .args) ts

/-- `<types>`, if there is an opening bracket on the same line. -/
def typeArgs? (r : Rules) : Read Node := do
  if (← hasTypes) && (← atSign (.binary .less)) && !(← newLine) then typeArgs r
  else return .none

/-- The modifiers of a type parameter that precede its name. -/
def typeParamMarks : Read (Bool × Bool × Bool) := do
  let marks ← many do
    match ← token with
    | .word w _ =>
      if w = "in" || ((w = "out" || w = "const") && isWord (← nextToken)) then
        advance
        return some w
      return none
    | _ => return none
  return (marks.contains "in", marks.contains "out", marks.contains "const")

/-- A type parameter. -/
def typeParam (r : Rules) : Read Node := do
  let start ← position
  let (isIn, isOut, isConst) ← typeParamMarks
  let n ← name
  let bound ← if ← eatWord "extends" then r.type else pure .none
  let default ← if ← eatSign (.assign .plain) then r.type else pure .none
  close start (.type (.param isIn isOut isConst)) [n, bound, default]

/-- `<parameters>`, where an opening bracket has been seen. -/
def typeParams (r : Rules) : Read Node := do
  let start ← position
  expectSign (.binary .less)
  let ps ← within (fun c =>
    { c with withoutConditionalTypes := false, inConditional := false })
    (angleList (typeParam r))
  close start (.type .params) ps

/-- `<parameters>`, if there is an opening bracket. -/
def typeParams? (r : Rules) : Read Node := do
  if (← hasTypes) && (← atSign (.binary .less)) then typeParams r
  else return .none

/-- A name or pattern that is a parameter of a function type or signature. -/
def typeLevelParam (r : Rules) : Read Node := do
  let start ← position
  if ← eatSign .ellipsis then
    let inner ← r.binding
    let ann ← ascription? r
    close start .restPat [inner, ann]
  else
    let n ← if ← atWord "this" then
        return withAscription (.node (.bindingIdent "this" false)
          (some (← get).span) [.none]) false (← do advance; ascription? r)
      else r.binding
    let isOptional ← eatSign .question
    let ann ← ascription? r
    return withAscription n isOptional ann

/-- `(parameters)` of a function type or signature. -/
def typeLevelParams (r : Rules) : Read Node := do
  expectSign .lparen
  let (ps, _) ← commaList .rparen (typeLevelParam r)
  return .ofList ps

/-- `name is type`, `asserts name` and `asserts name is type`, or a type. -/
def typeOrPredicate (r : Rules) : Read Node := do
  let start ← position
  let subject : Read Node := do
    match ← token with
    | .word "this" _ => leaf (.type .self)
    | _ => name
  let predicate ← attempt do
    let asserts ← if ← atWord "asserts" then
        match ← nextOnLine with
        | some (.word w _) =>
          if w = "is" then pure false else do advance; pure true
        | _ => pure false
      else pure false
    let s ← subject
    if (← atWord "is") && !(← newLine) then
      advance
      let at' ← position
      let t ← r.type
      let ann ← close at' (.type .ascription) [t]
      close start (.type (.predicate asserts)) [s, ann]
    else if asserts then close start (.type (.predicate true)) [s, .none]
    else fail .typeExpected
  match predicate with
  | some p => return p
  | none => r.type

/-- The result type of a function, if there is one; it may be a predicate. -/
def resultType? (r : Rules) : Read Node := do
  if (← hasTypes) && (← atSign .colon) then
    let start ← position
    advance
    let t ← within (fun c => { c with inConditional := false })
      (typeOrPredicate r)
    close start (.type .ascription) [t]
  else return .none

/-- The result of a function type behind its arrow, as an ascription. -/
def arrowResult (r : Rules) : Read Node := do
  let start ← position
  expectSign .arrow
  let t ← typeOrPredicate r
  close start (.type .ascription) [t]

/-- A key of a type member, and whether it is computed. A word is read as an
identifier. -/
def memberKey (r : Rules) : Read (Node × Bool) := do
  match ← token with
  | .sign .lbracket => do
    advance
    let k ← r.assignment
    expectSign .rbracket
    return (k, true)
  | .str raw value => return (← leaf (.str raw value), false)
  | .num raw => return (← leaf (.num raw), false)
  | .bigint raw => return (← leaf (.bigint raw), false)
  | t =>
    if isWord t then return (← leaf (.ident (wordText t)), false)
    else fail .nameExpected

/-- The end of a type member: a comma, a semicolon, or the end of a line. -/
def endMember : Read Unit := do
  unless ← eatSign .comma do
    endStatement

/-- `[key: type]: type` as a member, if that is what the bracket begins. -/
def indexSignature? (r : Rules) (start : Nat) (isReadonly isStatic : Bool) :
    Read (Option Node) := do
  let isIndex ← sees do
    expectSign .lbracket
    let _ ← name
    atSign .colon
  unless isIndex do return none
  expectSign .lbracket
  let n ← named (fun x => .bindingIdent x false)
  let ann ← ascription r
  expectSign .rbracket
  let t ← ascription? r
  let key :=
    extended (withAscription n false ann) ((ann.span.map Span.stop).getD 0)
  let node ← close start (.type (.indexSignature isReadonly isStatic))
    [.ofList [key], t]
  endMember
  return some node

/-- A member of a type literal or an interface. -/
def typeMember (r : Rules) : Read Node := do
  let start ← position
  let signature (form : TypeForm) : Read Node := do
    let tps ← typeParams? r
    let ps ← typeLevelParams r
    let t ← resultType? r
    let node ← close start (.type form) [ps, t, tps]
    endMember
    return node
  let beginsSignature : Token → Bool
    | .sign .lparen | .sign (.binary .less) => true
    | _ => false
  if beginsSignature (← token) then return ← signature .callSignature
  if (← atWord "new") && beginsSignature (← nextToken) then
    advance
    return ← signature .constructSignature
  let isReadonly ← if ← atWord "readonly" then do
      let isMark ← match ← nextToken with
        | .word _ _ | .str _ _ | .num _ | .sign .lbracket => pure true
        | _ => pure false
      if isMark then advance
      pure isMark
    else pure false
  if let some n ← indexSignature? r start isReadonly false then return n
  let accessor ← if (← atWord "get") || (← atWord "set") then do
      let w := wordText (← token)
      match ← nextToken with
      | .word _ _ | .str _ _ | .num _ | .sign .lbracket => do advance; pure w
      | _ => pure ""
    else pure ""
  let (key, isComputed) ← memberKey r
  if accessor = "get" then
    expectSign .lparen
    expectSign .rparen
    let t ← ascription? r
    let node ← close start (.type (.getterSignature isComputed)) [key, t]
    endMember
    return node
  if accessor = "set" then
    expectSign .lparen
    let p ← typeLevelParam r
    let _ ← eatSign .comma
    expectSign .rparen
    let _ ← resultType? r
    let node ← close start (.type (.setterSignature isComputed)) [key, p]
    endMember
    return node
  let isOptional ← eatSign .question
  if beginsSignature (← token) then
    let tps ← typeParams? r
    let ps ← typeLevelParams r
    let t ← resultType? r
    let node ← close start (.type (.methodSignature isComputed isOptional))
      [key, ps, t, tps]
    endMember
    return node
  let t ← ascription? r
  let node ← close start
    (.type (.propertySignature isReadonly isComputed isOptional)) [key, t]
  endMember
  return node

/-- `{ members }`, as the list of its members. -/
def typeMembers (r : Rules) : Read (List Node) := do
  expectSign .lbrace
  let ms ← within (fun c => { c with withoutConditionalTypes := false }) <|
    many do
    if ← atSign .rbrace then return none
    return some (← typeMember r)
  expectSign .rbrace
  return ms

/-- A mark of a mapped type: nothing, a word, or a word with a sign before
it. -/
def mappedMark (atMark : Read Bool) : Read MappedMark := do
  if ← atSign (.binary .add) then do
    advance
    advance
    return .plus
  if ← atSign (.binary .sub) then do
    advance
    advance
    return .minus
  if ← atMark then do
    advance
    return .plain
  return .none

/-- `{ [K in bound]: type }`. -/
def mappedType (r : Rules) : Read Node := do
  let start ← position
  expectSign .lbrace
  let isReadonly ← mappedMark (atWord "readonly")
  expectSign .lbracket
  let pStart ← position
  let n ← name
  expectWord "in"
  let bound ← r.type
  let p ← close pStart (.type (.param false false false)) [n, bound, .none]
  let nameType ← if ← eatWord "as" then r.type else pure .none
  expectSign .rbracket
  let isOptional ← mappedMark (atSign .question)
  let t ← if ← eatSign .colon then r.type else pure .none
  let _ ← eatSign .semi
  let _ ← eatSign .comma
  expectSign .rbrace
  close start (.type (.mapped isReadonly isOptional)) [p, nameType, t]

/-- Whether a brace begins a mapped type. -/
def beginsMapped : Read Bool :=
  sees do
    expectSign .lbrace
    if (← eatSign (.binary .add)) || (← eatSign (.binary .sub))
      then return ← atWord "readonly"
    let _ ← eatWord "readonly"
    expectSign .lbracket
    let _ ← name
    atWord "in"

/-- An element of a tuple, with its label if it has one. -/
def tupleElement (r : Rules) : Read Node := do
  let start ← position
  let labelled ← attempt do
    let isRest ← eatSign .ellipsis
    let wStart ← position
    let t ← token
    unless isWord t do fail .nameExpected
    advance
    let stop ← lastEnd
    let isOptional ← eatSign .question
    unless ← atSign .colon do fail .typeExpected
    advance
    let ident : Node :=
      .node (.bindingIdent (wordText t) isOptional)
        (some ⟨wStart, stop⟩) [.none]
    return if isRest then .node .restPat (some ⟨start, stop⟩) [ident, .none]
      else ident
  match labelled with
  | some label => do
    let t ← r.type
    close start (.type .tupleElement) [label, t]
  | none => do
    if ← eatSign .ellipsis then
      let t ← r.type
      let t ← close start (.type .rest) [t]
      close start (.type .tupleElement) [.none, t]
    else
      let t ← r.type
      let t ← if ← eatSign .question
        then close start (.type .optional) [t] else pure t
      close start (.type .tupleElement) [.none, t]

/-- Moves to the piece of a template behind the current sign. A piece that does
not end is at fault from that sign on. -/
def nextChunk : Read Unit := do
  let start ← position
  modify fun r => r.nextBy Token.chunkAt
  if (← token) == .bad .unterminatedTemplate then
    failAt .unterminatedTemplate ⟨start, (← get).span.stop⟩

/-- The pieces of a template and what stands between them, where the opening
quote is the current token. -/
def templateParts (hole : Read Node) : Read (List String × List Node) := do
  nextChunk
  let parts ← many do
    match ← token with
    | .chunk raw false => do
      advance
      let e ← hole
      unless ← atSign .rbrace do
        fail (.tokenExpected (Sign.text .rbrace) (← token).label)
      nextChunk
      return some (raw, e)
    | _ => return none
  match ← token with
  | .chunk raw true => do
    advance
    return (parts.map (·.1) ++ [raw], parts.map (·.2))
  | _ => fail .unterminatedTemplate

/-- `import("module").name<args>` in type position. -/
def importType (r : Rules) : Read Node := do
  let start ← position
  expectWord "import"
  expectSign .lparen
  let arg ← match ← token with
    | .str raw value => leaf (.str raw value)
    | _ => fail .typeExpected
  expectSign .rparen
  let q ← if ← eatSign .dot then entityName else pure .none
  let args ← typeArgs? r
  close start (.type .imported) [arg, q, args]

/-- `typeof name`. -/
def typeQuery (r : Rules) : Read Node := do
  let start ← position
  expectWord "typeof"
  let n ← if ← atWord "import" then importType r else entityName
  let args ← typeArgs? r
  close start (.type .query) [n, args]

/-- A type without an operator. -/
def primaryType (r : Rules) : Read Node := do
  let start ← position
  let literal (k : Kind) : Read Node := do
    let l ← leaf k
    close start (.type .literal) [l]
  match ← token with
  | .str raw value => literal (.str raw value)
  | .num raw => literal (.num raw)
  | .bigint raw => literal (.bigint raw)
  | .sign (.binary .sub) => do
    advance
    let operand ← match ← token with
      | .num raw => do advance; pure (Kind.num ("-" ++ raw))
      | .bigint raw => do advance; pure (Kind.bigint ("-" ++ raw))
      | _ => fail .typeExpected
    let l ← close start operand []
    close start (.type .literal) [l]
  | .sign .backtick => do
    let (chunks, ts) ← templateParts r.type
    close start (.type (.template chunks)) ts
  | .sign .lbrace => do
    if ← beginsMapped then
      within (fun c => { c with withoutConditionalTypes := false })
        (mappedType r)
    else
      let ms ← typeMembers r
      close start (.type .members) ms
  | .sign .lbracket => do
    advance
    let (es, _) ← within (fun c => { c with withoutConditionalTypes := false })
      (commaList .rbracket (tupleElement r))
    close start (.type .tuple) es
  | .sign .lparen => do
    advance
    let t ← within (fun c => { c with
      withoutConditionalTypes := false, inConditional := false }) r.type
    expectSign .rparen
    close start (.type .paren) [t]
  | .word w _ => do
    if w = "true" then literal (.bool true)
    else if w = "false" then literal (.bool false)
    else if w = "this" then leaf (.type .self)
    else if w = "typeof" then typeQuery r
    else if w = "import" then importType r
    else if w ∈ keywordTypes && (← nextToken) != .sign .dot
      then leaf (.type (.keyword w))
    else if w ∈ keywords then fail .typeExpected
    else do
      let n ← entityName
      let args ← typeArgs? r
      close start (.type .reference) [n, args]
  | _ => fail .typeExpected

/-- A type with any number of `[]` and `[index]` behind it. -/
def arrayType (r : Rules) : Read Node := do
  let start ← position
  let t ← primaryType r
  grow (fun t => do
    unless (← atSign .lbracket) && !(← newLine) do return none
    advance
    if ← eatSign .rbracket then return some (← close start (.type .array) [t])
    let i ← r.type
    expectSign .rbracket
    return some (← close start (.type .indexed) [t, i])) t

/-- Whether a token can begin a type, as far as an operator before it has to
know. -/
def beginsType : Token → Bool
  | .word _ _ | .str _ _ | .num _ | .bigint _ => true
  | .sign .lbrace | .sign .lbracket | .sign .lparen | .sign .backtick
      | .sign (.binary .sub) =>
    true
  | _ => false

/-- `keyof type`, `infer T`, or a type without such a word. -/
def operatorType (r : Rules) : Nat → Read Node
  | 0 => fail .typeExpected
  | n + 1 => do
    let start ← position
    match ← token with
    | .word w false => do
      if (w = "keyof" || w = "unique" || w = "readonly") &&
        beginsType (← nextToken) then
        advance
        let t ← operatorType r n
        close start (.type (.operator w)) [t]
      else if w = "infer" && isName (← nextToken) then
        advance
        let pStart ← position
        let x ← name
        let bound ← attempt do
          expectWord "extends"
          let t ← within
            (fun c => { c with withoutConditionalTypes := true }) r.type
          if !(← context).withoutConditionalTypes && (← atSign .question)
            then fail .typeExpected
          return t
        let p ← close pStart (.type (.param false false false))
          [x, .ofOption bound, .none]
        close start (.type .infer) [p]
      else arrayType r
    | _ => arrayType r

/-- Types with an operator between them; one may also stand before the first. -/
def joinedTypes (op : BinaryOp) (form : TypeForm) (operand : Read Node) :
    Read Node := do
  let start ← position
  let leads ← eatSign (.binary op)
  let first ← operand
  let rest ← many do
    unless ← eatSign (.binary op) do return none
    return some (← operand)
  if rest.isEmpty && !leads then return first
  close start (.type form) (first :: rest)

/-- A union of intersections. -/
def unionType (r : Rules) : Read Node := do
  let bound := (← get).bound
  joinedTypes .bitOr .union
    (joinedTypes .bitAnd .intersection (operatorType r bound))

/-- A function or constructor type, if one begins here. -/
def functionType? (r : Rules) : Read (Option Node) := do
  let start ← position
  let rest (form : TypeForm) : Read Node := do
    let tps ← typeParams? r
    let ps ← typeLevelParams r
    let t ← arrowResult r
    close start (.type form) [ps, tps, t]
  match ← token with
  | .sign .lparen | .sign (.binary .less) => attempt (rest .function)
  | .word "new" _ => do
    advance
    return some (← rest (.constructor false))
  | .word "abstract" _ => do
    if (← nextToken) == .word "new" false then
      advance
      advance
      return some (← rest (.constructor true))
    return none
  | _ => return none

/-- Any type. -/
def typeRule (r : Rules) : Read Node := do
  let start ← position
  if let some t ← functionType? r then return t
  let check ← unionType r
  if (← context).withoutConditionalTypes || (← newLine) || !(← atWord "extends")
    then return check
  advance
  let bound ← within
    (fun c => { c with withoutConditionalTypes := true }) r.type
  expectSign .question
  let yes ← within (fun c => { c with withoutConditionalTypes := false }) r.type
  expectSign .colon
  let no ← within (fun c => { c with withoutConditionalTypes := false }) r.type
  close start (.type .conditional) [check, bound, yes, no]

end Read

end NullGuard.Reading
