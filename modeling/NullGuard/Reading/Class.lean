import NullGuard.Reading.Function

/-!
# Reading classes

The part of a class behind its name, and its members. A word like `static` or
`get` is a modifier only if something follows that it can modify; otherwise it
is the name of the member.
-/

namespace NullGuard.Reading

open NullGuard.Text NullGuard.Tree

namespace Read

/-- Whether a token ends a member's name, so that the word before it is the name
itself. -/
def endsMemberName : Token → Bool
  | .sign .lparen | .sign (.assign .plain) | .sign .semi | .sign .rbrace
      | .sign .question
  | .sign .bang | .sign .colon | .sign (.binary .less) | .sign .comma | .eof =>
    true
  | _ => false

/-- Whether the current word modifies what follows it. -/
def isModifier (w : String) (onLine : Bool) : Read Bool := do
  unless ← atWord w do return false
  if onLine then
    match ← nextOnLine with
    | some t => return !endsMemberName t
    | none => return false
  else return !endsMemberName (← nextToken)

/-- The words in front of a member, in any order. -/
def memberModifiers : Read (List String) := do
  let typed ← hasTypes
  let found ← many do
    if ← isModifier "static" false then
      if (← nextToken) == .sign .lbrace then return none
      advance
      return some "static"
    unless typed do return none
    for w in ["public", "private", "protected", "readonly", "abstract",
      "override", "declare"] do
      if ← isModifier w (w == "declare" || w == "abstract") then
        advance
        return some w
    return none
  return found

/-- The modifiers that a list of words makes. -/
def modifiersOf (words : List String) : Modifiers :=
  { access :=
      if words.contains "public" then some .all
      else if words.contains "protected" then some .family
      else if words.contains "private" then some .self
      else none
    isStatic := words.contains "static"
    isAbstract := words.contains "abstract"
    isOverride := words.contains "override"
    isReadonly := words.contains "readonly"
    isDeclared := words.contains "declare" }

/-- Whether a key names the constructor. -/
def isConstructorKey : Node → Bool
  | .node (.propName n) _ _ => n == "constructor"
  | .node (.str _ value) _ _ => value == some "constructor"
  | _ => false

/-- The context of a field's value. -/
def inField (c : Context) : Context :=
  { c with
    inFunction := true, inAsync := false, inGenerator :=
      false, inClassField := true,
    withoutIn := false, inConditional := false, isAmbient :=
      false, canBreak := false,
    canContinue := false, labels := [] }

/-- A member that is a field, from behind its key. -/
def fieldRest (r : Rules) (start : Nat) (kind : Modifiers → Kind)
    (m : Modifiers) (key : Node) (decs : List Node) : Read Node := do
  let isOptional ← if ← hasTypes then eatSign .question else pure false
  let isDefinite ← if (← hasTypes) && !isOptional then eatSign .bang
    else pure false
  let ann ← ascription? r
  let value ← if ← eatSign (.assign .plain) then within inField r.assignment
    else pure .none
  endStatement
  close start
    (kind { m with isOptional := m.isOptional || isOptional, isDefinite })
    [key, value, ann, .ofList decs]

/-- A member that is a method, accessor or constructor, from behind its key. -/
def methodRest (r : Rules) (start : Nat) (sort : MethodSort) (m : Modifiers)
    (key : Node) (decs : List Node) (isAsync isGenerator : Bool) :
    Read Node := do
  if sort = .method && !m.isStatic && !isAsync && !isGenerator &&
    isConstructorKey key then
    within (inFunction false false) do
      let ps ← parameters r true
      let b ← if (← hasTypes) && !(← atSign .lbrace) && (← canEndStatement)
        then do
          endStatement
          pure Node.none
        else body r (arePlain ps)
      close start (.constructor m) [key, ps, b]
  else
    let f ← functionRest r start isAsync isGenerator
    let f := match f with
      | .node k s [ps, _, b, tps, result] =>
        Node.node k s [ps, .ofList decs, b, tps, result]
      | f => f
    let n ← close start (.method sort m) [key, f]
    if m.isAbstract then
      match f with
      | .node _ _ [_, _, .node .block _ _, _, _] =>
        note .abstractWithBody (← spanOf n)
      | _ => pure ()
    return n

/-- The word `get`, `set`, `async` or `accessor` in front of a key, or a
star. -/
def memberLead : Read (MethodSort × Bool × Bool × Bool) := do
  if (← isModifier "get" false) && beginsKey (← nextToken) then
    advance
    return (.getter, false, false, false)
  if (← isModifier "set" false) && beginsKey (← nextToken) then
    advance
    return (.setter, false, false, false)
  if (← isModifier "accessor" true) && beginsKey (← nextToken) then
    advance
    return (.method, false, false, true)
  let isAsync ← if ← isModifier "async" true then do advance; pure true
    else pure false
  let isGenerator ← eatSign (.binary .mul)
  return (.method, isAsync, isGenerator, false)

/-- A member of a class. -/
def classMember (r : Rules) : Read Node := do
  let start ← position
  if ← atSign .semi then return ← leaf .emptyMember
  let decs ← decorators r
  let words ← memberModifiers
  let m := modifiersOf words
  if (← atWord "static") && (← nextToken) == .sign .lbrace then
    advance
    let bStart ← position
    advance
    let stmts ← within (inFunction false false)
      (statementsUntilBrace r.statement)
    let b ← close bStart .block stmts
    return ← close start .staticBlock [b]
  if ← hasTypes then
    if let some n ← indexSignature? r start m.isReadonly m.isStatic
      then return n
  let (sort, isAsync, isGenerator, isAccessor) ← memberLead
  let key ← propertyKey r
  if isAccessor then return ← fieldRest r start .accessorProperty m key decs
  let isOptional ← if (← hasTypes) && (← atSign .question) then do
      match ← nextToken with
      | .sign .lparen | .sign (.binary .less) => do advance; pure true
      | _ => pure false
    else pure false
  let m := { m with isOptional }
  match ← token with
  | .sign .lparen | .sign (.binary .less) =>
    methodRest r start sort m key decs isAsync isGenerator
  | _ => fieldRest r start .property m key decs

/-- The second and later constructors with a body, which a class may not
have. -/
def noteConstructors (members : List Node) : Read Unit := do
  let withBody := members.filter fun n => match n with
    | .node (.constructor _) _ [_, _, .node .block _ _] => true
    | _ => false
  for n in withBody.drop 1 do
    note .duplicateConstructor (← spanOf n)

/-- The bases of an interface, or the types that a class implements. -/
def heritageList (r : Rules) : Read (List Node) := do
  let item : Read Node := do
    let start ← position
    let n ← named .ident
    let n ← grow (fun n => do
      unless ← eatSign .dot do return none
      let p ← propName
      return some (← close start .member [n, p])) n
    let args ← typeArgs? r
    close start .heritage [n, args]
  let first ← item
  let rest ← many do
    unless ← eatSign .comma do return none
    return some (← item)
  return first :: rest

/-- What of a class stands behind its name, where `base` reads the class it
extends. -/
def classRest (r : Rules) (base : Read Node) (start : Nat) (decs : List Node)
    (isAbstract : Bool) : Read Node := do
  let tps ← typeParams? r
  let (superClass, superArgs) ← if ← eatWord "extends" then do
      let b ← base
      match b with
      | .node .instantiation _ [e, args] => pure (e, args)
      | b => do
        let args ← typeArgs? r
        pure (b, args)
    else pure (.none, .none)
  let implemented ← if (← hasTypes) && (← eatWord "implements")
    then heritageList r else pure []
  expectSign .lbrace
  let members ← within (fun c => { c with isStrict := true }) <| many do
    if ← atSign .rbrace then return none
    return some (← classMember r)
  expectSign .rbrace
  noteConstructors members
  close start (.classBody isAbstract) [.ofList decs, .ofList members,
    superClass, tps, superArgs, .ofList implemented]

/-- The name of a class, unless its heritage or body follows at once. -/
def className? : Read Node := do
  match ← token with
  | .word w _ =>
    if w = "extends" || (w = "implements" && (← hasTypes)) then return .none
    else name
  | _ => return .none

end Read

end NullGuard.Reading
