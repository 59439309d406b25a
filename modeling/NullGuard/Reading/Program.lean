import NullGuard.Reading.Statement

/-!
# Reading programs

Imports and exports, and the two ends of the reader: `rulesAt`, which ties the
grammar's rules to each other, and `Source.read`, which turns a text into a
program with its comments and its faults.

A program is a module if it holds an import or an export, or uses what only a
module can. That is known only at its end; faults of strict code that were met
before are noted then.
-/

namespace NullGuard.Reading

open NullGuard.Text NullGuard.Tree

namespace Read

/-- The name of something that a module exports: a word or a string. -/
def exportedName : Read Node := do
  match ← token with
  | .str raw value => leaf (.str raw value)
  | t => if isWord t then leaf (.name (wordText t)) else fail .nameExpected

/-- The string that names a module, behind the word `from`. -/
def source : Read Node := do
  match ← token with
  | .str raw value => leaf (.str raw value)
  | _ => fail (.tokenExpected "string literal" (← token).label)

/-- The attributes of an import or export, if there are any. -/
def attributes? (r : Rules) : Read Node := do
  if (← atWord "with") || ((← atWord "assert") && !(← newLine)) then
    advance
    object r
  else return .none

/-- Whether `type` in front of a specifier is a mark and not a name. -/
def typeMark : Read Bool := do
  unless (← hasTypes) && (← atWord "type") do return false
  let isMark ← sees do
    advance
    match ← token with
    | .word "as" false => do
      advance
      match ← token with
      | .word "as" _ => do
        advance
        return isWord (← token)
      | .word _ _ => return false
      | _ => return true
    | .word _ _ | .str _ _ => return true
    | _ => return false
  if isMark then advance
  return isMark

/-- A specifier between the braces of an import. -/
def importSpecifier : Read Node := do
  let start ← position
  let typeOnly ← typeMark
  let imported ← exportedName
  if ← eatWord "as" then
    let «local» ← name
    close start (.importNamed typeOnly) [«local», imported]
  else
    match imported with
    | .node (.name x) s _ =>
      if x ∈ keywords then failAt .nameExpected (← spanOf imported)
      close start (.importNamed typeOnly) [.node (.name x) s [], .none]
    | n => failAt .nameExpected (← spanOf n)

/-- What stands behind the first word of an import of names. -/
def importSpecifiers : Read (List Node) := do
  let start ← position
  let default ← if isName (← token) then do
      let n ← name
      let d ← close start .importDefault [n]
      unless ← atWord "from" do expectSign .comma
      pure [d]
    else pure []
  if ← atWord "from" then return default
  let restStart ← position
  if ← eatSign (.binary .mul) then
    expectWord "as"
    let n ← name
    return default ++ [← close restStart .importNamespace [n]]
  expectSign .lbrace
  let (specifiers, _) ← commaList .rbrace importSpecifier
  return default ++ specifiers

/-- `name = reference` behind `import`. -/
def importEqualsRest (start : Nat) (isExport typeOnly : Bool) : Read Node := do
  let n ← name
  expectSign (.assign .plain)
  let refStart ← position
  let isRequire ← sees do
    expectWord "require"
    atSign .lparen
  let reference ← if isRequire then do
      advance
      advance
      let s ← source
      expectSign .rparen
      close refStart .externalModule [s]
    else entityName
  endStatement
  close start (.importEquals isExport typeOnly) [n, reference]

/-- Whether `type` behind `import` is a mark and not a name. -/
def importTypeMark : Read Bool := do
  unless (← hasTypes) && (← atWord "type") do return false
  let isMark ← sees do
    advance
    match ← token with
    | .sign .lbrace | .sign (.binary .mul) => return true
    | .word "from" false => return (← nextToken) == .word "from" false
    | t => return isName t
  if isMark then advance
  return isMark

/-- An import declaration, from the word `import`. -/
def importDeclaration (r : Rules) (start : Nat) (isExport : Bool) :
    Read Node := do
  expectWord "import"
  if let .str _ _ := ← token then
    let s ← source
    let attrs ← attributes? r
    endStatement
    return ← close start (.importDecl false) [.ofList [], s, attrs]
  let typeOnly ← importTypeMark
  if (← hasTypes) && isName (← token) && (← nextToken) == .sign (.assign .plain)
    then
    return ← importEqualsRest start isExport typeOnly
  let specifiers ← importSpecifiers
  expectWord "from"
  let s ← source
  let attrs ← attributes? r
  endStatement
  close start (.importDecl typeOnly) [.ofList specifiers, s, attrs]

/-- A specifier between the braces of an export. -/
def exportSpecifier : Read Node := do
  let start ← position
  let typeOnly ← typeMark
  let n ← exportedName
  let exported ← if ← eatWord "as" then exportedName else pure .none
  close start (.exportSpecifier typeOnly) [n, exported]

/-- `{ specifiers }` behind `export`, with the module they come from if there is
one. -/
def exportNamedRest (r : Rules) (start : Nat) (typeOnly : Bool) :
    Read Node := do
  expectSign .lbrace
  let (specifiers, comma) ← commaList .rbrace exportSpecifier
  let (s, attrs) ← if ← eatWord "from" then do
      let s ← source
      let attrs ← attributes? r
      pure (s, attrs)
    else pure (.none, .none)
  let hasSemi ← atSign .semi
  endStatement
  close start (.exportNamed typeOnly (comma && s.isNone && !hasSemi))
    [.ofList specifiers, s, attrs]

/-- `*` behind `export`. -/
def exportAllRest (r : Rules) (start : Nat) (typeOnly : Bool) : Read Node := do
  let sStart ← position
  expectSign (.binary .mul)
  let n ← if ← eatWord "as" then exportedName else pure .none
  let specifier ← close sStart .exportNamespace [n]
  expectWord "from"
  let s ← source
  let attrs ← attributes? r
  endStatement
  if n.isNone then close start (.exportAll typeOnly) [s, attrs]
  else close start (.exportNamed typeOnly false) [.ofList [specifier], s, attrs]

/-- What `export default` exports. -/
def exportDefaultRest (r : Rules) (start : Nat) (decs : List Node) :
    Read Node := do
  let declStart ← position
  let typed ← hasTypes
  let decs := decs ++ (← decorators r)
  let classRestHere (isAbstract : Bool) : Read Node := do
    expectWord "class"
    let n ← className?
    let c ← classRest r r.operand declStart decs isAbstract
    let e ← close declStart .classExpr [n, c]
    close start .exportDefaultDecl [e]
  let functionHere (isAsync : Bool) : Read Node := do
    let (n, f) ← functionParts r declStart isAsync
    let e ← close declStart .fnExpr [n, f]
    close start .exportDefaultDecl [e]
  match ← token with
  | .word "function" false => functionHere false
  | .word "class" false => classRestHere false
  | t => do
    let following ← nextOnLine
    if t == .word "async" false && following == some (.word "function" false)
      then
      advance
      functionHere true
    else if typed && t == .word "abstract" false && following ==
      some (.word "class" false) then
      advance
      classRestHere true
    else if typed && t == .word "interface" false &&
      (following.map isName).getD false then
      advance
      let i ← interfaceRest r declStart false
      close start .exportDefaultDecl [i]
    else
      let e ← r.assignment
      endStatement
      close start .exportDefaultExpr [e]

/-- An export declaration. -/
def exportDeclaration (r : Rules) (start : Nat) (decs : List Node) :
    Read Node := do
  expectWord "export"
  if ← eatWord "default" then return ← exportDefaultRest r start decs
  let typed ← hasTypes
  if ← atSign .lbrace then return ← exportNamedRest r start false
  if ← atSign (.binary .mul) then return ← exportAllRest r start false
  if typed then
    if ← eatSign (.assign .plain) then
      let e ← r.expression
      endStatement
      return ← close start .exportAssignment [e]
    if (← atWord "as") && (← nextToken) == .word "namespace" false then
      advance
      advance
      let n ← name
      endStatement
      return ← close start .exportAsNamespace [n]
    if ← atWord "import" then return ← importDeclaration r start true
    if ← atWord "type" then
      match ← nextToken with
      | .sign .lbrace => do
        advance
        return ← exportNamedRest r start true
      | .sign (.binary .mul) => do
        advance
        return ← exportAllRest r start true
      | _ => pure ()
  let declStart ← position
  let declaration ← anyDeclaration? r declStart
  match declaration with
  | some (.node (.classDecl d) s
      [n, .node k cs (.node .list _ own :: parts)]) =>
    close start .exportDecl
      [.node (.classDecl d) s [n, .node k cs (.ofList (decs ++ own) :: parts)]]
  | some d => close start .exportDecl [d]
  | none => fail .expressionExpected

/-- A statement, or an import or export. -/
def itemRule (r : Rules) : Read Node := do
  let start ← position
  match ← token with
  | .word "import" false => do
    match ← nextToken with
    | .sign .lparen | .sign .dot => statementRule r
    | _ => importDeclaration r start false
  | .word "export" false => exportDeclaration r start []
  | .sign .at => do
    unless ← hasTypes do fail .expressionExpected
    let beforeExport ← sees do
      let _ ← decorators r
      atWord "export"
    if beforeExport then
      let decs ← decorators r
      exportDeclaration r start decs
    else statementRule r
  | _ => statementRule r

/-- A name or pattern. -/
def bindingRule (r : Rules) : Read Node := do
  let start ← position
  let withDefault : Read Node := do
    let pStart ← position
    let p ← r.binding
    if ← eatSign (.assign .plain) then
      let value ← within (fun c => { c with withoutIn := false }) r.assignment
      close pStart .assignPat [p, value]
    else return p
  let rest : Read Node := do
    let pStart ← position
    expectSign .ellipsis
    let p ← r.binding
    close pStart .restPat [p, .none]
  match ← token with
  | .sign .lbracket => do
    advance
    let items ← many do
      if ← atSign .rbracket then return none
      if ← eatSign .comma then return some (Node.none, true)
      let item ← if ← atSign .ellipsis then rest else withDefault
      unless ← atSign .rbracket do
        expectSign .comma
        return some (item, true)
      return some (item, false)
    expectSign .rbracket
    let comma := (items.getLast?.map (·.2)).getD false
    close start (.arrayPat comma false) [.ofList (items.map (·.1)), .none]
  | .sign .lbrace => do
    advance
    let (props, comma) ← commaList .rbrace do
      if ← atSign .ellipsis then return ← rest
      let pStart ← position
      let keyToken ← token
      let keySpan := (← get).span
      let key ← propertyKey r
      if ← eatSign .colon then
        let p ← withDefault
        close pStart .keyValuePat [key, p]
      else
        unless isName keyToken do fail (.tokenExpected ":" (← token).label)
        let n : Node :=
          .node (.bindingIdent (wordText keyToken) false) (some keySpan) [.none]
        let value ← if ← eatSign (.assign .plain) then
            within (fun c => { c with withoutIn := false }) r.assignment
          else pure .none
        close pStart .shorthandPat [n, value]
    close start (.objectPat comma false) [.ofList props, .none]
  | _ => do
    let n ← named (fun x => .bindingIdent x false)
    match n with
    | .node k s _ => return .node k s [.none]

end Read

open Read in
/-- The rules at a level of nesting: each rule refers to the rules one level
further in. At the last level nothing can be read. -/
def rulesAt : Nat → Rules
  | 0 =>
    let none : Read Node := fail .expressionExpected
    ⟨none, none, none, none, none, none, none, none, none, fun _ => none⟩
  | depth + 1 =>
    { expression := fun s => expressionRule (rulesAt depth) s
      assignment := fun s => assignmentRule (rulesAt depth) s
      unary := fun s => unaryRule (rulesAt depth) s
      power := fun s => powerRule (rulesAt depth) s
      operand := fun s => operandRule (rulesAt depth) s
      binding := fun s => bindingRule (rulesAt depth) s
      type := fun s => typeRule (rulesAt depth) s
      statement := fun s => statementRule (rulesAt depth) s
      item := fun s => itemRule (rulesAt depth) s
      element := fun inside s => elementRule (rulesAt depth) inside s }

/-- Whether an item makes its program a module. -/
def isModuleItem (n : Node) : Bool :=
  match n.kind with
  | .importDecl _ | .exportDecl | .exportNamed _ _ | .exportDefaultDecl
      | .exportDefaultExpr
  | .exportAll _ | .importEquals _ _ | .exportAssignment | .exportAsNamespace =>
    true
  | _ => false

/-- A program that was read: its tree, its comments, and what was noted about
it. -/
structure Source where
  tree : Node
  comments : CommentMap
  faults : List Fault

/-- The items of a program up to the end of its text. -/
def programItems (r : Rules) : Read (List Node) := do
  let first ← Read.directives (fun _ => pure ()) r.item
  let rest ← Read.many do
    if (← Read.token) == .eof then return none
    return some (← r.item)
  return first ++ rest

/-- Reads a text as a program. A program without items starts where its text
starts, as the comments of such a text do. -/
def Source.read (dialect : Dialect) (text : String) : Except Fault Source := do
  let (reader, interpreter) := Reader.ofString dialect text
  let first := reader.start.pos
  let (items, reader) ←
    (programItems (rulesAt (2 * reader.bound + 32))).run reader
  let start := if interpreter.isSome || items.isEmpty then 0 else first
  let isModule := reader.sawModule || items.any isModuleItem
  let faults := reader.faults.reverse ++
    (if isModule then reader.moduleFaults.reverse else [])
  return ⟨.node (.program isModule interpreter)
    (some ⟨start, reader.lastEnd⟩) items, reader.comments, faults⟩

end NullGuard.Reading
