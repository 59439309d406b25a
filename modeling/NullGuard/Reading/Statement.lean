import NullGuard.Reading.Expression

/-!
# Reading statements

Statements and the declarations among them. Words that begin a declaration only
in typed programs (`type`, `interface`, `namespace`, …) are names everywhere
else, so each of them is recognised together with what follows it.
-/

namespace NullGuard.Reading

open NullGuard.Text NullGuard.Tree

namespace Read

/-- `pattern = start`, in a `for` head or as a statement. -/
def declarator (r : Rules) (word : VarWord) (inFor : Bool) : Read Node := do
  let start ← position
  let n ← r.binding
  let isDefinite ← if (← hasTypes) && isBindingIdent n then eatSign .bang
    else pure false
  let ann ← ascription? r
  let n := if ann.isNone then n else withAscription n false ann
  let value ← if ← eatSign (.assign .plain) then r.assignment else pure .none
  if word = .const && value.isNone && !inFor && !(← context).isAmbient then
    note .constantWithoutValue ⟨start, ← lastEnd⟩
  close start (.declarator isDefinite) [n, value]

/-- Declarators with commas between them. -/
def declarators (r : Rules) (word : VarWord) (inFor : Bool) :
    Read (List Node) := do
  let first ← declarator r word inFor
  let rest ← many do
    unless ← eatSign .comma do return none
    return some (← declarator r word inFor)
  return first :: rest

/-- The end of a variable statement. If something else follows, that is noted
and skipped. -/
def endVariables : Read Unit := do
  unless (← atSign .semi) || (← canEndStatement) do
    let r ← get
    match r.token with
    | .bad cause => failAt cause r.span
    | _ => note .semicolonExpected r.span
    let _ ← many do
      if (← atSign .semi) || (← canEndStatement) then return none
      let r ← get
      if let .bad cause := r.token then failAt cause r.span
      advance
      return some ()
  endStatement

/-- The declaration word that the current token is, if variables follow it. -/
def varWord? : Read (Option VarWord) := do
  match ← token with
  | .word "var" false => return some .var
  | .word "const" false => return some .const
  | .word "let" false =>
    match ← nextToken with
    | .sign .lbracket | .sign .lbrace => return some .let
    | t => return if isName t then some .let else none
  | _ => return none

/-- Whether `using` begins a declaration here. -/
def atUsing : Read Bool := do
  unless ← atWord "using" do return false
  match ← nextOnLine with
  | some (.word w _) => return !(w ∈ keywords) && w != "of"
  | _ => return false

/-- Whether `await using` begins a declaration here. -/
def atAwaitUsing : Read Bool := do
  unless ← atWord "await" do return false
  sees do
    advance
    if ← newLine then return false
    atUsing

/-- `interface`, from its name. -/
def interfaceRest (r : Rules) (start : Nat) (isDeclared : Bool) :
    Read Node := do
  let n ← name
  let tps ← typeParams? r
  let bases ← if ← eatWord "extends" then heritageList r else pure []
  let ms ← typeMembers r
  close start (.interfaceDecl isDeclared) [n, tps, .ofList bases, .ofList ms]

/-- `type name = type`, from its name. -/
def typeAliasRest (r : Rules) (start : Nat) (isDeclared : Bool) :
    Read Node := do
  let n ← name
  let tps ← typeParams? r
  expectSign (.assign .plain)
  let t ← r.type
  endStatement
  close start (.typeAlias isDeclared) [n, tps, t]

/-- `enum`, from its name. -/
def enumRest (r : Rules) (start : Nat) (isDeclared isConst : Bool) :
    Read Node := do
  let n ← name
  expectSign .lbrace
  let (ms, _) ← commaList .rbrace do
    let mStart ← position
    let key ← match ← token with
      | .str raw value => leaf (.str raw value)
      | t => if isWord t then leaf (.name (wordText t)) else fail .nameExpected
    let value ← if ← eatSign (.assign .plain) then r.assignment else pure .none
    close mStart .enumMember [key, value]
  close start (.enumDecl isDeclared isConst) [n, .ofList ms]

/-- The items of a namespace, from brace to brace. -/
def moduleBlock (r : Rules) : Read Node := do
  let start ← position
  expectSign .lbrace
  let items ← many do
    if ← atSign .rbrace then return none
    return some (← r.item)
  expectSign .rbrace
  close start .moduleBlock items

/-- The body of a namespace behind its name, where a dot begins an inner one. -/
def moduleBody (r : Rules) : Nat → Read Node
  | 0 => fail .nameExpected
  | n + 1 => do
    let start ← position
    if ← eatSign .dot then
      let x ← name
      let b ← moduleBody r n
      close start .innerModule [x, b]
    else moduleBlock r

/-- `namespace`, `module` or `global`, from the word. -/
def moduleRest (r : Rules) (start : Nat) (isDeclared : Bool) (word : String) :
    Read Node := do
  let n ← if word = "global" then leaf (.name "global")
    else do
      advance
      match ← token with
      | .str raw value => leaf (.str raw value)
      | _ => name
  let b ← if (← atSign .lbrace) || (← atSign .dot)
    then moduleBody r (← get).bound
    else do
      endStatement
      pure .none
  close start (.moduleDecl isDeclared word) [n, b]

/-- A function declaration, from the word `function`. -/
def functionDeclaration (r : Rules) (start : Nat) (isAsync isDeclared : Bool) :
    Read Node := do
  let (n, f) ← functionParts r start isAsync
  if n.isNone then failAt .nameExpected ⟨start, ← lastEnd⟩
  close start (.fnDecl isDeclared) [n, f]

/-- A class declaration, from the word `class`. -/
def classDeclaration (r : Rules) (start : Nat) (decs : List Node)
    (isAbstract isDeclared : Bool) : Read Node := do
  expectWord "class"
  let n ← name
  let c ← classRest r r.operand start decs isAbstract
  close start (.classDecl isDeclared) [n, c]

/-- A declaration, if one begins here. `start` is where its first word
(`declare`, `export`) stands. -/
def declaration? (r : Rules) (start : Nat) (isDeclared : Bool) :
    Read (Option Node) := do
  let typed ← hasTypes
  let decs ← decorators r
  let nameFollows : Read Bool := do
    match ← nextOnLine with
    | some t => return isName t
    | none => return false
  match ← token with
  | .word "function" false =>
    return some (← functionDeclaration r start false isDeclared)
  | .word "async" false => do
    if (← nextOnLine) == some (.word "function" false) then
      advance
      return some (← functionDeclaration r start true isDeclared)
    return none
  | .word "class" false =>
    return some (← classDeclaration r start decs false isDeclared)
  | .word "abstract" false => do
    if typed && (← nextOnLine) == some (.word "class" false) then
      advance
      return some (← classDeclaration r start decs true isDeclared)
    return none
  | .word "interface" false => do
    if typed && (← nameFollows) then
      advance
      return some (← interfaceRest r start isDeclared)
    return none
  | .word "type" false => do
    if typed && (← nameFollows) then
      advance
      return some (← typeAliasRest r start isDeclared)
    return none
  | .word "enum" false => do
    if typed then
      advance
      return some (← enumRest r start isDeclared false)
    return none
  | .word "const" false => do
    if typed && (← nextToken) == .word "enum" false then
      advance
      advance
      return some (← enumRest r start isDeclared true)
    else variableStatement?
  | .word "namespace" false => do
    if typed && (← nameFollows)
      then return some (← moduleRest r start isDeclared "namespace")
    return none
  | .word "module" false => do
    unless typed do return none
    match ← nextOnLine with
    | some (.str _ _) => return some (← moduleRest r start isDeclared "module")
    | _ => do
      if ← nameFollows
        then return some (← moduleRest r start isDeclared "module")
      return none
  | .word "global" false => do
    if isDeclared && (← nextToken) == .sign .lbrace then
      return some (← moduleRest r start isDeclared "global")
    return none
  | _ => variableStatement?
where
  /-- A variable statement, if one begins here. -/
  variableStatement? : Read (Option Node) := do
    if let some word ← varWord? then
      advance
      let ds ← declarators r word false
      endVariables
      return some (← close start (.varDecl word isDeclared) ds)
    if ← atUsing then
      advance
      let ds ← declarators r .let false
      endVariables
      return some (← close start (.usingDecl false) ds)
    if ← atAwaitUsing then
      advance
      advance
      let ds ← declarators r .let false
      endVariables
      return some (← close start (.usingDecl true) ds)
    return none

/-- Whether `declare` begins a declaration here. -/
def atDeclare : Read Bool := do
  unless (← hasTypes) && (← atWord "declare") do return false
  match ← nextOnLine with
  | some (.word w _) =>
    return w ∈ ["const", "let", "var", "function", "class", "abstract", "enum",
      "interface", "type", "namespace", "module", "global", "async"]
  | _ => return false

/-- A declaration with or without `declare`, if one begins here. -/
def anyDeclaration? (r : Rules) (start : Nat) : Read (Option Node) := do
  if ← atDeclare then
    advance
    within (fun c => { c with isAmbient := true }) (declaration? r start true)
  else declaration? r start false

/-- An expression in parentheses that belongs to a statement. -/
def condition (r : Rules) : Read Node := do
  expectSign .lparen
  let e ← within (fun c =>
    { c with withoutIn := false, inConditional := false }) r.expression
  expectSign .rparen
  return e

/-- Statements from brace to brace. -/
def block (r : Rules) : Read Node := do
  let start ← position
  expectSign .lbrace
  let stmts ← statementsUntilBrace r.statement
  close start .block stmts

/-- The body of a loop. -/
def loopBody (r : Rules) : Read Node :=
  within (fun c => { c with canBreak := true, canContinue := true }) r.statement

/-- What stands behind the head of a `for` loop that goes through something. -/
def forEach (r : Rules) (start : Nat) (isAwait : Bool) (head : Node) :
    Read Node := do
  if ← eatWord "of" then
    let items ← r.assignment
    expectSign .rparen
    let b ← loopBody r
    close start (.forOf isAwait) [head, items, b]
  else
    expectWord "in"
    let object ← r.expression
    expectSign .rparen
    let b ← loopBody r
    close start .forIn [head, object, b]

/-- What stands behind the start of a counting `for` loop. -/
def forCount (r : Rules) (start : Nat) (begin : Node) : Read Node := do
  expectSign .semi
  let test ← if ← atSign .semi then pure .none else r.expression
  expectSign .semi
  let step ← if ← atSign .rparen then pure .none else r.expression
  expectSign .rparen
  let b ← loopBody r
  close start .forStmt [begin, test, step, b]

/-- Any `for` loop. -/
def forStatement (r : Rules) : Read Node := do
  let start ← position
  expectWord "for"
  let isAwait ← eatWord "await"
  expectSign .lparen
  if ← atSign .semi then return ← forCount r start .none
  let headStart ← position
  let inHead {α : Type} (p : Read α) : Read α :=
    within (fun c => { c with withoutIn := true }) p
  let head? ← do
    if let some word ← varWord? then
      advance
      let ds ← inHead (declarators r word true)
      pure (some (← close headStart (.varDecl word false) ds))
    else if ← atUsing then
      advance
      let ds ← inHead (declarators r .let true)
      pure (some (← close headStart (.usingDecl false) ds))
    else if ← atAwaitUsing then
      advance
      advance
      let ds ← inHead (declarators r .let true)
      pure (some (← close headStart (.usingDecl true) ds))
    else pure none
  match head? with
  | some head => do
    if (← atWord "of") || (← atWord "in") then forEach r start isAwait head
    else forCount r start head
  | none => do
    let e ← inHead r.expression
    if (← atWord "of") || (← atWord "in") then
      let target ← assignable .plain e
      forEach r start isAwait (toPattern target)
    else forCount r start e

/-- `switch`. -/
def switchStatement (r : Rules) : Read Node := do
  let start ← position
  expectWord "switch"
  let value ← condition r
  expectSign .lbrace
  let cases ← within (fun c => { c with canBreak := true }) <| many do
    if ← atSign .rbrace then return none
    let cStart ← position
    let test ← if ← eatWord "default" then pure .none
      else do
        expectWord "case"
        r.expression
    expectSign .colon
    let stmts ← many do
      if (← atWord "case") || (← atWord "default") || (← atSign .rbrace) ||
        (← token) == .eof then
        return none
      return some (← r.statement)
    return some (← close cStart .switchCase [test, .ofList stmts])
  expectSign .rbrace
  close start .switchStmt [value, .ofList cases]

/-- `try` with its clauses. -/
def tryStatement (r : Rules) : Read Node := do
  let start ← position
  expectWord "try"
  let b ← block r
  let cStart ← position
  let handler ← if ← eatWord "catch" then do
      let p ← if ← eatSign .lparen then do
          let p ← r.binding
          let ann ← ascription? r
          expectSign .rparen
          pure (if ann.isNone then p else withAscription p false ann)
        else pure .none
      let cb ← block r
      close cStart .catchClause [p, cb]
    else pure .none
  let finalizer ← if ← eatWord "finally" then block r else pure .none
  close start .tryStmt [b, handler, finalizer]

/-- `break` or `continue`, with a label if one follows on the line. -/
def jump (word : String) (kind : Kind) (cause : Cause) (allowed : Bool) :
    Read Node := do
  let start ← position
  expectWord word
  let label ← if isName (← token) && !(← newLine) then name else pure .none
  endStatement
  let n ← close start kind [label]
  if label.isNone && !allowed then note cause (← spanOf n)
  return n

/-- A statement with a label in front of it. -/
def labeledStatement (r : Rules) : Read Node := do
  let start ← position
  let n ← name
  let text := match n.kind with
    | .name x => x
    | _ => ""
  expectSign .colon
  if (← context).labels.contains text then
    note (.duplicateLabel text) (← spanOf n)
  let b ← within (fun c => { c with labels := text :: c.labels }) r.statement
  close start .labeled [n, b]

/-- An expression as a statement. -/
def expressionStatement (r : Rules) : Read Node := do
  let start ← position
  let e ← r.expression
  endStatement
  close start .exprStmt [e]

/-- A statement that begins with a keyword of its own. -/
def keywordStatement (r : Rules) (start : Nat) (word : String) : Read Node := do
  match word with
  | "if" => do
    advance
    let test ← condition r
    let yes ← r.statement
    let no ← if ← eatWord "else" then r.statement else pure .none
    close start .ifStmt [test, yes, no]
  | "for" => forStatement r
  | "while" => do
    advance
    let test ← condition r
    let b ← loopBody r
    close start .whileStmt [test, b]
  | "do" => do
    advance
    let b ← loopBody r
    expectWord "while"
    let test ← condition r
    let _ ← eatSign .semi
    close start .doWhile [test, b]
  | "return" => do
    advance
    let value ← if ← canEndStatement then pure .none else r.expression
    endStatement
    let n ← close start .returnStmt [value]
    unless (← context).inFunction do note .returnOutsideFunction (← spanOf n)
    return n
  | "break" => do jump "break" .breakStmt .breakOutsideLoop (← context).canBreak
  | "continue" => do
    jump "continue" .continueStmt .continueOutsideLoop (← context).canContinue
  | "throw" => do
    advance
    let e ← r.expression
    endStatement
    close start .throwStmt [e]
  | "try" => tryStatement r
  | "switch" => switchStatement r
  | "with" => do
    noteStrict .withInStrictCode (← get).span
    advance
    let object ← condition r
    let b ← r.statement
    close start .withStmt [object, b]
  | "debugger" => do
    advance
    endStatement
    close start .debugger []
  | _ => expressionStatement r

/-- A statement. -/
def statementRule (r : Rules) : Read Node := do
  let start ← position
  match ← token with
  | .sign .lbrace => block r
  | .sign .semi => leaf .empty
  | .sign .at => do
    match ← anyDeclaration? r start with
    | some n => return n
    | none => fail .expressionExpected
  | .word w isEscaped => do
    if isName (← token) && (← nextToken) == .sign .colon
      then return ← labeledStatement r
    if isEscaped then return ← expressionStatement r
    if let some n ← anyDeclaration? r start then return n
    keywordStatement r start w
  | _ => expressionStatement r

end Read

end NullGuard.Reading
