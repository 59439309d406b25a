import NullGuard.Writing.Expressions

/-!
# Printing statements, declarations and module items
-/

namespace NullGuard.Writing

open NullGuard.Tree Doc

/-- A semicolon. -/
def semi : Doc :=
  word ";"

/-- The body of a loop or branch, behind what leads to it. -/
def bodyDoc (p : Printed) : Doc :=
  asStatement p

/-- Whether a statement is a block. -/
def isBlock (p : Printed) : Bool :=
  match p.kind with
  | .block => true
  | _ => false

/-- A start, step or test of a `for` loop, behind a space if it is there. -/
def afterSpace (p : Printed) : Doc :=
  p.ifSome fun d => space ++ d

/-- `with { … }` behind the source of an import or export. -/
def attributesDoc (p : Printed) : Doc :=
  p.ifSome fun d => space ++ word "with" ++ space ++ d

/-- Names in braces. -/
def namesInBraces (ds : List Doc) (comma : Bool) : Doc :=
  word "\x7b" ++ space ++ commas ds ++ Doc.when comma (word "," ++ space) ++
    Doc.when (!ds.isEmpty) space ++ word "\x7d"

/-- A statement without its place in a list. -/
def statementDoc (k : Kind) (ps : List Printed) : Doc :=
  match k, ps with
  | .exprStmt, [e] => e.doc ++ semi
  | .empty, _ => semi
  | .debugger, _ => word "debugger" ++ semi
  | .withStmt, [object, b] =>
    word "with" ++ space ++ word "(" ++ object.doc ++ word ")" ++ bodyDoc b
  | .returnStmt, [e] =>
    word "return" ++ (if e.isNone then empty else operand e " ") ++ semi
  | .labeled, [n, b] => n.doc ++ word ":" ++ space ++ bodyDoc b
  | .breakStmt, [n] => word "break" ++ afterSpace n ++ semi
  | .continueStmt, [n] => word "continue" ++ afterSpace n ++ semi
  | .ifStmt, [test, yes, no] =>
    word "if" ++ space ++ word "(" ++ test.doc ++ word ")" ++ space ++
      bodyDoc yes ++
      if no.isNone then empty
      else Doc.when (isBlock yes) space ++ word "else" ++ space ++ bodyDoc no
  | .switchStmt, [value, cases] =>
    word "switch(" ++ value.doc ++ word ")\x7b" ++
      lines empty cases.items ++ word "\x7d"
  | .switchCase, [test, stmts] =>
    (if test.isNone then word "default" else word "case" ++ space ++
      test.doc) ++ word ":" ++ Doc.when (!stmts.parts.isEmpty)
      (line ++ indented (separated line (stmts.parts.map asStatement)))
  | .throwStmt, [e] => word "throw" ++ operand e " " ++ semi
  | .tryStmt, [b, handler, finalizer] =>
    word "try" ++ space ++ b.doc ++ handler.ifSome (fun d => space ++ d) ++
      finalizer.ifSome fun d => space ++ word "finally" ++ d
  | .catchClause, [p, b] =>
    word "catch" ++ space ++ p.ifSome (fun d => word "(" ++ d ++ word ")") ++
      space ++ b.doc
  | .whileStmt, [test, b] => word "while(" ++ test.doc ++ word ")" ++ bodyDoc b
  | .doWhile, [test, b] =>
    word "do" ++ space ++ bodyDoc b ++ Doc.when (isBlock b) space ++
      word "while" ++ space ++ word "(" ++ test.doc ++ word ")"
  | .forStmt, [start, test, step, b] =>
    word "for(" ++ start.doc ++ semi ++ afterSpace test ++ semi ++
      afterSpace step ++ word ")" ++ bodyDoc b
  | .forIn, [head, object, b] =>
    word "for" ++ space ++ word "(" ++ head.doc ++ space ++ word "in" ++
      space ++ object.doc ++ word ")" ++ bodyDoc b
  | .forOf isAwait, [head, items, b] =>
    word "for" ++ Doc.when isAwait (space ++ word "await") ++ space ++
      word "(" ++ head.doc ++ space ++ word "of" ++ space ++ items.doc ++
      word ")" ++ bodyDoc b
  | _, _ => empty

/-- A declaration. -/
def declarationDoc (k : Kind) (ps : List Printed) : Doc :=
  match k, ps with
  | .varDecl w isDeclared, ds =>
    mark isDeclared "declare" ++ word w.text ++ space ++ commas (ds.map (·.doc))
  | .usingDecl isAwait, ds =>
    mark isAwait "await" ++ word "using" ++ space ++ commas (ds.map (·.doc))
  | .declarator isDefinite, [n, value] =>
    (if isDefinite then
      match n.kind, n.parts with
      | .bindingIdent x _, [t] =>
        leadOf n.node.span ++ word (x ++ "!") ++ annotated t
      | _, _ => n.doc
    else n.doc) ++ initialised value
  | .fnDecl isDeclared, [n, f] =>
    mark isDeclared "declare" ++ namedFunctionDoc n f
  | .classDecl isDeclared, [n, c] =>
    (classLead c).1 ++ mark isDeclared "declare" ++
      mark (classLead c).2 "abstract" ++ classDoc n c.parts
  | .interfaceDecl isDeclared, [n, tps, bases, ms] =>
    mark isDeclared "declare" ++ word "interface" ++ space ++
      n.doc ++ tps.doc ++ Doc.when (!bases.parts.isEmpty)
      (space ++ word "extends" ++ space ++ commas bases.items) ++
      space ++ word "\x7b" ++ Doc.when (!ms.parts.isEmpty)
      (lines empty (ms.items.map fun d => d ++ semi)) ++ word "\x7d"
  | .heritage, [e, args] => e.doc ++ args.doc
  | .typeAlias isDeclared, [n, tps, t] =>
    mark isDeclared "declare" ++ word "type" ++ space ++ n.doc ++ tps.doc ++
      space ++ word "=" ++ space ++ t.doc ++ semi
  | .enumDecl isDeclared isConst, [n, ms] =>
    mark isDeclared "declare" ++ mark isConst "const" ++ word "enum" ++ space ++
      n.doc ++ space ++ spread "\x7b" "\x7d" (word ",") ms.items
  | .enumMember, [n, value] => n.doc ++ initialised value
  | .moduleDecl isDeclared w, [n, b] =>
    mark isDeclared "declare" ++ mark (w != "global") w ++ n.doc ++
      if b.isNone then semi
      else match b.kind with
        | .moduleBlock => space ++ b.doc
        | _ => b.doc
  | .moduleBlock, items =>
    word "\x7b" ++ Doc.when (!items.isEmpty)
      (lines empty (items.map asStatement)) ++ word "\x7d"
  | .innerModule, [n, b] =>
    word "." ++ n.doc ++ match b.kind with
      | .moduleBlock => space ++ b.doc
      | _ => b.doc
  | _, _ => empty

/-- The specifiers of an import: the default, the namespace, and the names in
braces. -/
def importSpecifiersDoc (ps : List Printed) : Doc :=
  let isNamed (p : Printed) : Bool := match p.kind with
    | .importNamed _ => true
    | _ => false
  let named := ps.filter isNamed
  let others := ps.filter fun p => !isNamed p
  commas (others.map (·.doc) ++ if named.isEmpty then []
    else [namesInBraces (named.map (·.doc)) false])

/-- An import or export, or a part of one. -/
def moduleItemDoc (k : Kind) (ps : List Printed) : Doc :=
  match k, ps with
  | .importDecl typeOnly, [specifiers, source, attrs] =>
    word "import" ++ space ++ mark typeOnly "type" ++
      Doc.when (!specifiers.parts.isEmpty)
      (importSpecifiersDoc specifiers.parts ++ space ++ word "from" ++ space) ++
      source.doc ++ attributesDoc attrs ++ semi
  | .importDefault, [n] => n.doc
  | .importNamed typeOnly, [n, imported] =>
    mark typeOnly "type" ++
      imported.ifSome (fun d => d ++ space ++ word "as" ++ space) ++ n.doc
  | .importNamespace, [n] => word "*" ++ space ++ word "as" ++ space ++ n.doc
  | .exportDecl, [d] =>
    word "export" ++ space ++ d.doc ++ match d.kind with
      | .varDecl _ _ | .usingDecl _ => semi
      | _ => empty
  | .exportNamed typeOnly comma, [specifiers, source, attrs] =>
    word "export" ++ space ++ mark typeOnly "type" ++
      (match specifiers.parts with
        | [p] => match p.kind with
          | .exportNamespace => p.doc
          | _ => namesInBraces [p.doc] comma
        | ps => namesInBraces (ps.map (·.doc)) comma) ++
      source.ifSome (fun d => space ++ word "from" ++ space ++ d) ++
        attributesDoc attrs ++ semi
  | .exportSpecifier typeOnly, [n, exported] =>
    mark typeOnly "type" ++ n.doc ++ exported.ifSome fun d => space ++
      word "as" ++ space ++ d
  | .exportNamespace, [n] => word "*" ++ space ++ word "as" ++ space ++ n.doc
  | .exportDefaultDecl, [d] =>
    word "export" ++ space ++ word "default" ++ space ++ d.doc
  | .exportDefaultExpr, [e] =>
    word "export" ++ space ++ word "default" ++ space ++ operand e "" ++ semi
  | .exportAll typeOnly, [source, attrs] =>
    word "export" ++ space ++ mark typeOnly "type" ++ word "*" ++ space ++
      word "from" ++ space ++ source.doc ++ attributesDoc attrs ++ semi
  | .importEquals isExport typeOnly, [n, reference] =>
    mark isExport "export" ++ word "import" ++ space ++ mark typeOnly "type" ++
      n.doc ++ space ++ word "=" ++ space ++ reference.doc ++ semi
  | .externalModule, [s] => word "require(" ++ s.doc ++ word ")"
  | .exportAssignment, [e] =>
    word "export" ++ space ++ word "=" ++ space ++ e.doc
  | .exportAsNamespace, [n] =>
    word "export" ++ space ++ word "as" ++ space ++ word "namespace" ++ space ++
      n.doc ++ semi
  | _, _ => empty

end NullGuard.Writing
