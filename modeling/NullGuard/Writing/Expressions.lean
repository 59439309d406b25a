import NullGuard.Writing.Types

/-!
# Printing expressions, patterns and class members
-/

namespace NullGuard.Writing

open NullGuard.Tree Doc

/-- Properties, items or members on lines of their own, between two signs. -/
def spread (opening closing : String) (sep : Doc) (ds : List Doc) : Doc :=
  word opening ++ Doc.when (!ds.isEmpty) (lines sep ds) ++ word closing

/-- What of a function stands behind its name: type parameters, parameters,
result type and body. A missing body is a semicolon. -/
def functionDoc (gap : Doc) (parts : List Printed) : Doc :=
  match parts with
  | [params, _, body, tps, t] =>
    tps.doc ++ inParens params.items ++ annotated t ++
      if body.isNone then word ";" else gap ++ body.doc
  | _ => empty

/-- Whether a function is asynchronous, and whether it is a generator. -/
def functionMarks (k : Kind) : Bool × Bool :=
  match k with
  | .function isAsync isGenerator => (isAsync, isGenerator)
  | _ => (false, false)

/-- Decorators, each on a line of its own. -/
def decoratorLines (decs : List Printed) : Doc :=
  concat (decs.map fun d => d.doc ++ line)

/-- The words that modifiers are written as, in front of a name. -/
def modifierWords (m : Modifiers) : Doc :=
  (match m.access with
    | some a => word a.text ++ space
    | none => empty) ++
  mark m.isDeclared "declare" ++ mark m.isStatic "static" ++
    mark m.isAbstract "abstract" ++
  mark m.isOverride "override" ++ mark m.isReadonly "readonly"

/-- A class from the word `class` on. -/
def classDoc (name : Printed) (parts : List Printed) : Doc :=
  match parts with
  | [_, members, base, tps, superArgs, implemented] =>
    word "class" ++ name.ifSome (fun d => space ++ d) ++ tps.doc ++ base.ifSome
      (fun d => space ++ word "extends" ++ space ++ d ++ superArgs.doc) ++
      Doc.when (!implemented.parts.isEmpty)
      (space ++ word "implements" ++ space ++ commas implemented.items) ++
      space ++ word "\x7b" ++ lines empty members.items ++ word "\x7d"
  | _ => empty

/-- The decorators of a class, and whether it is abstract. -/
def classLead (c : Printed) : Doc × Bool :=
  let decs := match c.parts with
    | d :: _ => decoratorLines d.parts
    | [] => empty
  match c.kind with
  | .classBody isAbstract => (decs, isAbstract)
  | _ => (decs, false)

/-- A function from the word `function` on. -/
def namedFunctionDoc (name f : Printed) : Doc :=
  let (isAsync, isGenerator) := functionMarks f.kind
  mark isAsync "async" ++ word "function" ++ Doc.when isGenerator (word "*") ++
    name.ifSome (fun d => space ++ d) ++ functionDoc space f.parts

/-- A method with the words in front of its key; `gap` stands between key and
parameters. -/
def methodDoc (sort : MethodSort) (gap : Doc) (key f : Printed)
    (isOptional : Bool) : Doc :=
  let (isAsync, isGenerator) := functionMarks f.kind
  mark isAsync "async" ++ Doc.when isGenerator (word "*") ++
    (match sort with
      | .method => empty
      | .getter => word "get" ++ space
      | .setter => word "set" ++ space) ++
    key.doc ++ Doc.when isOptional (word "?") ++ gap ++
      functionDoc space f.parts

/-- A member of a class. -/
def memberDoc (k : Kind) (ps : List Printed) : Doc :=
  match k, ps with
  | .constructor m, [_, params, body] =>
    modifierWords m ++ word "constructor" ++ inParens params.items ++
      if body.isNone then word ";" else body.doc
  | .method sort m, [key, f] =>
    let decs := match f.parts with
      | [_, decs, _, _, _] => decoratorLines decs.parts
      | _ => empty
    decs ++ modifierWords m ++ methodDoc sort empty key f m.isOptional
  | .property m, [key, value, t, decs] =>
    decoratorLines decs.parts ++ modifierWords m ++ key.doc ++
      Doc.when m.isOptional (word "?") ++ Doc.when m.isDefinite (word "!") ++
      annotated t ++ initialised value ++ word ";"
  | .accessorProperty m, [key, value, t, decs] =>
    decoratorLines decs.parts ++ modifierWords m ++ word "accessor" ++
      space ++ key.doc ++ Doc.when m.isDefinite (word "!") ++ annotated t ++
      initialised value ++ word ";"
  | .staticBlock, [b] => word "static" ++ b.doc
  | .emptyMember, _ => word ";"
  | .paramProperty m, [decs, p] =>
    concat (decs.parts.map fun d => d.doc ++ space) ++ modifierWords m ++ p.doc
  | .decorator, [e] => word "@" ++ e.doc
  | _, _ => empty

/-- A pattern. -/
def patternDoc (k : Kind) (ps : List Printed) : Doc :=
  match k, ps with
  | .bindingIdent n isOptional, [t] =>
    word n ++ Doc.when isOptional (word "?") ++ annotated t
  | .arrayPat comma isOptional, [items, t] =>
    word "[" ++ commas items.items ++ Doc.when comma (word "," ++ space) ++
      word "]" ++ Doc.when isOptional (word "?") ++ annotated t
  | .objectPat comma isOptional, [props, t] =>
    word "\x7b" ++ space ++ commas props.items ++ Doc.when comma
      (word "," ++ space) ++ Doc.when (!props.parts.isEmpty) space ++
      word "\x7d" ++ Doc.when isOptional (word "?") ++ annotated t
  | .restPat, [p, t] => word "..." ++ p.doc ++ annotated t
  | .assignPat, [p, value] => p.doc ++ space ++ word "=" ++ space ++ value.doc
  | .keyValuePat, [key, p] => key.doc ++ word ":" ++ space ++ p.doc
  | .shorthandPat, [n, value] => n.bare ++ initialised value
  | .exprPat, [e] => e.doc
  | .param, [decs, p] =>
    concat (decs.parts.map fun d => d.doc ++ space) ++ p.doc
  | _, _ => empty

/-- Whether a number would swallow a dot behind it. -/
def swallowsDot (n : Node) : Bool :=
  match n.kind with
  | .num raw => raw.toList.all fun c => c.isDigit || c == '_'
  | _ => false

/-- Whether two signs would run together: `-` before `-`, or `+` before `+`. -/
def runsTogether (op : UnaryOp) (operand : Node) : Bool :=
  match op, operand.kind with
  | .minus, .unary .minus | .plus, .unary .plus => true
  | .minus, .update .decrement true | .plus, .update .increment true => true
  | _, _ => false

/-- The object and property of a member access, with `link` in place of the
dot. -/
def accessDoc (object property : Printed) (isOptional : Bool) : Doc :=
  match property.kind with
  | .computed => object.doc ++ Doc.when isOptional (word "?.") ++ property.doc
  | _ =>
    object.doc ++ Doc.when (swallowsDot object.node) (word ".") ++
      word (if isOptional then "?." else ".") ++ property.doc

/-- A property of an object, or a key. -/
def propertyDoc (k : Kind) (ps : List Printed) : Doc :=
  match k, ps with
  | .shorthand n, _ => word n
  | .shorthandInit n, [value] =>
    word n ++ space ++ word "=" ++ space ++ value.doc
  | .keyValue, [key, value] => key.doc ++ word ":" ++ space ++ value.doc
  | .getterProp, [key, t, body] =>
    word "get" ++ space ++ key.doc ++ space ++ word "()" ++ annotated t ++
      space ++ body.doc
  | .setterProp, [key, thisParam, p, body] =>
    word "set" ++ space ++ key.doc ++ space ++ inParens ((if thisParam.isNone
      then [] else [thisParam.doc]) ++ [p.doc]) ++ body.doc
  | .methodProp, [key, f] => methodDoc .method space key f false
  | .computed, [e] => word "[" ++ e.doc ++ word "]"
  | .propName n, _ => word n
  | .privateName n, _ => word ("#" ++ n)
  | .spread, [e] => word "..." ++ e.doc
  | _, _ => empty

/-- An arrow function. -/
def arrowDoc (isAsync : Bool) (ps : List Printed) : Doc :=
  match ps with
  | [params, body, tps, t] =>
    mark isAsync "async" ++ tps.doc ++ inParens params.items ++ annotated t ++
      word "=>" ++
      match body.kind with
      | .block => body.doc
      | _ => indented body.doc
  | _ => empty

/-- An expression. -/
def expressionDoc (k : Kind) (ps : List Printed) : Doc :=
  match k, ps with
  | .ident n, _ => word n
  | .str raw _, _ | .num raw, _ | .bigint raw, _ | .regex raw, _ => word raw
  | .bool b, _ => word (if b then "true" else "false")
  | .null, _ => word "null"
  | .this, _ => word "this"
  | .super, _ => word "super"
  | .importWord, _ => word "import"
  | .metaProp text, _ => word text
  | .array comma, items =>
    word "[" ++ Doc.when (!items.isEmpty)
      (line ++ indented (separated (word "," ++ line) (items.map (·.doc)) ++
        Doc.when comma (word "," ++ space)) ++ line) ++ word "]"
  | .object _, props => spread "\x7b" "\x7d" (word ",") (props.map (·.doc))
  | .fnExpr, [n, f] => namedFunctionDoc n f
  | .classExpr, [n, c] =>
    (classLead c).1 ++ mark (classLead c).2 "abstract" ++ classDoc n c.parts
  | .arrow isAsync, ps => arrowDoc isAsync ps
  | .unary op, [e] =>
    word op.text ++ Doc.when (op.isWord || runsTogether op e.node) space ++
      e.doc
  | .update op before, [e] =>
    if before then word op.text ++ e.doc else e.doc ++ word op.text
  | .binary op, [l, r] => l.doc ++ space ++ word op.text ++ space ++ r.doc
  | .assign op, [target, value] =>
    target.bare ++ space ++ word op.text ++ space ++ value.doc
  | .member, [object, property] => accessDoc object property false
  | .superMember, [object, property] => accessDoc object property false
  | .optMember isOptional, [object, property] =>
    accessDoc object property isOptional
  | .cond, [test, yes, no] =>
    test.doc ++ space ++ word "?" ++ space ++ yes.doc ++ space ++ word ":" ++
      space ++ no.doc
  | .call, [callee, args, tas] => callee.doc ++ tas.doc ++ inParens args.items
  | .optCall isOptional, [callee, args, tas] =>
    callee.doc ++ Doc.when isOptional (word "?.") ++ tas.doc ++
      inParens args.items
  | .new, [callee, args, tas] =>
    word "new" ++ space ++ callee.doc ++ tas.doc ++ if args.isNone then empty
      else inParens args.items
  | .seq, es => commas (es.map (·.doc))
  | .yield isDelegate, [e] =>
    word "yield" ++ Doc.when isDelegate (word "*") ++ if e.isNone then empty
      else operand e " "
  | .await, [e] => word "await" ++ space ++ e.doc
  | .paren, [e] => word "(" ++ e.doc ++ word ")"
  | .template chunks, es =>
    word "\x60" ++ interleaved chunks (es.map (·.doc)) ++ word "\x60"
  | .tagged, [tag, tas, t] => tag.doc ++ tas.doc ++ t.doc
  | .typeAssertion, [e, t] => word "<" ++ t.doc ++ word ">" ++ e.doc
  | .constAssertion, [e] => e.doc ++ space ++ word "as" ++ space ++ word "const"
  | .nonNull, [e] => e.doc ++ word "!"
  | .asType, [e, t] => e.doc ++ space ++ word "as" ++ space ++ t.doc
  | .satisfies, [e, t] => e.doc ++ space ++ word "satisfies" ++ space ++ t.doc
  | .instantiation, [e, tas] => e.doc ++ tas.doc
  | _, _ => empty

end NullGuard.Writing
