import NullGuard.Text.Span
import NullGuard.Tree.Operator

/-!
# The tree of a program

One type for every piece of a program: a `Node` has a kind, the span it was read
from, and children. A node that the rewriter makes has no span. The kind carries
what is not a subtree (names, spellings, flags) and says which children to
expect; its comment lists them in order. A missing part is a child of kind
`absent`, and a part that is itself a sequence is a child of kind `list`, so the
position of a child never depends on the others.

Children stand in the order in which the analysis visits them. That is source
order except for a decorated or typed part, which comes behind the part it
belongs to (the body of a function precedes its type parameters), and for `do …
while`, whose condition comes first.

With one node shape a pass over programs treats the few kinds it is about and
goes through the children of all others; `Node.induct` is the matching proof
principle.
-/

namespace NullGuard.Tree

open NullGuard.Text (Span)

/-- What a node in type position is. -/
inductive TypeForm where
  /-- `: type` or the target of a function type's arrow; children: the type. -/
  | ascription
  /-- A predefined type such as `any`. -/
  | keyword (word : String)
  /-- `this` as a type. -/
  | self
  /-- `(params) => type`; children: list of parameters, type parameters?,
  ascription. -/
  | function
  /-- `new (params) => type`; children as for `function`. -/
  | constructor (isAbstract : Bool)
  /-- `Name<args>`; children: entity name, type arguments?. -/
  | reference
  /-- `left.right`; children: entity name, property name. -/
  | qualified
  /-- `typeof name`; children: entity name or import type, type arguments?. -/
  | query
  /-- `{ members }`; children: the members. -/
  | members
  /-- `type[]`; children: the type. -/
  | array
  /-- `[elements]`; children: the elements. -/
  | tuple
  /-- An element of a tuple; children: label pattern?, type. -/
  | tupleElement
  /-- `type?` in a tuple; children: the type. -/
  | optional
  /-- `...type` in a tuple; children: the type. -/
  | rest
  /-- `a | b`; children: the alternatives. -/
  | union
  /-- `a & b`; children: the parts. -/
  | intersection
  /-- `check extends bound ? yes : no`; children: the four types. -/
  | conditional
  /-- `infer T`; children: the type parameter. -/
  | infer
  /-- `(type)`; children: the type. -/
  | paren
  /-- `keyof type` and its like; children: the type. -/
  | operator (word : String)
  /-- `object[index]`; children: the two types. -/
  | indexed
  /-- `{ [K in bound]: type }`; children: type parameter, name type?, type?. -/
  | mapped (isReadonly isOptional : MappedMark)
  /-- A literal as a type; children: the literal. -/
  | literal
  /-- A template as a type, with its `chunks`; children: the types between
  them. -/
  | template (chunks : List String)
  /-- `asserts name is type`; children: name or `this`, ascription?. -/
  | predicate (asserts : Bool)
  /-- `import("module").name<args>`; children: string, entity name?, type
  arguments?. -/
  | imported
  /-- `<T, U>` in a declaration; children: the parameters. -/
  | params
  /-- A type parameter; children: name, bound?, default?. -/
  | param (isIn isOut isConst : Bool)
  /-- `<A, B>` in a use; children: the types. -/
  | args
  /-- `(params): type` as a member; children: list of parameters, ascription?,
  type parameters?. -/
  | callSignature
  /-- `new (params): type` as a member; children as for `callSignature`. -/
  | constructSignature
  /-- `key?: type`; children: key, ascription?. -/
  | propertySignature (isReadonly isComputed isOptional : Bool)
  /-- `get key(): type`; children: key, ascription?. -/
  | getterSignature (isComputed : Bool)
  /-- `set key(param)`; children: key, parameter. -/
  | setterSignature (isComputed : Bool)
  /-- `key?(params): type`; children: key, list of parameters, ascription?, type
  parameters?. -/
  | methodSignature (isComputed isOptional : Bool)
  /-- `[key: type]: type`; children: list of parameters, ascription?. -/
  | indexSignature (isReadonly isStatic : Bool)
deriving DecidableEq, Repr

/-- What a node of embedded markup is. -/
inductive MarkupForm where
  /-- `<a>…</a>`; children: opening tag, list of contents, closing tag?. -/
  | element
  /-- `<>…</>`; children: the contents. -/
  | fragment
  /-- `<name attributes>`; children: name, list of attributes, type
  arguments?. -/
  | opening (isSelfClosing : Bool)
  /-- `</name>`; children: name. -/
  | closing
  /-- `name=value`; children: name, value?. -/
  | attribute
  /-- Text between tags. -/
  | text (raw : String)
  /-- `{expression}`; children: an expression, or `empty`. -/
  | container
  /-- Nothing but comments between the braces. -/
  | empty
  /-- `{...expression}` between tags; children: the expression. -/
  | spread
  /-- A name of an element that is a single word. -/
  | name (name : String)
  /-- `object.property` as a name; children: name, property name. -/
  | member
  /-- `space:name` as a name. -/
  | spaced (space name : String)
deriving DecidableEq, Repr

/-- What a node is, with everything about it that is not a subtree. -/
inductive Kind where
  /-- A part that is not there. -/
  | absent
  /-- A part that is a sequence; children: its items. -/
  | list
  -- Programs and module items
  /-- A program; children: its statements or module items. -/
  | program (isModule : Bool) (interpreter : Option String)
  /-- `import specifiers from source`; children: list of specifiers, source,
  attributes?. -/
  | importDecl (typeOnly : Bool)
  /-- The default specifier; children: local name. -/
  | importDefault
  /-- `imported as local`; children: local name, imported name?. -/
  | importNamed (typeOnly : Bool)
  /-- `* as local`; children: local name. -/
  | importNamespace
  /-- `export declaration`; children: the declaration. -/
  | exportDecl
  /-- `export { specifiers } from source`; children: list of specifiers,
  source?, attributes?. -/
  | exportNamed (typeOnly trailingComma : Bool)
  /-- `name as exported`; children: name, exported name?. -/
  | exportSpecifier (typeOnly : Bool)
  /-- `* as name`; children: name. -/
  | exportNamespace
  /-- `export default` with a function, class or interface; children: it. -/
  | exportDefaultDecl
  /-- `export default` with an expression; children: it. -/
  | exportDefaultExpr
  /-- `export * from source`; children: source, attributes?. -/
  | exportAll (typeOnly : Bool)
  /-- `import name = reference`; children: name, entity name or `require`. -/
  | importEquals (isExport typeOnly : Bool)
  /-- `require("module")` behind `import name =`; children: the string. -/
  | externalModule
  /-- `export = expression`; children: the expression. -/
  | exportAssignment
  /-- `export as namespace name`; children: the name. -/
  | exportAsNamespace
  -- Statements
  /-- An expression as a statement; children: it. -/
  | exprStmt
  /-- `{ statements }`; children: the statements. -/
  | block
  /-- `;` -/
  | empty
  /-- `debugger` -/
  | debugger
  /-- `with (object) body`; children: both. -/
  | withStmt
  /-- `return value`; children: value?. -/
  | returnStmt
  /-- `label: body`; children: name, statement. -/
  | labeled
  /-- `break label`; children: name?. -/
  | breakStmt
  /-- `continue label`; children: name?. -/
  | continueStmt
  /-- `if (test) yes else no`; children: test, statement, statement?. -/
  | ifStmt
  /-- `switch (value) { cases }`; children: value, list of cases. -/
  | switchStmt
  /-- `case test:` or `default:`; children: test?, list of statements. -/
  | switchCase
  /-- `throw value`; children: value. -/
  | throwStmt
  /-- `try`; children: block, catch clause?, block?. -/
  | tryStmt
  /-- `catch (pattern) { … }`; children: pattern?, block. -/
  | catchClause
  /-- `while (test) body`; children: both. -/
  | whileStmt
  /-- `do body while (test)`; children: test, body. -/
  | doWhile
  /-- `for (start; test; step) body`; children: start?, test?, step?, body. -/
  | forStmt
  /-- `for (head in object) body`; children: head, object, body. -/
  | forIn
  /-- `for (head of items) body`; children: head, items, body. -/
  | forOf (isAwait : Bool)
  -- Declarations
  /-- `var`, `let` and `const`; children: the declarators. -/
  | varDecl (word : VarWord) (isDeclared : Bool)
  /-- `using`; children: the declarators. -/
  | usingDecl (isAwait : Bool)
  /-- `pattern = start`; children: pattern, start?. -/
  | declarator (isDefinite : Bool)
  /-- A function declaration; children: name, function. -/
  | fnDecl (isDeclared : Bool)
  /-- A class declaration; children: name, class. -/
  | classDecl (isDeclared : Bool)
  /-- `interface`; children: name, type parameters?, list of bases, list of
  members. -/
  | interfaceDecl (isDeclared : Bool)
  /-- A base of an interface or class; children: expression, type arguments?. -/
  | heritage
  /-- `type name = type`; children: name, type parameters?, type. -/
  | typeAlias (isDeclared : Bool)
  /-- `enum`; children: name, list of members. -/
  | enumDecl (isDeclared isConst : Bool)
  /-- A member of an enum; children: name or string, value?. -/
  | enumMember
  /-- `namespace`, `module` or `global`; children: name or string, body?. -/
  | moduleDecl (isDeclared : Bool) (word : String)
  /-- The items of a namespace; children: they. -/
  | moduleBlock
  /-- The rest of a dotted namespace; children: name, body. -/
  | innerModule
  -- Names
  /-- An identifier as an expression, and a word key of a type member. -/
  | ident (name : String)
  /-- An identifier that is neither an expression nor a pattern: a declared
  function, a label, a name in a specifier or in a type. -/
  | name (name : String)
  /-- An identifier as a pattern; children: ascription?. -/
  | bindingIdent (name : String) (isOptional : Bool)
  /-- A word that names a property. -/
  | propName (name : String)
  /-- `#name`. -/
  | privateName (name : String)
  -- Literals
  /-- A string as it was written, and its value if that is a sequence of
  characters. -/
  | str (raw : String) (value : Option String)
  | num (raw : String)
  | bigint (raw : String)
  | bool (value : Bool)
  | null
  | regex (raw : String)
  -- Expressions
  | this
  | super
  /-- `import` as a callee. -/
  | importWord
  /-- `[items]`; children: expressions, spreads, and `absent` for a hole. -/
  | array (trailingComma : Bool)
  /-- `...expression`; children: the expression. -/
  | spread
  /-- `{ properties }`; children: the properties. -/
  | object (trailingComma : Bool)
  /-- A property that is named as its value. -/
  | shorthand (name : String)
  /-- `name = value` in an object that turns out to be a pattern; children: the
  value. -/
  | shorthandInit (name : String)
  /-- `key: value`; children: both. -/
  | keyValue
  /-- `get key() body`; children: key, ascription?, block. -/
  | getterProp
  /-- `set key(param) body`; children: key, `this` parameter?, pattern,
  block. -/
  | setterProp
  /-- `key() body`; children: key, function. -/
  | methodProp
  /-- `[expression]` as a key or property; children: the expression. -/
  | computed
  /-- A function expression; children: name?, function. -/
  | fnExpr
  /-- A class expression; children: name?, class. -/
  | classExpr
  /-- Parameters and body; children: list of parameters, list of decorators,
  block?, type parameters?, ascription?. -/
  | function (isAsync isGenerator : Bool)
  /-- A parameter; children: list of decorators, pattern. -/
  | param
  /-- `(params) => body`; children: list of patterns, block or expression, type
  parameters?, ascription?. -/
  | arrow (isAsync : Bool)
  /-- Heritage and members; children: list of decorators, list of members,
  base?, type parameters?, base's type arguments?, list of implemented types. -/
  | classBody (isAbstract : Bool)
  /-- `operator operand`; children: the operand. -/
  | unary (op : UnaryOp)
  /-- `++` and `--`; children: the operand. -/
  | update (op : UpdateOp) (before : Bool)
  /-- `left operator right`; children: both. -/
  | binary (op : BinaryOp)
  /-- `target operator value`; children: both. -/
  | assign (op : AssignOp)
  /-- `object.property`, `object[…]`; children: object, `propName`,
  `privateName` or `computed`. -/
  | member
  /-- `super.property`; children: `super`, property. -/
  | superMember
  /-- `test ? yes : no`; children: the three. -/
  | cond
  /-- `callee(arguments)`; children: callee, list of arguments, type
  arguments?. -/
  | call
  /-- `new callee(arguments)`; children: callee, list of arguments?, type
  arguments?. -/
  | new
  /-- `a, b`; children: the expressions. -/
  | seq
  /-- `yield value`; children: value?. -/
  | yield (isDelegate : Bool)
  /-- `await value`; children: the value. -/
  | await
  /-- `new.target` and `import.meta`. -/
  | metaProp (text : String)
  /-- `(expression)`; children: the expression. -/
  | paren
  /-- A template with its `chunks`; children: the expressions between them. -/
  | template (chunks : List String)
  /-- `tag` before a template; children: tag, type arguments?, template. -/
  | tagged
  /-- `object?.property`, and a member access behind it; children as for
  `member`. -/
  | optMember (isOptional : Bool)
  /-- `callee?.(arguments)`, and a call behind it; children as for `call`. -/
  | optCall (isOptional : Bool)
  /-- `<type>value`; children: value, type. -/
  | typeAssertion
  /-- `value as const`, or `<const>value`; children: the value. -/
  | constAssertion
  /-- `value!`; children: the value. -/
  | nonNull
  /-- `value as type`; children: both. -/
  | asType
  /-- `value satisfies type`; children: both. -/
  | satisfies
  /-- `value<args>`; children: value, type arguments. -/
  | instantiation
  -- Class members
  /-- A constructor; children: key, list of parameters, block?. -/
  | constructor (modifiers : Modifiers)
  /-- A method or accessor; children: key, function. -/
  | method (sort : MethodSort) (modifiers : Modifiers)
  /-- A field; children: key, value?, ascription?, list of decorators. -/
  | property (modifiers : Modifiers)
  /-- `accessor key = value`; children as for `property`. -/
  | accessorProperty (modifiers : Modifiers)
  /-- `static { … }`; children: block. -/
  | staticBlock
  /-- `;` between members. -/
  | emptyMember
  /-- A parameter that declares a field; children: list of decorators,
  pattern. -/
  | paramProperty (modifiers : Modifiers)
  /-- `@expression`; children: the expression. -/
  | decorator
  -- Patterns
  /-- `[patterns]`; children: list of patterns with `absent` for a hole,
  ascription?. -/
  | arrayPat (trailingComma isOptional : Bool)
  /-- `{ patterns }`; children: list of properties, ascription?. -/
  | objectPat (trailingComma isOptional : Bool)
  /-- `...pattern`; children: pattern, ascription?. -/
  | restPat
  /-- `pattern = default`; children: both. -/
  | assignPat
  /-- `key: pattern`; children: both. -/
  | keyValuePat
  /-- `name = default` in an object pattern; children: binding identifier,
  default?. -/
  | shorthandPat
  /-- Something other than a name that is assigned to; children: the
  expression. -/
  | exprPat
  -- The other two families
  | type (form : TypeForm)
  | markup (form : MarkupForm)
deriving DecidableEq, Repr

/-- A piece of a program. -/
inductive Node where
  | node (kind : Kind) (span : Option Span) (children : List Node)

namespace Node

/-- What the node is. -/
def kind : Node → Kind
  | node k _ _ => k

/-- Where the node was read from; a made node was read from nowhere. -/
def span : Node → Option Span
  | node _ s _ => s

/-- The subtrees, in visiting order. -/
def children : Node → List Node
  | node _ _ ns => ns

@[simp] theorem kind_node (k : Kind) (s : Option Span) (ns : List Node) :
    (node k s ns).kind = k :=
  rfl

@[simp] theorem span_node (k : Kind) (s : Option Span) (ns : List Node) :
    (node k s ns).span = s :=
  rfl

@[simp] theorem children_node (k : Kind) (s : Option Span) (ns : List Node) :
    (node k s ns).children = ns :=
  rfl

/-- **Induction on programs.** A property of nodes that follows from the same
property of the children holds of every node. -/
theorem induct {P : Node → Prop}
    (step : ∀ k s ns, (∀ n ∈ ns, P n) → P (node k s ns)) (n : Node) : P n :=
  Node.rec (motive_1 := P) (motive_2 := fun ns => ∀ n ∈ ns, P n)
    (fun k s ns ih => step k s ns ih)
    (fun _ h => nomatch h)
    (fun _ _ ihHead ihTail m hm => by
      rcases List.mem_cons.1 hm with rfl | hm
      · exact ihHead
      · exact ihTail m hm)
    n

/-- A part that is not there. -/
def none : Node :=
  node .absent Option.none []

/-- A sequence as one part. -/
def ofList (ns : List Node) : Node :=
  node .list Option.none ns

/-- A part that may be missing. -/
def ofOption : Option Node → Node
  | some n => n
  | .none => none

/-- Whether a part is missing. -/
def isNone : Node → Bool
  | node .absent _ _ => true
  | _ => false

instance : Inhabited Node := ⟨none⟩

/-- The expression inside any number of parentheses. -/
def stripParens : Node → Node
  | node .paren _ [inner] => inner.stripParens
  | n => n

end Node

end NullGuard.Tree
