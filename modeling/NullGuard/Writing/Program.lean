import NullGuard.Writing.Markup
import NullGuard.Writing.Statements

/-!
# Printing programs

`layout` picks the document of a node by its kind, `Node.print` applies it from
the leaves up, and `Node.toSource` renders the whole program with its comments.
-/

namespace NullGuard.Writing

open NullGuard.Text (Span)
open NullGuard.Tree Doc

/-- A program: its interpreter line, the comments at its start that no item asks
for, and its items. -/
def programDoc (interpreter : Option String) (s : Option Span)
    (ps : List Printed) : Doc :=
  let shebang := match interpreter with
    | some i => word ("#!" ++ i) ++ line
    | none => empty
  let opening := match s with
    | some p =>
      Doc.when (!ps.any fun i => i.node.span.map Span.start == some p.start)
        (piece (.opening p.start))
    | none => empty
  shebang ++ opening ++ concat (ps.map asStatement) ++ trailOf s

/-- The document of a node, without the comments around it. -/
def layout (k : Kind) (s : Option Span) (ps : List Printed) : Doc :=
  match k with
  | .absent | .list => empty
  | .program _ interpreter => programDoc interpreter s ps
  | .block => braced s ps
  | .name n => word n
  | .function _ _ | .classBody _ => empty
  | .type form => typeDoc form ps
  | .markup form => markupDoc form ps
  | .importDecl _ | .importDefault | .importNamed _ | .importNamespace
      | .exportDecl
  | .exportNamed _ _ | .exportSpecifier _ | .exportNamespace
      | .exportDefaultDecl
  | .exportDefaultExpr | .exportAll _ | .importEquals _ _ | .externalModule
      | .exportAssignment
  | .exportAsNamespace => moduleItemDoc k ps
  | .varDecl _ _ | .usingDecl _ | .declarator _ | .fnDecl _ | .classDecl _
      | .interfaceDecl _
  | .heritage | .typeAlias _ | .enumDecl _ _ | .enumMember | .moduleDecl _ _
      | .moduleBlock
  | .innerModule => declarationDoc k ps
  | .exprStmt | .empty | .debugger | .withStmt | .returnStmt | .labeled
      | .breakStmt
  | .continueStmt | .ifStmt | .switchStmt | .switchCase | .throwStmt | .tryStmt
      | .catchClause
  | .whileStmt | .doWhile | .forStmt | .forIn | .forOf _ => statementDoc k ps
  | .constructor _ | .method _ _ | .property _ | .accessorProperty _
      | .staticBlock | .emptyMember
  | .paramProperty _ | .decorator => memberDoc k ps
  | .bindingIdent _ _ | .arrayPat _ _ | .objectPat _ _ | .restPat | .assignPat
      | .keyValuePat
  | .shorthandPat | .exprPat | .param => patternDoc k ps
  | .shorthand _ | .shorthandInit _ | .keyValue | .getterProp | .setterProp
      | .methodProp
  | .computed | .propName _ | .privateName _ | .spread => propertyDoc k ps
  | _ => expressionDoc k ps

/-- Whether a node asks for the comments behind it: expressions and patterns
do. -/
def asksBehind (k : Kind) : Bool :=
  match k with
  | .ident _ | .str _ _ | .num _ | .bigint _ | .regex _ | .bool _ | .null
      | .this | .metaProp _
  | .array _ | .object _ | .fnExpr | .classExpr | .arrow _ | .unary _
      | .update _ _ | .binary _
  | .assign _ | .member | .superMember | .optMember _ | .cond | .call
      | .optCall _ | .new | .seq
  | .yield _ | .await | .paren | .template _ | .tagged | .typeAssertion
      | .constAssertion | .nonNull
  | .asType | .satisfies | .instantiation | .bindingIdent _ _ | .arrayPat _ _
      | .objectPat _ _
  | .restPat | .assignPat | .exprPat | .markup .element | .markup .fragment =>
    true
  | _ => false

/-- Whether a node asks for the comments in front of it. -/
def asksBefore (k : Kind) : Bool :=
  match k with
  | .program _ _ | .list | .absent => false
  | _ => true

mutual

/-- Prints a node and everything in it. -/
def print : Node → Printed
  | .node k s ns =>
    let ps := printAll ns
    let bare := Doc.when (asksBefore k) (leadOf s) ++ layout k s ps
    .mk (.node k s ns) bare (bare ++ Doc.when (asksBehind k) (trailOf s)) ps

/-- Prints several nodes. -/
def printAll : List Node → List Printed
  | [] => []
  | n :: ns => print n :: printAll ns

end

/-- The text of a program with its comments. -/
def toSource (program : Node) (comments : CommentMap) : String :=
  (print program).doc.render comments

end NullGuard.Writing
