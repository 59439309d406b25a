import NullGuard.Tree.Node
import NullGuard.Writing.Layout

/-!
# Printed nodes

A node is printed from what its children print to. `Printed` keeps both: the
node, its document, and the printed children, because a parent may want to look
past a child (a list has no document of its own; its items do).

Every node asks for the comments in front of it. Expressions and patterns also
ask for the comments behind them; `bare` is the document without that last
request.
-/

namespace NullGuard.Writing

open NullGuard.Text (Span)
open NullGuard.Tree

/-- A node with its document and its printed children. -/
inductive Printed where
  | mk (node : Node) (bare doc : Doc) (parts : List Printed)

namespace Printed

/-- The node that was printed. -/
def node : Printed → Node
  | mk n _ _ _ => n

/-- The document without the comments behind the node. -/
def bare : Printed → Doc
  | mk _ b _ _ => b

/-- The document. -/
def doc : Printed → Doc
  | mk _ _ d _ => d

/-- The printed children. -/
def parts : Printed → List Printed
  | mk _ _ _ ps => ps

/-- What the node is. -/
def kind (p : Printed) : Kind :=
  p.node.kind

/-- Whether the part is missing. -/
def isNone (p : Printed) : Bool :=
  p.node.isNone

/-- The documents of the items of a list. -/
def items (p : Printed) : List Doc :=
  p.parts.map doc

/-- A document around the part, if the part is there. -/
def ifSome (p : Printed) (wrap : Doc → Doc) : Doc :=
  if p.isNone then .empty else wrap p.doc

end Printed

open Doc

/-- The comments in front of a node. -/
def leadOf (s : Option Span) : Doc :=
  match s with
  | some p => piece (.leading p.start)
  | none => empty

/-- The comments behind a node. -/
def trailOf (s : Option Span) : Doc :=
  match s with
  | some p => piece (.trailing p.stop)
  | none => empty

/-- Items with commas and spaces between them. -/
def commas (ds : List Doc) : Doc :=
  separated (word "," ++ space) ds

/-- Items in parentheses. -/
def inParens (ds : List Doc) : Doc :=
  word "(" ++ commas ds ++ word ")"

/-- A word and a space behind it, if a condition holds. -/
def mark (b : Bool) (w : String) : Doc :=
  Doc.when b (word w ++ space)

/-- A statement where statements stand: with its semicolon, the comments behind
it, and the end of its line. A block ends without any of these. -/
def asStatement (p : Printed) : Doc :=
  match p.kind with
  | .block => p.doc
  | .varDecl _ _ | .usingDecl _ =>
    p.doc ++ word ";" ++ trailOf p.node.span ++ line
  | _ => p.doc ++ trailOf p.node.span ++ line

/-- Statements in braces. Comments in front of the closing brace stand before
it. -/
def braced (s : Option Span) (ps : List Printed) : Doc :=
  let closing := match s with
    | some p => piece (.leading (p.stop - 1))
    | none => empty
  word "\x7b" ++ Doc.when (!ps.isEmpty) (lines empty (ps.map asStatement)) ++
    closing ++ word "\x7d"

/-- `: type`, if there is a type. -/
def annotated (p : Printed) : Doc :=
  p.ifSome fun d => word ":" ++ space ++ d

/-- ` = value`, if there is a value. -/
def initialised (p : Printed) : Doc :=
  p.ifSome fun d => space ++ word "=" ++ space ++ d

/-- The offsets at which a comment would come between a word like `return` and
its operand. -/
def leadOffsets : Node → List Nat
  | .node k s ns =>
    let own := match s with
      | some p => [p.start]
      | none => []
    match k, ns with
    | .call, n :: _ | .member, n :: _ | .superMember, n :: _ | .binary _, n :: _
        | .cond, n :: _
    | .seq, n :: _ | .assign _, n :: _ | .optMember _, n :: _
        | .optCall _, n :: _ =>
      own ++ leadOffsets n
    | _, _ => own

/-- An operand behind a word, in parentheses if a comment comes in between. -/
def operand (p : Printed) (gap : String) : Doc :=
  piece (.openIf (leadOffsets p.node) gap) ++ p.doc ++ piece .closeIf

end NullGuard.Writing
