import NullGuard.Tree.Comment

/-!
# Layout: text as a sequence of pieces

Printing a program happens in two steps. The first turns the tree into a `Doc`,
which says in order what is to be written: words, spaces, line breaks, changes
of indentation, and the places where comments may stand. The second,
`Doc.render`, writes the pieces. Only the second step knows about lines and
comments, so the first can be read without them.

Each comment is written once, at the first place that asks for its offset.
-/

namespace NullGuard.Writing

open NullGuard.Tree

/-- One thing to write. -/
inductive Piece where
  | text (s : String)
  /-- The end of a line; nothing if the line is still empty. -/
  | line
  | indent
  | dedent
  /-- The comments in front of the token at an offset. -/
  | leading (pos : Nat)
  /-- The comments at the start of a program, where nothing else asks for
  them. -/
  | opening (pos : Nat)
  /-- The comments behind the token that ends at an offset. -/
  | trailing (pos : Nat)
  /-- An opening parenthesis if a comment stands at one of the offsets, and a
  text otherwise. -/
  | openIf (offsets : List Nat) (otherwise : String)
  /-- The closing parenthesis of the last `openIf`, if that wrote one. -/
  | closeIf
deriving Repr

/-- A sequence of pieces, built by joining. -/
inductive Doc where
  | empty
  | piece (p : Piece)
  | join (a b : Doc)

namespace Doc

instance : Append Doc := ⟨join⟩

instance : Inhabited Doc := ⟨empty⟩

/-- A word or sign. -/
def word (s : String) : Doc :=
  if s.isEmpty then empty else piece (.text s)

/-- A space between two words. -/
def space : Doc :=
  piece (.text " ")

/-- The end of a line. -/
def line : Doc :=
  piece .line

/-- A document if a condition holds. -/
def when (b : Bool) (d : Doc) : Doc :=
  if b then d else empty

/-- Documents one after the other. -/
def concat (ds : List Doc) : Doc :=
  ds.foldr join empty

/-- Documents with a separator between them. -/
def separated (sep : Doc) : List Doc → Doc
  | [] => empty
  | [d] => d
  | d :: ds => d ++ sep ++ separated sep ds

/-- A document one level further in. -/
def indented (d : Doc) : Doc :=
  piece .indent ++ d ++ piece .dedent

/-- Documents on lines of their own, one level further in, with a separator at
the end of each line but the last. -/
def lines (sep : Doc) (ds : List Doc) : Doc :=
  line ++ indented (separated (sep ++ line) ds) ++ line

/-- The pieces of a document in front of further pieces. -/
def pieces : Doc → List Piece → List Piece
  | empty, rest => rest
  | piece p, rest => p :: rest
  | join a b, rest => a.pieces (b.pieces rest)

end Doc

/-- What has been written, and the comments that have not. -/
structure Writer where
  /-- The text so far, last piece first. -/
  written : List String := []
  indentation : Nat := 0
  atLineStart : Bool := true
  comments : CommentMap
  /-- For each open `openIf`, whether it wrote a parenthesis. -/
  parens : List Bool := []

namespace Writer

/-- Writes a text, behind the indentation if it is the first of its line. -/
def put (w : Writer) (s : String) : Writer :=
  if s.isEmpty then w
  else if w.atLineStart then
    { w with
      written := s :: String.ofList (List.replicate (4 * w.indentation) ' ') ::
        w.written
      atLineStart := false }
  else { w with written := s :: w.written }

/-- Ends the line, unless it is empty. -/
def endLine (w : Writer) : Writer :=
  if w.atLineStart then w
    else { w with written := "\n" :: w.written, atLineStart := true }

/-- Writes a comment. A line comment ends its line; a block comment is followed
by a space, or by the end of the line if `breaks` says so. -/
def putComment (w : Writer) (c : Comment) (breaks : Bool) : Writer :=
  if c.isBlock then
    let w := w.put ("/*" ++ c.text ++ "*/")
    if breaks then w.endLine else w.put " "
  else (w.put ("//" ++ c.text)).endLine

/-- Writes comments that stand in front of something. The last of them is
followed by the end of the line if it was in the source. -/
def putLeading (w : Writer) : List Comment → Writer
  | [] => w
  | [c] => w.putComment c c.endsLine
  | c :: cs => (w.putComment c false).putLeading cs

/-- Writes comments that stand behind something. -/
def putTrailing (w : Writer) (cs : List Comment) : Writer :=
  cs.foldl (fun w c => (w.put " ").putComment c false) w

/-- Writes a piece. -/
def step (w : Writer) : Piece → Writer
  | .text s => w.put s
  | .line => w.endLine
  | .indent => { w with indentation := w.indentation + 1 }
  | .dedent => { w with indentation := w.indentation - 1 }
  | .leading pos =>
    let (cs, rest) := w.comments.takeLeading pos
    { w with comments := rest }.putLeading cs
  | .opening pos =>
    let (cs, rest) := w.comments.takeLeading pos
    cs.foldl (fun w c => w.putComment c false) { w with comments := rest }
  | .trailing pos =>
    let (cs, rest) := w.comments.takeTrailing pos
    { w with comments := rest }.putTrailing cs
  | .openIf offsets otherwise =>
    if offsets.any fun pos => !(w.comments.leadingAt pos).isEmpty then
      { w.put "(" with parens := true :: w.parens }
    else { w.put otherwise with parens := false :: w.parens }
  | .closeIf =>
    match w.parens with
    | true :: rest => { w.put ")" with parens := rest }
    | _ :: rest => { w with parens := rest }
    | [] => w

end Writer

/-- The text of a document with its comments. -/
def Doc.render (d : Doc) (comments : CommentMap) : String :=
  let w := (d.pieces []).foldl Writer.step { comments }
  String.join w.written.reverse

end NullGuard.Writing
