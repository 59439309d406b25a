/-!
# Spans: where a piece of source text stands

Positions are byte offsets into the UTF-8 form of the source, because that is
what an editor and a compiler agree on without agreeing on what a character is.
A span is half open: `stop` is the first offset after the text.
-/

namespace NullGuard.Text

/-- A half-open range of byte offsets. -/
structure Span where
  start : Nat
  stop : Nat
deriving DecidableEq, Repr, Inhabited

/-- The bytes that a list of characters takes in UTF-8. -/
def byteLength (cs : List Char) : Nat :=
  cs.foldl (fun total c => total + c.utf8Size) 0

/-- Reading position: the characters still to come, and the byte offset of the
first of them. -/
structure Cursor where
  rest : List Char
  pos : Nat
deriving Inhabited

namespace Cursor

/-- The start of a text. -/
def ofString (text : String) : Cursor :=
  ⟨text.toList, 0⟩

/-- The next character, if there is one. -/
def peek? (c : Cursor) : Option Char :=
  c.rest.head?

/-- The position after `n` more characters, or the end of the text. -/
def skip (c : Cursor) : Nat → Cursor
  | 0 => c
  | n + 1 =>
    match c.rest with
    | [] => c
    | x :: rest => skip ⟨rest, c.pos + x.utf8Size⟩ n

/-- Whether the text goes on with `word`. -/
def startsWith (c : Cursor) (word : String) : Bool :=
  word.toList.isPrefixOf c.rest

/-- The longest run of characters in a class, and the position behind it. -/
def takeWhile (c : Cursor) (inClass : Char → Bool) : List Char × Cursor :=
  let run := c.rest.takeWhile inClass
  (run, ⟨c.rest.dropWhile inClass, c.pos + byteLength run⟩)

end Cursor

end NullGuard.Text
