import NullGuard.Text.Span

/-!
# Comments: kept beside the tree

A comment is no part of any node. It is attached to a byte offset, either as
leading (in front of the token that starts there) or as trailing (behind the
token that ends there). A `CommentMap` lists both sides in the order in which
the comments were attached, so what stands at an offset is found by filtering,
and moving comments is a matter of changing their offsets.
-/

namespace NullGuard.Tree

open NullGuard.Text (Span)

/-- A comment: the text between its marks, where it was written, and whether a
line ends there. -/
structure Comment where
  isBlock : Bool
  text : String
  span : Span
  endsLine : Bool
deriving DecidableEq, Repr, Inhabited

/-- Comments by the offset that they are attached to. -/
structure CommentMap where
  leading : List (Nat × Comment) := []
  trailing : List (Nat × Comment) := []
deriving DecidableEq, Repr, Inhabited

namespace CommentMap

/-- The entries at an offset, in order. -/
def entriesAt (entries : List (Nat × Comment)) (pos : Nat) : List Comment :=
  (entries.filter fun e => e.1 == pos).map (·.2)

/-- The entries elsewhere. -/
def entriesOff (entries : List (Nat × Comment)) (pos : Nat) :
    List (Nat × Comment) :=
  entries.filter fun e => e.1 != pos

/-- What stands in front of the token at an offset. -/
def leadingAt (m : CommentMap) (pos : Nat) : List Comment :=
  entriesAt m.leading pos

/-- What stands behind the token that ends at an offset. -/
def trailingAt (m : CommentMap) (pos : Nat) : List Comment :=
  entriesAt m.trailing pos

/-- Attaches a comment in front of a token, behind the comments already
there. -/
def addLeading (m : CommentMap) (pos : Nat) (c : Comment) : CommentMap :=
  { m with leading := m.leading ++ [(pos, c)] }

/-- Attaches a comment behind a token, behind the comments already there. -/
def addTrailing (m : CommentMap) (pos : Nat) (c : Comment) : CommentMap :=
  { m with trailing := m.trailing ++ [(pos, c)] }

/-- Takes the leading comments of an offset out of the map. -/
def takeLeading (m : CommentMap) (pos : Nat) : List Comment × CommentMap :=
  (m.leadingAt pos, { m with leading := entriesOff m.leading pos })

/-- Takes the trailing comments of an offset out of the map. -/
def takeTrailing (m : CommentMap) (pos : Nat) : List Comment × CommentMap :=
  (m.trailingAt pos, { m with trailing := entriesOff m.trailing pos })

/-- Attaches several comments behind a token. -/
def addTrailings (m : CommentMap) (pos : Nat) (cs : List Comment) :
    CommentMap :=
  { m with trailing := m.trailing ++ cs.map (pos, ·) }

/-- Moves the leading comments of one offset to another, keeping the order of
the source: comments from an earlier offset come before those already there,
comments from a later one behind them. -/
def moveLeading (m : CommentMap) (source target : Nat) : CommentMap :=
  let (moved, rest) := m.takeLeading source
  if moved.isEmpty then m
  else if source < target then
    let (present, rest) := rest.takeLeading target
    { rest with leading := rest.leading ++ (moved ++ present).map (target, ·) }
  else { rest with leading := rest.leading ++ moved.map (target, ·) }

end CommentMap

end NullGuard.Tree
