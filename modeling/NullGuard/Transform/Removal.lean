import NullGuard.Tree.Comment
import NullGuard.Tree.Node

/-!
# Removing declarations

Removing a declarator can leave a declaration with nothing to declare. Such a
declaration goes away as well, in a way that depends on where it stands: from a
list of statements it is dropped, a lone statement becomes an empty one, and the
head of a loop loses its start.

The comments in front of an item that is dropped move to the next item that
stays, or behind the last one. Comments at the start of the program stay where
they are.
-/

namespace NullGuard.Transform

open NullGuard.Text (Span)
open NullGuard.Tree

/-- Whether a node declares variables but has none left. -/
def isEmptied : Node → Bool
  | .node (.varDecl _ _) _ [] => true
  | _ => false

/-- Whether an item stays in its list. -/
def staysIn (removals : List (Option Span)) (item : Node) : Bool :=
  match item.kind with
  | .importDecl _ => !removals.contains item.span
  | _ => !isEmptied item

/-- A statement that stands alone; it cannot just go away. -/
def loneStatement (n : Node) : Node :=
  if isEmptied n then .node .empty none [] else n

/-- The start of a loop, which may be missing. -/
def loopStart (n : Node) : Node :=
  if isEmptied n then .none else n

/-- Where an item starts. -/
def itemStart (item : Node) : Nat :=
  (item.span.map Span.start).getD 0

/-- Where an item ends. -/
def itemStop (item : Node) : Nat :=
  (item.span.map Span.stop).getD 0

/-- Moves the comments of a dropped item behind the item that ends at an
offset. -/
def settleBehind (stop : Option Nat) (m : CommentMap) (source : Nat) :
    CommentMap :=
  let (moved, rest) := m.takeLeading source
  match stop with
  | some pos => rest.addTrailings pos moved
  | none => rest

/-- How far a pass over the items of a list has come. -/
structure Pass where
  /-- The items that stay. -/
  kept : List Node := []
  /-- The starts of the items that were dropped since the last one that
  stays. -/
  pending : List Nat := []
  /-- Where the last item that stays ends. -/
  stop : Option Nat := none
  comments : CommentMap

namespace Pass

/-- Moves the comments of the items that were dropped in front of an item that
stays. -/
def settleBefore (p : Pass) (start : Nat) : CommentMap :=
  p.pending.reverse.foldl
    (fun m source => m.moveLeading source start) p.comments

/-- Goes on to the next item. -/
def step (programStart : Nat) (keep : Node → Bool) (p : Pass) (item : Node) :
    Pass :=
  if keep item then
    { kept := p.kept ++ [item], pending := [], stop := some (itemStop
      item), comments := p.settleBefore (itemStart item) }
  else if itemStart item = programStart then p
  else { p with pending := p.pending ++ [itemStart item] }

/-- Goes over several items. -/
def walk (programStart : Nat) (keep : Node → Bool) (p : Pass)
    (items : List Node) : Pass :=
  items.foldl (step programStart keep) p

/-- Moves the comments of the items that were dropped at the end of the list. -/
def finish (p : Pass) : CommentMap :=
  p.pending.foldl (settleBehind p.stop) p.comments

end Pass

/-- Drops the items that are not to be kept. Where there is a map of comments,
theirs are moved in it. -/
def retainItems (programStart : Nat) (keep : Node → Bool) (items : List Node) :
    Option CommentMap → List Node × Option CommentMap
  | none => (items.filter keep, none)
  | some m =>
    let p := Pass.walk programStart keep { comments := m } items
    (p.kept, some p.finish)

end NullGuard.Transform
