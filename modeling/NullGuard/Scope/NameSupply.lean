import NullGuard.Scope.Outline

/-!
# Fresh names

A name supply gives out names of the form `_ref`, `_ref2`, `_ref3`, … and
remembers what it gave out, so it never gives a name twice and never one that
was in use at the start. Among one more candidates than there are used names one
is unused, so the search is bounded by the number of used names.

The numbers of the candidates have 32 bits and a sign. Behind `_ref2147483647`
comes `_ref-2147483648`, and when all `2 ^ 32` candidates are used there is none
to be found.
-/

namespace NullGuard.Scope

open NullGuard.Tree

/-- The names that must not be given out. -/
structure NameSupply where
  used : List String
deriving DecidableEq, Repr, Inhabited

/-- The candidates for a hint, by number: the first one without its number. -/
def candidate (hint : String) (n : Int32) : String :=
  if n = 1 then "_" ++ hint else "_" ++ hint ++ toString n

/-- The first candidate for a hint that is not used, from a number on and among
so many. -/
def NameSupply.search (supply : NameSupply) (hint : String) :
    Nat → Int32 → Option String
  | 0, _ => none
  | steps + 1, n =>
    if supply.used.contains (candidate hint n) then
      supply.search hint steps (n + 1)
    else some (candidate hint n)

/-- A name that is longer than the used names: all of them in a row. -/
def NameSupply.longName (supply : NameSupply) : String :=
  String.ofList ('_' :: supply.used.flatMap String.toList)

/-- The first candidate for a hint that is not used, and the supply without it.
Without an unused candidate the search would go on for ever, and a long name
stands for what it does not find. -/
def NameSupply.fresh (supply : NameSupply) (hint : String) :
    String × NameSupply :=
  let found := supply.search hint (supply.used.length + 1) 1
  let name := found.getD supply.longName
  (name, ⟨name :: supply.used⟩)

/-- The names for several hints, in order. -/
def NameSupply.freshAll (supply : NameSupply) : List String → List String
  | [] => []
  | hint :: hints =>
    let (name, supply) := supply.fresh hint
    name :: supply.freshAll hints

mutual

/-- Every identifier in a piece of a program, whatever it stands for. -/
def identifiers : Node → List String
  | .node k _ ns => (identifier? k).toList ++ identifiersAll ns

/-- Every identifier in several pieces. -/
def identifiersAll : List Node → List String
  | [] => []
  | n :: ns => identifiers n ++ identifiersAll ns

end

end NullGuard.Scope
