import NullGuard.Tree.Node

/-!
# Chains of accesses

A call of the helper stands for a base and a chain of steps applied to it, each
a property access or a call. A property access with a call right behind it is
one level, a method call, so that the callee still gets its object; every other
step is a level of its own.
-/

namespace NullGuard.Chain

open NullGuard.Text (Span)
open NullGuard.Tree

/-- One link of a chain. -/
inductive Step where
  /-- `.name`, `.#name` or `[key]`. -/
  | member (property : Node)
  /-- `(arguments)`; the second part is the type arguments, if there are any. -/
  | call (arguments : List Node) (typeArguments : Node)

/-- A call of the helper, taken apart. -/
structure AccessChain where
  base : Node
  /-- The steps, from the first to the last one applied. -/
  steps : List Step
  /-- The span of the call. -/
  span : Option Span

/-- What is applied to a value at once. -/
inductive Level where
  | member (property : Node)
  | call (arguments : List Node) (typeArguments : Node)
  | method (property : Node) (arguments : List Node) (typeArguments : Node)

/-- The levels of a list of steps. -/
def levels : List Step → List Level
  | [] => []
  | .member property :: .call arguments typeArguments :: rest =>
    .method property arguments typeArguments :: levels rest
  | .member property :: rest => .member property :: levels rest
  | .call arguments typeArguments :: rest =>
    .call arguments typeArguments :: levels rest

/-- The steps that a level is made of. -/
def Level.steps : Level → List Step
  | member property => [.member property]
  | call arguments typeArguments => [.call arguments typeArguments]
  | method property arguments typeArguments =>
    [.member property, .call arguments typeArguments]

end NullGuard.Chain
