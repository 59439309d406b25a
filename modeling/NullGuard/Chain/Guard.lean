import NullGuard.Chain.Step

/-!
# Guards: a chain as one expression

For the chain `base.a.b` and the temporary `t` the expression is

(t = base) != null ? (t = t.a) != null ? t.b : t : t

Each value but the last is evaluated once, kept in `t`, and compared loosely
with `null`, which also catches `undefined`. The last level is applied without a
guard. So an absent value anywhere is what the whole expression gives.

The expression stands in parentheses of its own making, which have no span; a
place that does not need them takes them off. The outermost conditional has the
span of the call, so comments in front of the call stay in front of it.
-/

namespace NullGuard.Chain

open NullGuard.Text (Span)
open NullGuard.Tree

/-- A node that was not read from anywhere. -/
def made (k : Kind) (ns : List Node) : Node :=
  .node k none ns

/-- The temporary as an expression. -/
def temporary (name : String) : Node :=
  made (.ident name) []

/-- An expression in parentheses. -/
def parenthesized (n : Node) : Node :=
  made .paren [n]

/-- A level applied to a value. -/
def Level.apply (object : Node) : Level → Node
  | member property => made .member [object, property]
  | call arguments typeArguments =>
    made .call [object, .ofList arguments, typeArguments]
  | method property arguments typeArguments =>
    made .call [made .member [object, property], .ofList arguments,
      typeArguments]

/-- `(temp = value) != null ? more : temp` -/
def guarded (span : Option Span) (temp : String) (value more : Node) : Node :=
  let assignment := made (.assign .plain) [temporary temp, value]
  let test := made (.binary .notEq) [parenthesized assignment, made .null []]
  .node .cond span [test, more, temporary temp]

/-- Levels applied to the temporary, each but the last one under a guard. -/
def guardedLevels (temp : String) : List Level → Node
  | [] => temporary temp
  | [last] => last.apply (temporary temp)
  | level :: rest =>
    guarded none temp (level.apply (temporary temp)) (guardedLevels temp rest)

/-- Whether the expression of a chain needs a temporary. -/
def AccessChain.needsTemporary (c : AccessChain) : Bool :=
  !c.steps.isEmpty

/-- The expression of a chain, in parentheses. -/
def AccessChain.expression (c : AccessChain) (temp : String) : Node :=
  match levels c.steps with
  | [] => parenthesized c.base
  | ls => parenthesized (guarded c.span temp c.base (guardedLevels temp ls))

/-- Whether a node is parentheses that were made for an expression of a
chain. -/
def isMadeParen : Node → Bool
  | .node .paren none _ => true
  | _ => false

/-- An expression without parentheses made for it. -/
def unwrap : Node → Node
  | .node .paren none [inner] => inner
  | n => n

/-- A conditional without parentheses made for it. Anything else keeps them: it
could be mistaken for something that is no expression. -/
def unwrapConditional : Node → Node
  | .node .paren none [.node .cond s ns] => .node .cond s ns
  | n => n

end NullGuard.Chain
