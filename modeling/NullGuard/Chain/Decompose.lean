import NullGuard.Chain.Step
import NullGuard.Transform.Options
import NullGuard.Transform.Rejection

/-!
# Taking a call apart

The arguments of a call are checked in a fixed order: their number, the
callback, its body, its parameter. The body is then walked from the outside in,
down to the parameter. Parentheses on the way count for nothing. The parameter
may stand nowhere else in the body, because it is gone once the body has been
moved out of the callback.
-/

namespace NullGuard.Chain

open NullGuard.Text (Span)
open NullGuard.Tree
open NullGuard.Transform (Rejection ChainPolicy)

/-- Whether a parameter is a certain plain name. -/
def isParameter (name : String) : Node → Bool
  | .node (.bindingIdent n _) _ _ => n == name
  | .node .param _ [_, .node (.bindingIdent n _) _ _] => n == name
  | _ => false

/-- Whether one of a function's parameters is a certain plain name. -/
def bindsParameter (name : String) : List Node → Bool
  | .node .list _ parameters :: _ => parameters.any (isParameter name)
  | _ => false

mutual

/-- Where the value of a name is used. A function with a parameter of that name
is not looked into, and a name that is only assigned to is not used. -/
def uses (name : String) : Node → List (Option Span)
  | .node (.ident n) s _ => if n == name then [s] else []
  | .node (.shorthand n) s _ => if n == name then [s] else []
  | .node (.arrow _) _ ns =>
    if bindsParameter name ns then [] else usesAmong name ns
  | .node (.function _ _) _ ns =>
    if bindsParameter name ns then [] else usesAmong name ns
  | .node (.assign _) _ (.node (.ident _) _ _ :: rest) => usesAmong name rest
  | .node _ _ ns => usesAmong name ns

/-- Where the value of a name is used in several nodes. -/
def usesAmong (name : String) : List Node → List (Option Span)
  | [] => []
  | n :: ns => uses name n ++ usesAmong name ns

end

/-- Refuses a name where it is used. -/
def refuse : List (Option Span) → Except Rejection Unit
  | [] => .ok ()
  | s :: _ => .error (.shape .parameterEscapes s)

/-- The fault in a body that is more than its policy allows. -/
def bodyFault : ChainPolicy → Transform.ShapeFault
  | .strict => .strictBody
  | .permissive => .permissiveBody

/-- Whether a callee is no expression. -/
def isSpecialCallee (n : Node) : Bool :=
  match n.kind with
  | .super | .importWord => true
  | _ => false

/-- The steps that lead from the parameter to a body, first to last. -/
def spine (policy : ChainPolicy) (parameter : String) :
    Node → Except Rejection (List Step)
  | .node .member _ [object, property] => do
    match property with
    | .node .computed _ [key] => refuse (uses parameter key)
    | _ => pure ()
    return (← spine policy parameter object) ++ [.member property]
  | .node .call s [callee, .node .list _ arguments, typeArguments] => do
    if policy = .strict || isSpecialCallee callee then
      .error (.shape (bodyFault policy) s)
    else
      refuse (usesAmong parameter arguments)
      return (← spine policy parameter callee) ++
        [.call arguments typeArguments]
  | .node .paren _ [inner] => spine policy parameter inner
  | .node (.ident n) s _ =>
    if n = parameter then .ok [] else .error (.shape .parameterMismatch s)
  | n => .error (.shape (bodyFault policy) n.span)

/-- The expression of an argument, and whether it is spread. -/
def argument : Node → Node × Bool
  | .node .spread _ [inner] => (inner, true)
  | n => (n, false)

/-- What a call of the helper must have: a base, and a callback with a parameter
and a body. -/
structure HelperCall where
  base : Node
  parameter : String
  body : Node

/-- Checks the arguments of a call. -/
def checkArguments (span : Option Span) (arguments : List Node) :
    Except Rejection HelperCall := do
  let [first, second] := arguments | .error (.arity span)
  let (base, false) := argument first | .error (.arity span)
  let (callback, isSpread) := argument second
  match callback.stripParens with
  | .node (.arrow _) s (.node .list _ parameters :: body :: _) =>
    if isSpread then .error (.shape .notArrow callback.span)
    else if body.kind = .block then .error (.shape .blockBody body.span)
    else
      match parameters with
      | [.node (.bindingIdent name _) _ _] => .ok ⟨base, name, body⟩
      | [parameter] => .error (.shape .parameterNotName parameter.span)
      | _ => .error (.shape .parameterCount s)
  | _ => .error (.shape .notArrow callback.span)

/-- Takes a call of the helper apart. -/
def decompose (policy : ChainPolicy) (span : Option Span)
    (arguments : List Node) :
    Except Rejection AccessChain := do
  let call ← checkArguments span arguments
  return ⟨call.base, ← spine policy call.parameter call.body, span⟩

end NullGuard.Chain
