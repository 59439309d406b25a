import NullGuard.Text.Span

/-!
# Rejections: why a program is not rewritten

A program is rejected as a whole at the first thing that breaks a rule of the
helper: a call with the wrong arguments, a callback that is no chain of
accesses, a malformed import, or a helper that is declared or assigned to again.
A rejection names the cause and the place; `message` is its wording. The wording
speaks of `idx` whatever the helper is called, because other tools match it.
-/

namespace NullGuard.Transform

open NullGuard.Text (Span)

/-- What is wrong with the callback of a call. -/
inductive ShapeFault where
  | notArrow
  | blockBody
  | parameterCount
  | parameterNotName
  /-- The body is based on another name than the parameter. -/
  | parameterMismatch
  /-- The parameter is used in a key or an argument. -/
  | parameterEscapes
  /-- The body holds more than property accesses, and calls are not allowed. -/
  | strictBody
  /-- The body holds more than property accesses and calls. -/
  | permissiveBody
deriving DecidableEq, Repr

/-- What is wrong with an import of the helper's module. -/
inductive ImportFault where
  | noValue
  | notSingle
  | notDefault
  | notValue
deriving DecidableEq, Repr

/-- Why and where a program is rejected. -/
inductive Rejection where
  /-- A call of the helper does not have two arguments. -/
  | arity (span : Option Span)
  | shape (fault : ShapeFault) (span : Option Span)
  | binding (fault : ImportFault) (span : Option Span)
  /-- The helper declared at `declaredAt` is declared or assigned to at
  `span`. -/
  | redefinition (span declaredAt : Option Span)
deriving DecidableEq, Repr

/-- The wording of a fault in a callback. -/
def ShapeFault.message : ShapeFault → String
  | notArrow =>
    "The second argument supplied to `idx` must be an arrow function."
  | blockBody =>
    "The body of the arrow function supplied to `idx` must be a single " ++
      "expression (without curly braces)."
  | parameterCount =>
    "The arrow function supplied to `idx` must take exactly one parameter."
  | parameterNotName => "The parameter supplied to `idx` must be an identifier."
  | parameterMismatch =>
    "The parameter of the arrow function supplied to `idx` must match the " ++
      "base of the body expression."
  | parameterEscapes =>
    "The parameter of the arrow function supplied to `idx` can only be used " ++
      "as the base of the body expression."
  | strictBody =>
    "idx callbacks may only access properties on the callback parameter."
  | permissiveBody =>
    "The `idx` body can only be composed of properties and methods."

/-- The wording of a fault in an import. -/
def ImportFault.message : ImportFault → String
  | noValue => "The idx import must have a value."
  | notSingle => "The idx import must be a single specifier."
  | notDefault => "The idx import must be a default import."
  | notValue => "The idx import must be a value import."

namespace Rejection

/-- The wording of a rejection. -/
def message : Rejection → String
  | arity _ => "The `idx` function takes exactly two arguments."
  | shape fault _ => fault.message
  | binding fault _ => fault.message
  | redefinition _ _ => "`idx` cannot be redefined."

/-- The place that is at fault. -/
def span : Rejection → Option Span
  | arity s | shape _ s | binding _ s | redefinition s _ => s

end Rejection

end NullGuard.Transform
