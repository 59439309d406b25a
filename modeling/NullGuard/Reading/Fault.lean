import NullGuard.Text.Span

/-!
# Faults: what can be wrong with a source text

A fault is a cause with a span. Most faults stop the reader; the ones that a
program may have and still be understood (a missing start value, a second
constructor) are only noted. The wording of all of them is in `Cause.message`.
-/

namespace NullGuard.Reading

open NullGuard.Text (Span)

/-- What is wrong. -/
inductive Cause where
  /-- Something other than an expression stands where one is needed. -/
  | expressionExpected
  /-- A certain token is needed. -/
  | tokenExpected (wanted got : String)
  /-- A statement does not end where it has to. -/
  | statementEndExpected
  /-- A name is needed. -/
  | nameExpected
  /-- A type is needed. -/
  | typeExpected
  | unterminatedTemplate
  | unterminatedRegex
  | unterminatedString
  | unterminatedComment
  | unexpectedCharacter (c : Char)
  /-- What is assigned to cannot be assigned to. -/
  | invalidTarget
  /-- A constant without a value. -/
  | constantWithoutValue
  /-- A variable statement that goes on where it should have ended. -/
  | semicolonExpected
  /-- A strictness directive in a function whose parameters are more than
  names. -/
  | strictWithPatterns
  | returnOutsideFunction
  | breakOutsideLoop
  | continueOutsideLoop
  | duplicateLabel (name : String)
  | duplicateConstructor
  | withInStrictCode
  | deleteOfName
  | abstractWithBody
deriving DecidableEq, Repr

/-- The wording of a fault. -/
def Cause.message : Cause → String
  | expressionExpected => "Expression expected"
  | tokenExpected wanted got =>
    "Expected '" ++ wanted ++ "', got '" ++ got ++ "'"
  | statementEndExpected => "Expected ';', '\x7d' or <eof>"
  | nameExpected => "Expected ident"
  | typeExpected => "Type expected"
  | unterminatedTemplate => "Unterminated template"
  | unterminatedRegex => "Unterminated regexp literal"
  | unterminatedString => "Unterminated string constant"
  | unterminatedComment => "Unterminated block comment"
  | unexpectedCharacter c => "Unexpected character '" ++ c.toString ++ "'"
  | invalidTarget => "Invalid assignment target"
  | constantWithoutValue => "'const' declarations must be initialized"
  | semicolonExpected => "Expected a semicolon"
  | strictWithPatterns =>
    "Illegal 'use strict' directive in function with non-simple parameter list."
  | returnOutsideFunction => "Return statement is not allowed here"
  | breakOutsideLoop =>
    "A 'break' statement can only be used within an enclosing iteration " ++
      "or switch statement"
  | continueOutsideLoop =>
    "A 'continue' statement can only jump to a label of an enclosing " ++
      "iteration statement"
  | duplicateLabel name => "Label " ++ name ++ " is already declared"
  | duplicateConstructor => "A class can only have one constructor"
  | withInStrictCode => "With statement are not allowed in strict mode"
  | deleteOfName => "'delete' cannot be called on an identifier in strict mode"
  | abstractWithBody => "Abstract method cannot have an implementation."

/-- Something wrong at a place. -/
structure Fault where
  cause : Cause
  span : Span
deriving DecidableEq, Repr

end NullGuard.Reading
