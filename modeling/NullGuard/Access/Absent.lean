/-!
# Absent values and the messages of failed reads

A read of a property fails on two values, `null` and `undefined`. The message of
the failure names the value; how it does so depends on the engine that runs the
program.
-/

namespace NullGuard.Access

/-- A value that has no properties. -/
inductive Absent where
  | null
  | undefined
deriving DecidableEq, Repr

/-- The word for an absent value. -/
def Absent.word : Absent → String
  | null => "null"
  | undefined => "undefined"

/-- The absent value that a word stands for. -/
def Absent.ofWord? : String → Option Absent
  | "null" => some null
  | "undefined" => some undefined
  | _ => none

/-- An engine whose wording of a failed read is known. -/
inductive Engine where
  | v8
  | javaScriptCore
  | spiderMonkey
deriving DecidableEq, Repr

/-- The engine that is assumed where none is named. -/
def Engine.assumed : Engine := .v8

/-- The engine that a short name stands for. -/
def Engine.ofName? : String → Option Engine
  | "v8" => some v8
  | "jsc" => some javaScriptCore
  | "spidermonkey" => some spiderMonkey
  | _ => none

/-- The message of an engine when it reads `property` from the expression
`object`, whose value is absent. -/
def Engine.readFailure (engine : Engine) (absent : Absent)
    (object property : String) : String :=
  match engine with
  | v8 =>
    "Cannot read properties of " ++ absent.word ++ " (reading '" ++
      property ++ "')"
  | javaScriptCore =>
    absent.word ++ " is not an object (evaluating '" ++ object ++ "." ++
      property ++ "')"
  | spiderMonkey => object ++ " is " ++ absent.word

end NullGuard.Access
