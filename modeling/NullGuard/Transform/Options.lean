/-!
# Options of a rewrite

The name of the helper's module, the bodies that a callback may have, and the
priority that temporaries of asynchronous methods are reported with.
-/

namespace NullGuard.Transform

/-- The module that the helper is imported from unless the options say
otherwise. -/
def defaultImportName : String :=
  "idx"

/-- Which bodies a callback may have. -/
inductive ChainPolicy where
  /-- Property accesses only. -/
  | strict
  /-- Property accesses and calls. -/
  | permissive
deriving DecidableEq, Repr, Inhabited

/-- The word for a policy. -/
def ChainPolicy.name : ChainPolicy → String
  | strict => "strict"
  | permissive => "permissive"

/-- The policy that a word stands for. -/
def ChainPolicy.ofName? : String → Option ChainPolicy
  | "strict" => some .strict
  | "permissive" => some .permissive
  | _ => none

theorem ChainPolicy.ofName?_name (p : ChainPolicy) :
    ofName? p.name = some p := by
  cases p <;> rfl

/-- How far ahead of others a declaration of temporaries wants to stand. -/
abbrev HoistPriority := UInt8

/-- The priority of temporaries outside asynchronous methods. -/
def defaultPriority : HoistPriority :=
  2

/-- What a rewrite can be told. -/
structure Options where
  importName : String := defaultImportName
  policy : ChainPolicy := .permissive
  asyncMethodHoist : HoistPriority := 3
deriving DecidableEq, Repr, Inhabited

end NullGuard.Transform
