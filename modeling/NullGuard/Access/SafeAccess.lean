import NullGuard.Access.Pattern

/-!
# Safe access

The helper function that a rewritten call does without. It runs an accessor on
an input; if the accessor fails because it read a property of an absent value,
the result is that absent value, and every other failure goes through unchanged.
Which value it was is told from the message alone, so a `Classifier` is a list
of patterns, tried in order.
-/

namespace NullGuard.Access

/-- Patterns that are tried in order. -/
structure Classifier where
  patterns : List AccessPattern

namespace Classifier

/-- The patterns for an engine: `null` before `undefined`, and the derived
pattern before the loose one. -/
def ofEngine (engine : Engine) : Classifier :=
  ⟨[.ofEngine engine .null, .loose .null, .ofEngine engine .undefined,
    .loose .undefined]⟩

/-- The patterns that are used where no engine is named. -/
def assumed : Classifier :=
  ofEngine Engine.assumed

/-- The absent value that a message is about, if it is about one. -/
def classify? (c : Classifier) (message : String) : Option Absent :=
  (c.patterns.find? fun p => p.matchesMessage message).map AccessPattern.absent

end Classifier

/-- What an accessor may throw. -/
inductive Thrown where
  /-- The error of a failed operation on a value; only this one can be about an
  absent value. -/
  | typeError (message : String)
  /-- Any error, by the name of its constructor. -/
  | error (name message : String)
deriving DecidableEq, Repr

namespace Thrown

/-- The name of an error's constructor. -/
def name : Thrown → String
  | typeError _ => "TypeError"
  | error name _ => name

/-- An error as a text: its name and its message. -/
def text : Thrown → String
  | typeError message => "TypeError: " ++ message
  | error name message => name ++ ": " ++ message

end Thrown

/-- The result of a safe access: a value, or the absent value that was met on
the way. -/
inductive Outcome (α : Type) where
  | value (result : α)
  | absent (which : Absent)
deriving DecidableEq, Repr

namespace Outcome

/-- The value, if there is one. -/
def value? {α : Type} : Outcome α → Option α
  | value v => some v
  | absent _ => none

/-- Whether an absent value was met. -/
def isAbsent {α : Type} : Outcome α → Bool
  | value _ => false
  | absent _ => true

/-- Applies a function to the value, if there is one. -/
def map {α β : Type} (f : α → β) : Outcome α → Outcome β
  | value v => value (f v)
  | absent a => absent a

/-- The word for a result: `value`, or the absent value's own. -/
def word {α : Type} : Outcome α → String
  | value _ => "value"
  | absent a => a.word

end Outcome

/-- Runs an accessor and turns the failure to read from an absent value into
that value. -/
def safeAccess {ι α : Type} (c : Classifier) (input : ι)
    (accessor : ι → Except Thrown α) :
    Except Thrown (Outcome α) :=
  match accessor input with
  | .ok v => .ok (.value v)
  | .error (.typeError message) =>
    match c.classify? message with
    | some a => .ok (.absent a)
    | none => .error (.typeError message)
  | .error other => .error other

end NullGuard.Access
