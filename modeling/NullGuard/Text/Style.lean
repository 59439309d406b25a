/-!
# Terminal styles

A style is a list of codes; each is switched on in front of the text, and all
are switched off behind it.
-/

namespace NullGuard.Text

/-- The codes of the colours and attributes that are used. -/
inductive Style where
  | red
  | green
  | yellow
  | blue
  | cyan
  | bold
  | dim
deriving DecidableEq, Repr

/-- The number that switches a style on. -/
def Style.code : Style → Nat
  | red =>
    31 | green => 32 | yellow => 33 | blue => 34 | cyan => 36 | bold =>
      1 | dim => 2

/-- A text in some styles, if colours are on. -/
def styled (isColored : Bool) (styles : List Style) (text : String) : String :=
  if isColored then
    String.join (styles.map fun s => "\x1b[" ++ toString s.code ++ "m") ++
      text ++ "\x1b[0m"
  else text

end NullGuard.Text
