/-!
# Scanning a settings file

A `Scan` reads a beginning of a text: it fails, or gives a value and what is
left of the text. The few characters that a settings file is made of are told
apart here: blanks, line ends, and the characters that may stand in comments and
strings.
-/

namespace NullGuard.Toml

/-- Reads a beginning of a text. -/
abbrev Scan :=
  StateT (List Char) Option

/-- A space or a tab. -/
def isBlank (c : Char) : Bool :=
  c == ' ' || c == '\t'

/-- A character that may stand in a comment: a tab, or anything that is no
control character. -/
def isTextChar (c : Char) : Bool :=
  c == '\t' || (0x20 ≤ c.toNat && c.toNat != 0x7F)

namespace Scan

/-- No reading. -/
def fail {α : Type} : Scan α :=
  fun _ => none

/-- The next character, which stays in the text; nothing at the end. -/
def peek? : Scan (Option Char) :=
  fun s => some (s.head?, s)

/-- Whether a text comes next. -/
def sees (text : List Char) : Scan Bool :=
  fun s => some (text.isPrefixOf s, s)

/-- How many times a character comes next. -/
def repeats (c : Char) : Scan Nat :=
  fun s => some ((s.takeWhile (· == c)).length, s)

/-- Leaves out some characters. -/
def skip (count : Nat) : Scan Unit :=
  fun s => some ((), s.drop count)

/-- The next character. -/
def next : Scan Char
  | [] => none
  | c :: s => some (c, s)

/-- A certain character. -/
def sign (c : Char) : Scan Unit := do
  unless (← next) == c do fail

/-- A certain character, if it comes next. -/
def eat (c : Char) : Scan Bool := do
  if (← peek?) == some c then
    skip 1
    return true
  else return false

/-- The longest run of characters of a kind. -/
def run (p : Char → Bool) : Scan (List Char) :=
  fun s => some (s.takeWhile p, s.dropWhile p)

/-- What `step` gives until it gives nothing, but no more than a number of
items. -/
def upTo {α : Type} (step : Scan (Option α)) : Nat → Scan (List α)
  | 0 => pure []
  | bound + 1 => do
    match ← step with
    | none => return []
    | some a => return a :: (← upTo step bound)

/-- What `step` gives until it gives nothing. A step that gives something has to
read something. -/
def many {α : Type} (step : Scan (Option α)) : Scan (List α) :=
  fun s => upTo step (s.length + 1) s

/-- Spaces and tabs. -/
def blanks : Scan Unit := do
  let _ ← run isBlank

/-- The end of a line. -/
def newline : Scan Unit := do
  if ← eat '\n' then return
  sign '\r'
  sign '\n'

/-- Whether a line ends here, or the text does. -/
def lineEnd : Scan Unit := do
  if (← peek?).isSome then newline

/-- A comment, if there is one, up to the end of its line. -/
def comment : Scan Unit := do
  if ← eat '#' then
    let _ ← run isTextChar

/-- What may stand behind a setting on its line. -/
def restOfLine : Scan Unit := do
  blanks
  comment
  lineEnd

/-- Blanks, line ends and comments. -/
def space : Scan Unit := do
  let _ ← many do
    blanks
    match ← peek? with
    | some '#' => do
      comment
      newline
      return some ()
    | some '\n' | some '\r' => do
      newline
      return some ()
    | _ => return none

end Scan

end NullGuard.Toml
