/-!
# Blank characters

Three sets that are easily confused. `isBlank` is the Unicode property
`White_Space`; `isSourceBlank` is what a program may have between two tokens on
one line; `isLineBreak` ends a line of a program.
-/

namespace NullGuard.Text

/-- The characters with the Unicode property `White_Space`. -/
def isBlank (c : Char) : Bool :=
  let n := c.toNat
  (0x9 ≤ n && n ≤ 0xD) || n == 0x20 || n == 0x85 || n == 0xA0 || n == 0x1680 ||
    (0x2000 ≤ n && n ≤ 0x200A) || n == 0x2028 || n == 0x2029 || n == 0x202F ||
    n == 0x205F || n == 0x3000

/-- The characters that end a line of a program. -/
def isLineBreak (c : Char) : Bool :=
  c == '\n' || c == '\r' || c.toNat == 0x2028 || c.toNat == 0x2029

/-- The characters that may stand between two tokens without ending the line.
Next to the blanks of `isBlank` that is the byte order mark; the next-line
control is none of them. -/
def isSourceBlank (c : Char) : Bool :=
  ((isBlank c && c.toNat != 0x85) || c.toNat == 0xFEFF) && !isLineBreak c

/-- A text without its blank characters. -/
def squash (text : String) : String :=
  String.ofList (text.toList.filter fun c => !isBlank c)

end NullGuard.Text
