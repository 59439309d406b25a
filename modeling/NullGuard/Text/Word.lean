import NullGuard.Text.Letters

/-!
# Whole words

A word occurs as a whole where no word character stands directly before or
behind it.
-/

namespace NullGuard.Text

/-- Whether a text begins with a word character. -/
def beginsWithWordChar : List Char → Bool
  | [] => false
  | c :: _ => isWordChar c

/-- Whether a word occurs as a whole; `inWord` tells whether a word character
stands in front of the text. -/
def containsWordFrom (word : List Char) (inWord : Bool) : List Char → Bool
  | [] => false
  | c :: rest =>
    (!inWord && word.isPrefixOf (c :: rest) &&
      !beginsWithWordChar ((c :: rest).drop word.length)) ||
      containsWordFrom word (isWordChar c) rest

/-- Whether a word occurs as a whole in a text. -/
def containsWord (word text : String) : Bool :=
  containsWordFrom word.toList false text.toList

end NullGuard.Text
