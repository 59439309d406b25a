/-!
# Operators and declaration words

The words and signs that a syntax node carries besides its children. Each type
has a `text`, the spelling in source code, and the readers go through the same
table, so that a spelling is written down once.
-/

namespace NullGuard.Tree

/-- The operators with two operands, the short-circuit ones included. -/
inductive BinaryOp where
  | eq | notEq | strictEq | strictNotEq | less | lessEq | greater | greaterEq
  | shiftLeft | shiftRight | shiftRightZero
  | add | sub | mul | div | mod | bitOr | bitXor | bitAnd | or | and
  | isIn | instanceOf | power | coalesce
deriving DecidableEq, Repr

/-- The spelling of an operator. -/
def BinaryOp.text : BinaryOp → String
  | eq => "==" | notEq => "!=" | strictEq => "===" | strictNotEq => "!=="
  | less => "<" | lessEq => "<=" | greater => ">" | greaterEq => ">="
  | shiftLeft => "<<" | shiftRight => ">>" | shiftRightZero => ">>>"
  | add => "+" | sub => "-" | mul => "*" | div => "/" | mod => "%"
  | bitOr => "|" | bitXor => "^" | bitAnd => "&" | or => "||" | and => "&&"
  | isIn => "in" | instanceOf => "instanceof" | power => "**" | coalesce => "??"

/-- How tightly an operator binds; a larger number binds tighter. -/
def BinaryOp.precedence : BinaryOp → Nat
  | coalesce => 1 | or => 1 | and => 2 | bitOr => 3 | bitXor => 4 | bitAnd => 5
  | eq | notEq | strictEq | strictNotEq => 6
  | less | lessEq | greater | greaterEq | isIn | instanceOf => 7
  | shiftLeft | shiftRight | shiftRightZero => 8
  | add | sub => 9
  | mul | div | mod => 10
  | power => 11

/-- The operators that assign. -/
inductive AssignOp where
  | plain
  | add | sub | mul | div | mod | shiftLeft | shiftRight | shiftRightZero
  | bitOr | bitXor | bitAnd | power | and | or | coalesce
deriving DecidableEq, Repr

/-- The spelling of an assignment operator. -/
def AssignOp.text : AssignOp → String
  | plain =>
    "=" | add => "+=" | sub => "-=" | mul => "*=" | div => "/=" | mod => "%="
  | shiftLeft => "<<=" | shiftRight => ">>=" | shiftRightZero => ">>>="
  | bitOr => "|=" | bitXor => "^=" | bitAnd => "&=" | power => "**="
  | and => "&&=" | or => "||=" | coalesce => "??="

/-- The operators before a single operand. -/
inductive UnaryOp where
  | minus | plus | not | bitNot | typeOf | void | delete
deriving DecidableEq, Repr

/-- The spelling of a unary operator. -/
def UnaryOp.text : UnaryOp → String
  | minus => "-" | plus => "+" | not => "!" | bitNot => "~"
  | typeOf => "typeof" | void => "void" | delete => "delete"

/-- Whether a unary operator is a word, which needs a space before its
operand. -/
def UnaryOp.isWord : UnaryOp → Bool
  | typeOf | void | delete => true
  | _ => false

/-- Counting a variable up or down. -/
inductive UpdateOp where
  | increment | decrement
deriving DecidableEq, Repr

/-- The spelling of an update operator. -/
def UpdateOp.text : UpdateOp → String
  | increment => "++" | decrement => "--"

/-- The word that begins a variable statement. -/
inductive VarWord where
  | var | «let» | const
deriving DecidableEq, Repr

/-- The spelling of a declaration word. -/
def VarWord.text : VarWord → String
  | var => "var" | «let» => "let" | const => "const"

/-- Who may use a class member. -/
inductive Access where
  | all | family | self
deriving DecidableEq, Repr

/-- The spelling of an access word. -/
def Access.text : Access → String
  | all => "public" | family => "protected" | self => "private"

/-- What may be said about a class member, or about a parameter that declares
one. -/
structure Modifiers where
  access : Option Access := none
  isStatic : Bool := false
  isAbstract : Bool := false
  isOverride : Bool := false
  isReadonly : Bool := false
  isDeclared : Bool := false
  isOptional : Bool := false
  isDefinite : Bool := false
deriving DecidableEq, Repr, Inhabited

/-- The two sides of an accessor, and the ordinary method. -/
inductive MethodSort where
  | method | getter | setter
deriving DecidableEq, Repr

/-- How a mapped type changes a modifier. -/
inductive MappedMark where
  | none | plain | plus | minus
deriving DecidableEq, Repr

end NullGuard.Tree
