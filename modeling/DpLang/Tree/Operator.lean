import DpLang.Token.Basic

/-!
# Operators and access modes

The operators of expressions with their symbols and precedences, and the access modes of fields.
-/

namespace DpLang

/-- Operators between two operands. -/
inductive BinaryOp where
  | add | subtract | multiply | divide | remainder
  | logicalAnd | logicalOr
  | andNot | and | or | exclusiveOr
  | shiftLeft | shiftRight
  | equal | notEqual | lessOrEqual | greaterOrEqual | less | greater
  deriving DecidableEq, Repr

namespace BinaryOp

def all : List BinaryOp :=
  [.add, .subtract, .multiply, .divide, .remainder, .logicalAnd, .logicalOr, .andNot, .and, .or,
   .exclusiveOr, .shiftLeft, .shiftRight, .equal, .notEqual, .lessOrEqual, .greaterOrEqual,
   .less, .greater]

def symbol : BinaryOp → Symbol
  | .add => .plus
  | .subtract => .minus
  | .multiply => .asterisk
  | .divide => .slash
  | .remainder => .percent
  | .logicalAnd => .logicalAnd
  | .logicalOr => .logicalOr
  | .andNot => .andNot
  | .and => .ampersand
  | .or => .pipe
  | .exclusiveOr => .caret
  | .shiftLeft => .shiftLeft
  | .shiftRight => .shiftRight
  | .equal => .equal
  | .notEqual => .notEqual
  | .lessOrEqual => .lessOrEqual
  | .greaterOrEqual => .greaterOrEqual
  | .less => .less
  | .greater => .greater

/-- The operator that a symbol stands for between two operands. -/
def ofSymbol? (s : Symbol) : Option BinaryOp := all.find? fun op => op.symbol == s

/-- The precedence of the operators that bind their operands first. -/
def maxPrecedence : Nat := 5

/-- How tightly an operator binds: from 1 to `maxPrecedence`. -/
def precedence : BinaryOp → Nat
  | .multiply | .divide | .remainder | .shiftLeft | .shiftRight | .and | .andNot => maxPrecedence
  | .add | .subtract | .or | .exclusiveOr => 4
  | .equal | .notEqual | .less | .lessOrEqual | .greater | .greaterOrEqual => 3
  | .logicalAnd => 2
  | .logicalOr => 1

/-- The operator as it is written. -/
def text (op : BinaryOp) : Text := op.symbol.spelling

end BinaryOp

/-- Operators in front of one operand that are written with a symbol of arithmetic or logic. -/
inductive UnaryOp where
  | identity | negate | complement | not
  deriving DecidableEq, Repr

namespace UnaryOp

def all : List UnaryOp := [.identity, .negate, .complement, .not]

def symbol : UnaryOp → Symbol
  | .identity => .plus
  | .negate => .minus
  | .complement => .caret
  | .not => .exclamation

/-- The operator that a symbol stands for in front of an operand. -/
def ofSymbol? (s : Symbol) : Option UnaryOp := all.find? fun op => op.symbol == s

/-- The operator as it is written. -/
def text (op : UnaryOp) : Text := op.symbol.spelling

end UnaryOp

/-- What may stand in front of an operand. -/
inductive PrefixOp where
  | address
  | clone
  | dereference
  | unary (op : UnaryOp)
  deriving DecidableEq, Repr

/-- What other code may do with a field, from nothing to everything. -/
inductive FieldAccess where
  | hidden | visible | mutable | assignable
  deriving DecidableEq, Repr

namespace FieldAccess

/-- All access modes, the most restrictive first. -/
def all : List FieldAccess := [.hidden, .visible, .mutable, .assignable]

/-- The place of a mode in `all`. -/
def rank : FieldAccess → Nat
  | .hidden => 0
  | .visible => 1
  | .mutable => 2
  | .assignable => 3

/-- The word for a mode. -/
def text : FieldAccess → Text
  | .hidden => "hidden"
  | .visible => "visible"
  | .mutable => "mutable"
  | .assignable => "assignable"

/-- The mode that a word behind a field asks for. A field is hidden by saying nothing. -/
def ofWord? (word : Text) : Option FieldAccess :=
  [visible, mutable, assignable].find? fun access => access.text == word

end FieldAccess

end DpLang
