import CactLang.Diagnostic
import CactLang.Token
import CactLang.Ty

/-!
# Operators

The unary and binary operators, the operands they take and the type they give.
Operands never convert: a binary operator takes two operands of one and the same
type. The operator `nop` applies nothing and passes its operand through; it
stands for a pair of parentheses.
-/

namespace CactLang

/-- The operators of the language. -/
inductive Operator where
  | nop
  | plus
  | neg
  | not
  | add
  | sub
  | mul
  | div
  | mod
  | less
  | lessEqual
  | greater
  | greaterEqual
  | equal
  | notEqual
  | and
  | or
  deriving DecidableEq, Repr, Inhabited

namespace Operator

/-- The name an operator is shown by in outlines. -/
def label : Operator → String
  | nop => "Nop"
  | plus => "Plus"
  | neg => "Neg"
  | not => "Not"
  | add => "Add"
  | sub => "Sub"
  | mul => "Mul"
  | div => "Div"
  | mod => "Mod"
  | less => "Less"
  | lessEqual => "LessEqual"
  | greater => "Greater"
  | greaterEqual => "GreaterEqual"
  | equal => "Equal"
  | notEqual => "NotEqual"
  | and => "And"
  | or => "Or"

/-- Every operator, each once. -/
def all : List Operator :=
  [nop, plus, neg, not, add, sub, mul, div, mod, less, lessEqual, greater, greaterEqual, equal,
    notEqual, and, or]

/-- The operator with a given label. -/
def ofLabel? (label : String) : Option Operator :=
  all.find? (·.label == label)

/-- The operator a token is in front of an operand. -/
def ofUnary? : TokenKind → Option Operator
  | .plus => some plus
  | .dash => some neg
  | .not => some not
  | _ => none

/-- The operator a token is between two operands. -/
def ofBinary? : TokenKind → Option Operator
  | .plus => some add
  | .dash => some sub
  | .star => some mul
  | .slash => some div
  | .percent => some mod
  | .less => some less
  | .lessEqual => some lessEqual
  | .greater => some greater
  | .greaterEqual => some greaterEqual
  | .equal => some equal
  | .notEqual => some notEqual
  | .and => some and
  | .or => some or
  | _ => none

/-- The operator as written in a program. -/
def symbol : Operator → String
  | nop => ""
  | plus | add => "+"
  | neg | sub => "-"
  | not => "!"
  | mul => "*"
  | div => "/"
  | mod => "%"
  | less => "<"
  | lessEqual => "<="
  | greater => ">"
  | greaterEqual => ">="
  | equal => "=="
  | notEqual => "!="
  | and => "&&"
  | or => "||"

/-- The operator as named in messages. -/
def text : Operator → String
  | nop => "nop"
  | op => op.symbol

/-- Whether the operator applies to a single operand of type `t`. -/
def takes (op : Operator) (t : Ty) : Bool :=
  match op with
  | nop => true
  | plus | neg => t.isOperand && t.basic.isNumeric
  | not => t.isOperand && t.basic == .bool
  | _ => false

/-- Whether the operator applies to two operands whose element kind is `basic`. -/
def takesPair (op : Operator) (basic : BasicType) : Bool :=
  match op with
  | nop | equal | notEqual => true
  | add | sub | mul | div | less | lessEqual | greater | greaterEqual => basic.isNumeric
  | mod => basic == .int32
  | and | or => basic == .bool
  | plus | neg | not => false

/-- Passes an operand the operator applies to. -/
def checkOperand (op : Operator) (t : Ty) : Except Cause Unit :=
  if op.takes t then .ok () else .error (.badOperand op.text t.text)

/-- Passes a pair of operands the operator applies to. -/
def checkOperands (op : Operator) (left right : Ty) : Except Cause Unit :=
  if left.isOperand && right.isOperand && left == right && op.takesPair left.basic then .ok ()
  else .error (.badOperand op.text (left.text ++ " and " ++ right.text))

/-- The type of the result, given that of the only or left operand. -/
def resultType (op : Operator) (operand : Ty) : Ty :=
  match op with
  | nop | plus | neg | add | sub | mul | div | mod => operand
  | not | less | lessEqual | greater | greaterEqual | equal | notEqual | and | or => .scalar .bool

end Operator

end CactLang
