import CactLang.Grammar.Cursor
import CactLang.Tree.Expr

/-!
# Reading expressions

Expressions are read by precedence: an operand first, and then, for as long as
the next operator binds tighter than the place allows, the operator and its right
operand. All binary operators group to the left.

Each form of expression is read by a phrase that is given the reader of its
parts. `exprWithin` ties the knot, for a nesting that is bounded; `expr` allows
for as many levels as there are tokens left, and each level takes one at least.
-/

namespace CactLang

/-- How tightly an operator holds its operands, the loosest first. -/
inductive Precedence where
  | lowest
  | or
  | and
  | equality
  | relational
  | additive
  | multiplicative
  | unary
  | primary
  deriving DecidableEq, Repr, Inhabited

namespace Precedence

/-- The place in the order, from zero. -/
def rank : Precedence → Nat
  | lowest => 0
  | or => 1
  | and => 2
  | equality => 3
  | relational => 4
  | additive => 5
  | multiplicative => 6
  | unary => 7
  | primary => 8

/-- The precedence of a token between two operands. -/
def ofToken? : TokenKind → Option Precedence
  | .or => some or
  | .and => some and
  | .equal | .notEqual => some equality
  | .less | .lessEqual | .greater | .greaterEqual => some relational
  | .plus | .dash => some additive
  | .star | .slash | .percent => some multiplicative
  | _ => none

end Precedence

/-- The forms an operand can take. -/
inductive OperandForm where
  | number
  | truth
  | name
  | sign
  | group
  deriving DecidableEq, Repr

/-- The form of the operand that a token starts. -/
def OperandForm.ofToken? : TokenKind → Option OperandForm
  | .integerLiteral | .floatLiteral | .doubleLiteral => some number
  | .kwTrue | .kwFalse => some truth
  | .identifier => some name
  | .plus | .dash | .not => some sign
  | .openParen => some group
  | _ => none

/-- The form of the literal that a token is. -/
def NumberKind.ofToken? : TokenKind → Option NumberKind
  | .integerLiteral => some integer
  | .floatLiteral => some float
  | .doubleLiteral => some double
  | _ => none

namespace Phrase

/-! ## Operands -/

/-- A numeric literal. -/
def number : Phrase Expr := do
  let token ← advance
  match NumberKind.ofToken? token.kind with
  | none => throw ⟨.badNumber token.text, token.span.start, none⟩
  | some form => return .plain (← freshId) (.number token.text form) token.span

/-- A truth literal: `true`, and every other token for `false`. -/
def truth : Phrase Expr := do
  let token ← advance
  return .plain (← freshId) (.bool (token.kind = .kwTrue)) token.span

/-- A name with arguments, a call; or a name with indices, a variable. -/
def nameWith (expr : Precedence → Phrase Expr) : Phrase Expr := do
  let name ← advance
  if (← kind) = .openParen then
    let _ ← advance
    let arguments ← listUntil .closeParen (expr .lowest)
    let id ← freshId
    return .plain id (.call name.text arguments none) (← spanFrom name.span.start)
  else
    let indices ← bracketed (expr .lowest)
    let span ← spanFrom name.span.start
    let lvalue := LValue.plain (← freshId) name.text indices span
    return .plain (← freshId) (.lvalue lvalue) span

/-- An operator and its only operand. -/
def signWith (expr : Precedence → Phrase Expr) : Phrase Expr := do
  let token ← advance
  match Operator.ofUnary? token.kind with
  | none => throw token.unexpected
  | some operator =>
    let operand ← expr .unary
    let id ← freshId
    return .plain id (.unary operator operand) (← spanFrom token.span.start)

/-- An expression in parentheses. -/
def groupWith (expr : Precedence → Phrase Expr) : Phrase Expr := do
  let start := (← advance).span.start
  let inner ← expr .lowest
  let _ ← expect .closeParen
  let id ← freshId
  return .plain id (.paren inner) (← spanFrom start)

/-- An operand of any form. -/
def operandWith (expr : Precedence → Phrase Expr) : Phrase Expr := do
  match OperandForm.ofToken? (← kind) with
  | none => unexpected "expected an expression"
  | some .number => number
  | some .truth => truth
  | some .name => nameWith expr
  | some .sign => signWith expr
  | some .group => groupWith expr

/-! ## Operations -/

/-- An operator after its left operand, and its right operand, in which only
tighter operators are read. -/
def operationWith (expr : Precedence → Phrase Expr) (left : Expr) (precedence : Precedence) :
    Phrase Expr := do
  let token ← advance
  match Operator.ofBinary? token.kind with
  | none => throw token.unexpected
  | some operator =>
    let right ← expr precedence
    return .plain (← freshId) (.binary operator left right) (.between left.span right.span)

/-- Extends `left` by operators that bind tighter than `bound`, at most `rounds`
times. -/
def extendWith (expr : Precedence → Phrase Expr) (bound : Precedence) :
    Nat → Expr → Phrase Expr
  | 0, left => pure left
  | rounds + 1, left => do
    match Precedence.ofToken? (← kind) with
    | none => return left
    | some precedence =>
      if bound.rank < precedence.rank then
        let left ← operationWith expr left precedence
        extendWith expr bound rounds left
      else
        return left

/-- An expression with at most `levels` levels of nesting, of operators that bind
tighter than `bound`. -/
def exprWithin : (levels : Nat) → (bound : Precedence) → Phrase Expr
  | 0, _ => unexpected "expected an expression"
  | levels + 1, bound => do
    let left ← operandWith (exprWithin levels)
    extendWith (exprWithin levels) bound (← get).ahead.length left

/-- An expression of operators that bind tighter than `bound`. -/
def expr (bound : Precedence) : Phrase Expr := do
  exprWithin ((← get).ahead.length + 1) bound

end Phrase

end CactLang
