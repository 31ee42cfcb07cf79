import CactLang.Literal.Decimal
import CactLang.Tree.Decl
import CactLang.Typing.Failure

/-!
# Typing expressions and initializers

An expression is checked bottom-up in a scope of a registry, and comes back with
the type of every part and the variables and functions that its names stand for.
Nothing is declared on the way, so the registry is only read. What a tree knew
before is never looked at.

An initializer is checked against the declared type one dimension at a time. An
array takes lists nested like its dimensions, the innermost ones perhaps with
elements left out, or one flat list of exactly as many scalars as its outermost
dimension says.
-/

namespace CactLang.Typing

/-! ## Literals -/

/-- The largest integer literal is `2 ^ 31 - 1`, and `2 ^ 31` directly after a
minus sign. -/
def integerLimit (negated : Bool) : Int :=
  if negated then 2147483648 else 2147483647

/-- Whether a literal has a value in its type. -/
def isLiteral (kind : NumberKind) (negated : Bool) (text : List Char) : Bool :=
  match kind with
  | .integer =>
    match Literal.integer? text with
    | some value => value ≤ integerLimit negated
    | none => false
  | .float => Literal.denotesBelow Literal.floatBound (Literal.withoutSuffix text)
  | .double => Literal.denotesBelow Literal.doubleBound text

/-! ## Expressions -/

/-- An expression and what is known of it, noted down on the node. -/
def noted (id : NodeId) (kind : ExprKind) (span : Span) (info : ExprInfo) : Expr × ExprInfo :=
  (⟨id, kind, span, some info⟩, info)

mutual

/-- Checks an expression; `negated` says that it is the operand of a minus sign. -/
def checkExpr (r : Registry) (scope : ScopeId) :
    (negated : Bool) → Expr → Except Failure (Expr × ExprInfo)
  | negated, ⟨id, .number text kind, span, _⟩ =>
    if isLiteral kind negated text.toList then
      return noted id (.number text kind) span ⟨.scalar kind.basic, true, false⟩
    else
      reject (.badNumber text) id span
  | _, ⟨id, .bool value, span, _⟩ =>
    return noted id (.bool value) span ⟨.scalar .bool, true, false⟩
  | _, ⟨id, .lvalue lvalue, span, _⟩ => do
    let (lvalue, ty) ← checkLValue r scope lvalue
    return noted id (.lvalue lvalue) span ⟨ty, false, lvalue.assignable⟩
  | _, ⟨id, .paren inner, span, _⟩ => do
    let (inner, i) ← checkExpr r scope false inner
    locate id span (Operator.nop.checkOperand i.ty)
    return noted id (.paren inner) span ⟨Operator.nop.resultType i.ty, i.isConstant, false⟩
  | _, ⟨id, .unary operator operand, span, _⟩ => do
    let (operand, i) ← checkExpr r scope (operator = .neg) operand
    locate id span (operator.checkOperand i.ty)
    return noted id (.unary operator operand) span
      ⟨operator.resultType i.ty, i.isConstant, false⟩
  | _, ⟨id, .binary operator left right, span, _⟩ => do
    let (left, i) ← checkExpr r scope false left
    let (right, j) ← checkExpr r scope false right
    locate id span (operator.checkOperands i.ty j.ty)
    return noted id (.binary operator left right) span
      ⟨operator.resultType i.ty, i.isConstant && j.isConstant, false⟩
  | _, ⟨id, .call callee arguments _, span, _⟩ => do
    let function ← locateRefusal id span (r.lookupFunction callee)
    let signature ← entry (r.function? function)
    let expected := signature.parameters.length
    let received := arguments.length
    match arguments.drop expected with
    | extra :: _ => reject (.tooManyArguments callee expected received) extra.id extra.span
    | [] =>
      if received < expected then
        reject (.tooFewArguments callee expected received) id span
      else
        let arguments ← checkArguments r scope callee 0 signature.parameters arguments
        return noted id (.call callee arguments (some function)) span
          ⟨signature.returns, false, false⟩

/-- Checks a variable and its indices; gives the type that the indices leave. -/
def checkLValue (r : Registry) (scope : ScopeId) : LValue → Except Failure (LValue × Ty)
  | ⟨id, name, indices, span, _, _⟩ => do
    let symbolId ← locateRefusal id span (r.lookup scope name)
    let symbol ← entry (r.symbol? symbolId)
    if symbol.ty.rank < indices.length then
      reject (.overIndexed name symbol.ty.rank indices.length) id span
    else
      let indices' ← checkIndices r scope indices
      return (⟨id, name, indices', span, some symbolId, symbol.isAssignable⟩,
        symbol.ty.indexed indices.length)

/-- Checks indices, from the first to the last. -/
def checkIndices (r : Registry) (scope : ScopeId) : List Expr → Except Failure (List Expr)
  | [] => return []
  | e :: es => do
    let (e', i) ← checkExpr r scope false e
    if i.ty.isIndex then
      let es' ← checkIndices r scope es
      return e' :: es'
    else
      reject (.badIndex i.ty.text) e.id e.span

/-- Checks arguments against parameters for as long as there are both, the first of
them being number `index`. -/
def checkArguments (r : Registry) (scope : ScopeId) (callee : String) :
    (index : Nat) → List Parameter → List Expr → Except Failure (List Expr)
  | index, p :: ps, e :: es => do
    let (e', i) ← checkExpr r scope false e
    if p.ty.accepts i.ty then
      let es' ← checkArguments r scope callee (index + 1) ps es
      return e' :: es'
    else
      reject (.argumentMismatch callee index p.ty.text i.ty.text) e.id e.span
  | _, _, _ => return []

end

/-! ## Initializers -/

/-- The depth at which the items of a list stand that itself stands at `depth`,
where the dimension is `extent`. A flat list fills the array from the outside, so
its items stand past all dimensions. -/
def itemDepth (target : Ty) (depth extent : Nat) (items : List Initializer) :
    Except Cause Nat :=
  let count := items.length
  let isInnermost := depth + 1 ≥ target.rank
  if depth = 0 && count = extent && items.all Initializer.isScalar then
    .ok target.rank
  else if !isInnermost && count ≠ extent then
    .error (.shapeMismatch depth s!"expected exactly {extent} elements, found {count}")
  else if extent < count then
    .error (.shapeMismatch depth s!"expected at most {extent} elements, found {count}")
  else
    .ok (depth + 1)

mutual

/-- Checks an initializer that stands inside `depth` dimensions of `target`. -/
def checkInitializer (r : Registry) (scope : ScopeId) (target : Ty) :
    (depth : Nat) → Initializer → Except Failure Initializer
  | depth, .scalar id value span =>
    if depth ≠ target.rank then
      reject (.shapeMismatch depth s!"expected a braced list for `{target.text}`, found a scalar")
        id span
    else do
      let (value', info) ← checkExpr r scope false value
      let expected := Ty.scalar target.basic
      if info.ty ≠ expected then
        reject (.typeMismatch expected.text info.ty.text) value.id value.span
      else if !info.isConstant then
        reject .notConstant value.id value.span
      else
        return .scalar id value' span
  | depth, .list id items span =>
    match target.dims[depth]? with
    | none =>
      reject (.shapeMismatch depth
        s!"found a braced list where a `{target.basic.name}` scalar is expected") id span
    | some extent => do
      let inner ← locate id span (itemDepth target depth extent items)
      let items' ← checkInitializers r scope target inner items
      return .list id items' span

/-- Checks the items of a list, from the first to the last. -/
def checkInitializers (r : Registry) (scope : ScopeId) (target : Ty) :
    (depth : Nat) → List Initializer → Except Failure (List Initializer)
  | _, [] => return []
  | depth, i :: is => do
    let i' ← checkInitializer r scope target depth i
    let is' ← checkInitializers r scope target depth is
    return i' :: is'

end

end CactLang.Typing
