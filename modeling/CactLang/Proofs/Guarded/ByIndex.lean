import CactLang.Proofs.Guarded.Scanning
import CactLang.Typing.Statement
import Mathlib.Algebra.Ring.Int.Defs

/-!
# Typing by index

Checking gets at list items by their indices, cuts lists and texts at indices, and counts.
Here it is written with all of this in the open: an index that is out of range, and a number
that no 64-bit word holds, stop it as a handle does that names nothing.

On literals and on types this never stops. A literal is looked at without its first character,
so all that can go wrong there is a value that has no negative:

> `integer_eq`: a text without a sign after its first character has a value or none.
-/

namespace CactLang.Typing

open Text (width dropBytes?)

namespace ByIndex

variable {α : Type}

/-! ## Indices and numbers -/

/-- The item at an index. -/
def itemAt (xs : List α) (index : Nat) : Except Failure α :=
  entry xs[index]?

/-- The items from an index on. -/
def itemsFrom (xs : List α) (index : Nat) : Except Failure (List α) :=
  if index ≤ xs.length then .ok (xs.drop index) else .error .dangling

/-- The value of a literal without the minus sign in front. -/
def magnitude (text : List Char) : Except Failure (Option Int) :=
  if text.take 2 = ['0', 'x'] ∨ text.take 2 = ['0', 'X'] then
    return Literal.signed? 16 (text.drop 2)
  else if 1 < width text ∧ text.head? = some '0' then do
    return Literal.signed? 8 (← entry (dropBytes? text 1))
  else
    return Literal.signed? 10 text

/-- The value, negated. -/
def negate : Option Int → Except Failure (Option Int)
  | none => return none
  | some value => do return some (← entry (Literal.word? (-value)))

/-- The value of an integer literal. -/
def integer (text : List Char) : Except Failure (Option Int) :=
  if text.head? = some '-' then do negate (← magnitude text.tail) else magnitude text

/-- Whether a literal has a value in its type. -/
def isLiteral (kind : NumberKind) (negated : Bool) (text : List Char) : Except Failure Bool :=
  match kind with
  | .integer => do
    match ← integer text with
    | none => return false
    | some value => return value ≤ integerLimit negated
  | kind => return Typing.isLiteral kind negated text

/-- Whether a parameter takes an argument. -/
def accepts (parameter argument : Ty) : Except Failure Bool :=
  if parameter = argument then
    return true
  else if parameter.dims.head? = some 0 ∧ parameter.basic = argument.basic ∧
      parameter.rank = argument.rank then do
    let inner ← itemsFrom parameter.dims 1
    let inner' ← itemsFrom argument.dims 1
    return inner == inner'
  else
    return false

/-- The type that is left after `count` indices. -/
def indexed (t : Ty) (count : Nat) : Except Failure Ty := do
  return ⟨t.basic, ← itemsFrom t.dims (min count t.rank)⟩

/-! ## Expressions -/

mutual

/-- Checks an expression; `negated` says that it is the operand of a minus sign. -/
def checkExpr (r : Registry) (scope : ScopeId) :
    (negated : Bool) → Expr → Except Failure (Expr × ExprInfo)
  | negated, ⟨id, .number text kind, span, _⟩ => do
    if ← isLiteral kind negated text.toList then
      return noted id (.number text kind) span ⟨.scalar kind.basic, true, false⟩
    else
      reject (.badNumber text) id span
  | _, ⟨id, .bool value, span, _⟩ =>
    return noted id (.bool value) span ⟨.scalar .bool, true, false⟩
  | _, ⟨id, .lvalue lvalue, span, _⟩ => do
    let a ← checkLValue r scope lvalue
    return noted id (.lvalue a.1) span ⟨a.2, false, a.1.assignable⟩
  | _, ⟨id, .paren inner, span, _⟩ => do
    let a ← checkExpr r scope false inner
    locate id span (Operator.nop.checkOperand a.2.ty)
    return noted id (.paren a.1) span ⟨Operator.nop.resultType a.2.ty, a.2.isConstant, false⟩
  | _, ⟨id, .unary operator operand, span, _⟩ => do
    let a ← checkExpr r scope (operator = .neg) operand
    locate id span (operator.checkOperand a.2.ty)
    return noted id (.unary operator a.1) span
      ⟨operator.resultType a.2.ty, a.2.isConstant, false⟩
  | _, ⟨id, .binary operator left right, span, _⟩ => do
    let a ← checkExpr r scope false left
    let b ← checkExpr r scope false right
    locate id span (operator.checkOperands a.2.ty b.2.ty)
    return noted id (.binary operator a.1 b.1) span
      ⟨operator.resultType a.2.ty, a.2.isConstant && b.2.isConstant, false⟩
  | _, ⟨id, .call callee arguments _, span, _⟩ => do
    let function ← locateRefusal id span (r.lookupFunction callee)
    let signature ← entry (r.function? function)
    let expected := signature.parameters.length
    let received := arguments.length
    if expected < received then
      let extra ← itemAt arguments expected
      reject (.tooManyArguments callee expected received) extra.id extra.span
    else if received < expected then
      reject (.tooFewArguments callee expected received) id span
    else
      let arguments ← checkArguments r scope callee 0 signature.parameters arguments
      return noted id (.call callee arguments (some function)) span
        ⟨signature.returns, false, false⟩

/-- Checks a variable and its indices; gives the type that the indices leave. -/
def checkLValue (r : Registry) (scope : ScopeId) : LValue → Except Failure (LValue × Ty)
  | ⟨id, name, indices, span, _, _⟩ => do
    let symbolId ← locateRefusal id span (r.lookup scope name)
    let symbol ← entry (r.symbol? symbolId)
    if symbol.ty.rank < indices.length then
      reject (.overIndexed name symbol.ty.rank indices.length) id span
    else
      let indices' ← checkIndices r scope indices
      return (⟨id, name, indices', span, some symbolId, symbol.isAssignable⟩,
        ← indexed symbol.ty indices.length)

/-- Checks indices, from the first to the last. -/
def checkIndices (r : Registry) (scope : ScopeId) : List Expr → Except Failure (List Expr)
  | [] => return []
  | e :: es => do
    let a ← checkExpr r scope false e
    if a.2.ty.isIndex then
      let es' ← checkIndices r scope es
      return a.1 :: es'
    else
      reject (.badIndex a.2.ty.text) e.id e.span

/-- Checks arguments against parameters for as long as there are both, the first of
them being number `index`. A refusal names the argument by the number after that. -/
def checkArguments (r : Registry) (scope : ScopeId) (callee : String) :
    (index : Nat) → List Parameter → List Expr → Except Failure (List Expr)
  | index, p :: ps, e :: es => do
    let a ← checkExpr r scope false e
    let next ← entry (sum64? index 1)
    if ← accepts p.ty a.2.ty then
      let es' ← checkArguments r scope callee next ps es
      return a.1 :: es'
    else
      reject (.argumentMismatch callee index p.ty.text a.2.ty.text) e.id e.span
  | _, _, _ => return []

end

/-! ## Declarations -/

/-- The depth at which the items of a list stand that itself stands at `depth`. -/
def itemDepth (target : Ty) (depth extent : Nat) (items : List Initializer) :
    Except Failure (Except Cause Nat) :=
  let count := items.length
  if depth = 0 && count = extent && items.all Initializer.isScalar then
    return .ok target.rank
  else do
    let next ← entry (sum64? depth 1)
    if next < target.rank ∧ count ≠ extent then
      return .error (.shapeMismatch depth s!"expected exactly {extent} elements, found {count}")
    else if extent < count then
      return .error (.shapeMismatch depth s!"expected at most {extent} elements, found {count}")
    else
      return .ok next

mutual

/-- Checks an initializer that stands inside `depth` dimensions of `target`. -/
def checkInitializer (r : Registry) (scope : ScopeId) (target : Ty) :
    (depth : Nat) → Initializer → Except Failure Initializer
  | depth, .scalar id value span =>
    if depth ≠ target.rank then
      reject (.shapeMismatch depth s!"expected a braced list for `{target.text}`, found a scalar")
        id span
    else do
      let a ← checkExpr r scope false value
      let expected := Ty.scalar target.basic
      if a.2.ty ≠ expected then
        reject (.typeMismatch expected.text a.2.ty.text) value.id value.span
      else if !a.2.isConstant then
        reject .notConstant value.id value.span
      else
        return .scalar id a.1 span
  | depth, .list id items span =>
    if target.rank ≤ depth then
      reject (.shapeMismatch depth
        s!"found a braced list where a `{target.basic.name}` scalar is expected") id span
    else do
      let extent ← itemAt target.dims depth
      let inner ← locate id span (← itemDepth target depth extent items)
      let items' ← checkInitializers r scope target inner items
      return .list id items' span

/-- Checks the items of a list, from the first to the last. -/
def checkInitializers (r : Registry) (scope : ScopeId) (target : Ty) :
    (depth : Nat) → List Initializer → Except Failure (List Initializer)
  | _, [] => return []
  | depth, i :: is => do
    let i' ← checkInitializer r scope target depth i
    let is' ← checkInitializers r scope target depth is
    return i' :: is'

end

/-- The extent of a dimension of node `id`; the diagnostic points at the dimension. -/
def checkDimension (id : NodeId) (dim : Dimension) : Except Failure Nat := do
  let value? ← integer dim.text.toList
  let extent? := value?.bind fun value =>
    if 0 < value ∧ value < 4294967296 then some value.toNat else none
  extent?.elim (reject (.badDimension dim.text) id dim.span) .ok

/-- The type that an element kind and dimensions declare, with an open dimension outside of
them if `isOpen`. -/
def typeOf (basic : BasicType) (dims : List Dimension) (isOpen : Bool) (id : NodeId) :
    Except Failure Ty := do
  let extents ← dims.mapM (checkDimension id)
  return ⟨basic, if isOpen then 0 :: extents else extents⟩

/-- Checks a definition and declares its name. -/
def varDef (isConstant : Bool) (basic : BasicType) (d : VarDef) : Check VarDef := do
  let ty ← .look fun _ _ => typeOf basic d.dims false d.id
  let init ← d.init.mapM fun init =>
    .look fun r context => checkInitializer r context.scope ty 0 init
  let symbol ← bindName d.id d.span d.name (declaredSymbol isConstant d ty)
  return { d with init, symbol := some symbol }

/-- Checks a parameter: adds it to the function and declares its name. -/
def param (function : FunctionId) (p : Param) : Check Param := do
  let ty ← .look fun _ _ => typeOf p.basic p.dims p.isOpen p.id
  Check.declare fun r _ =>
    locateRefusal p.id p.span ((r.addParameter function ⟨p.name, ty⟩).map ((), ·))
  let symbol ← bindName p.id p.span p.name (.ofParameter p.name ty)
  return { p with symbol := some symbol }

end ByIndex

/-! ## Literals without a sign -/

theorem signed?_nonneg {base : Nat} {text : List Char} {value : Int} (h : '-' ∉ text)
    (hvalue : Literal.signed? base text = some value) : 0 ≤ value ∧ value < 2 ^ 63 := by
  have hword : ∀ {n : Nat}, Literal.word? (Int.ofNat n) = some value →
      0 ≤ value ∧ value < 2 ^ 63 := by
    intro n hn
    unfold Literal.word? at hn
    split at hn
    next hrange =>
      rw [← Option.some.inj hn]
      exact ⟨Int.natCast_nonneg n, hrange.2⟩
    next => cases hn
  -- with no minus the digits are those of a natural number
  unfold Literal.signed? at hvalue
  obtain ⟨v, hv, hvalue⟩ := Option.bind_eq_some_iff.mp hvalue
  split at hv
  next =>
    obtain ⟨n, _, rfl⟩ := Option.map_eq_some_iff.mp hv
    exact hword hvalue
  next => exact absurd List.mem_cons_self h
  next =>
    obtain ⟨n, _, rfl⟩ := Option.map_eq_some_iff.mp hv
    exact hword hvalue

theorem magnitude?_nonneg {text : List Char} {value : Int} (h : '-' ∉ text)
    (hvalue : Literal.magnitude? text = some value) : 0 ≤ value ∧ value < 2 ^ 63 := by
  unfold Literal.magnitude? at hvalue
  split at hvalue
  next => exact signed?_nonneg (fun hmem => h (.tail _ (.tail _ hmem))) hvalue
  next => exact signed?_nonneg (fun hmem => h (.tail _ (.tail _ hmem))) hvalue
  next => exact signed?_nonneg (fun hmem => h (.tail _ hmem)) hvalue
  next => exact signed?_nonneg h hvalue

namespace ByIndex

theorem magnitude_eq (text : List Char) : magnitude text = .ok (Literal.magnitude? text) := by
  unfold Literal.magnitude?
  split
  next => rfl
  next => rfl
  next c digits hx hX =>
    have hhex : ¬(('0' :: c :: digits).take 2 = ['0', 'x'] ∨
        ('0' :: c :: digits).take 2 = ['0', 'X']) := by
      simpa using ⟨hx, hX⟩
    have hwidth : 1 < width ('0' :: c :: digits) := by
      have hc := c.utf8Size_pos
      rw [Text.width_cons, Text.width_cons, show '0'.utf8Size = 1 from rfl]
      omega
    have hdrop : dropBytes? ('0' :: c :: digits) 1 = some (c :: digits) :=
      Text.dropBytes?_width ['0'] (c :: digits)
    rw [magnitude, if_neg hhex, if_pos ⟨hwidth, rfl⟩, hdrop]
    rfl
  next hx hX hzero =>
    -- Neither a base nor an octal zero is in front, so neither test on the text holds.
    have htake : ∀ {front : List Char}, text.take 2 = front → text = front ++ text.drop 2 := by
      rintro _ rfl
      exact (List.take_append_drop 2 text).symm
    have hhex : ¬(text.take 2 = ['0', 'x'] ∨ text.take 2 = ['0', 'X']) := by
      rintro (h | h)
      · exact hx _ (htake h)
      · exact hX _ (htake h)
    have hoctal : ¬(1 < width text ∧ text.head? = some '0') := by
      rintro ⟨hwidth, hhead⟩
      obtain ⟨rest, rfl⟩ := List.head?_eq_some_iff.mp hhead
      cases rest with
      | nil => exact absurd hwidth (by decide)
      | cons c digits => exact hzero c digits rfl
    rw [magnitude, if_neg hhex, if_neg hoctal]
    rfl

theorem negate_eq {value : Option Int} (h : ∀ v ∈ value, 0 ≤ v ∧ v < 2 ^ 63) :
    negate value = .ok (value.bind fun v => Literal.word? (-v)) := by
  cases value with
  | none => rfl
  | some v =>
    have hv := h v rfl
    have hword : Literal.word? (-v) = some (-v) := if_pos (by omega)
    show (do return some (← entry (Literal.word? (-v)))) = Except.ok (Literal.word? (-v))
    rw [hword]
    rfl

/-- A literal without a sign after its first character has a value or none. -/
theorem integer_eq {text : List Char} (h : '-' ∉ text.tail) :
    integer text = .ok (Literal.integer? text) := by
  unfold Literal.integer?
  split
  next text =>
    have hhead : ('-' :: text).head? = some '-' := rfl
    rw [integer, if_pos hhead, List.tail_cons, magnitude_eq]
    exact negate_eq fun v hv => magnitude?_nonneg h hv
  next hminus =>
    have hhead : text.head? ≠ some '-' := by
      intro hhead
      obtain ⟨rest, rfl⟩ := List.head?_eq_some_iff.mp hhead
      exact hminus rest rfl
    rw [integer, if_neg hhead, magnitude_eq]

theorem isLiteral_eq {kind : NumberKind} {text : List Char} (negated : Bool)
    (h : kind = .integer → '-' ∉ text.tail) :
    isLiteral kind negated text = .ok (Typing.isLiteral kind negated text) := by
  cases kind with
  | integer =>
    rw [isLiteral, integer_eq (h rfl), Typing.isLiteral]
    cases Literal.integer? text <;> rfl
  | float => rfl
  | double => rfl

/-! ## Types -/

theorem itemsFrom_of_le {α : Type} {xs : List α} {index : Nat} (h : index ≤ xs.length) :
    itemsFrom xs index = .ok (xs.drop index) :=
  if_pos h

theorem accepts_eq (parameter argument : Ty) :
    accepts parameter argument = .ok (parameter.accepts argument) := by
  unfold accepts Ty.accepts
  by_cases heq : parameter = argument
  · rw [if_pos heq, heq, beq_self_eq_true, Bool.true_or]
    rfl
  · rw [if_neg heq, beq_false_of_ne heq, Bool.false_or]
    by_cases hopen : parameter.dims.head? = some 0 ∧ parameter.basic = argument.basic ∧
        parameter.rank = argument.rank
    · -- an open parameter: equal ranks give the argument an outer dimension, and both tails exist
      rw [if_pos hopen]
      obtain ⟨hhead, hbasic, hrank⟩ := hopen
      obtain ⟨inner, hinner⟩ := List.head?_eq_some_iff.mp hhead
      unfold Ty.rank at hrank
      cases hdims : argument.dims with
      | nil =>
        rw [hinner, hdims] at hrank
        cases hrank
      | cons d inner' =>
        rw [hinner, itemsFrom_of_le (Nat.succ_pos _), itemsFrom_of_le (Nat.succ_pos _), hbasic,
          beq_self_eq_true]
        rfl
    · -- otherwise the types would have to agree in all inner dimensions, and so in rank
      rw [if_neg hopen]
      split
      next inner d inner' hinner hinner' =>
        have hdiffer : ¬(parameter.basic = argument.basic ∧ inner = inner') := by
          rintro ⟨hbasic, rfl⟩
          refine hopen ⟨by rw [hinner]; rfl, hbasic, ?_⟩
          unfold Ty.rank
          rw [hinner, hinner']
          rfl
        simpa [Pure.pure, Except.pure] using hdiffer
      next => rfl

theorem indexed_eq (t : Ty) (count : Nat) : indexed t count = .ok (t.indexed count) := by
  have hdrop : t.dims.drop (min count t.dims.length) = t.dims.drop count := by
    rcases Nat.le_total count t.dims.length with hle | hle
    · rw [Nat.min_eq_left hle]
    · rw [Nat.min_eq_right hle, List.drop_length, List.drop_of_length_le hle]
  rw [indexed, Ty.rank, itemsFrom_of_le (Nat.min_le_right _ _), hdrop]
  rfl

end ByIndex

end CactLang.Typing
