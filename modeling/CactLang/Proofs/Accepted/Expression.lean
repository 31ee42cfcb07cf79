import CactLang.Typing.Declaration
import Mathlib.Data.List.Forall2

/-!
# What an accepted expression is made of

One lemma for each form of expression and initializer says exactly when checking
passes and what it gives back: which parts were checked, what was looked up, and
which conditions held. Every property of accepted trees is derived from these
lemmas, so a change to one checking function is felt here first and mostly here.

The lemmas are equivalences. From left to right they take an accepted tree apart;
from right to left they show that a tree is accepted.
-/

namespace CactLang.Typing

/-! ## Results that may fail -/

/-- Two parts pass one after the other. -/
theorem bind_ok {ε α β : Type} {x : Except ε α} {f : α → Except ε β} {b : β} :
    x >>= f = .ok b ↔ ∃ a, x = .ok a ∧ f a = .ok b := by
  cases x <;> simp [bind, Except.bind]

theorem pure_ok {ε α : Type} {a b : α} : (pure a : Except ε α) = .ok b ↔ a = b := by
  simp [pure, Except.pure]

@[simp] theorem reject_ne_ok {α : Type} {cause : Cause} {id : NodeId} {span : Span} {a : α} :
    reject cause id span = .ok a ↔ False := by
  simp [reject]

/-- Placing a cause does not change what passes. -/
theorem locate_ok {α : Type} {id : NodeId} {span : Span} {x : Except Cause α} {a : α} :
    locate id span x = .ok a ↔ x = .ok a := by
  cases x <;> simp [locate]

/-- Placing a refusal does not change what passes. -/
theorem locateRefusal_ok {α : Type} {id : NodeId} {span : Span}
    {x : Except Registry.Refusal α} {a : α} :
    locateRefusal id span x = .ok a ↔ x = .ok a := by
  rcases x with (_ | _) | _ <;> simp [locateRefusal]

theorem entry_ok {α : Type} {x : Option α} {a : α} : entry x = .ok a ↔ x = some a := by
  cases x <;> simp [entry]

/-- Operands are scalars other than `void`. -/
theorem isOperand_iff {t : Ty} : t.isOperand = true ↔ ∃ b, b ≠ .void ∧ t = .scalar b := by
  obtain ⟨b, dims⟩ := t
  cases dims <;> simp [Ty.isOperand, Ty.isArray, Ty.scalar]

/-- Indices are of type `int`. -/
theorem isIndex_iff {t : Ty} : t.isIndex = true ↔ t = .scalar .int32 := by
  obtain ⟨b, dims⟩ := t
  cases dims <;> simp [Ty.isIndex, Ty.isArray, Ty.scalar]

/-- An operand passes if the operator takes its type. -/
theorem checkOperand_ok {op : Operator} {t : Ty} {u : Unit} :
    op.checkOperand t = .ok u ↔ op.takes t = true := by
  unfold Operator.checkOperand
  split <;> simp_all

/-- Two operands pass if they are of one scalar type that the operator takes. -/
theorem checkOperands_ok {op : Operator} {left right : Ty} {u : Unit} :
    op.checkOperands left right = .ok u ↔
      left.isOperand = true ∧ right = left ∧ op.takesPair left.basic = true := by
  unfold Operator.checkOperands
  constructor
  · intro h
    split at h
    next hc =>
      simp only [Bool.and_eq_true, beq_iff_eq] at hc
      exact ⟨hc.1.1.1, hc.1.2.symm, hc.2⟩
    next => exact absurd h (by simp)
  · intro h
    obtain ⟨hl, rfl, hp⟩ := h
    simp [hl, hp]

/-! ## Expressions -/

section

variable {r : Registry} {scope : ScopeId} {negated : Bool} {id : NodeId} {span : Span}
  {info : Option ExprInfo} {e' : Expr} {i' : ExprInfo}

/-- A number passes if its text is a good literal. -/
theorem checkExpr_number_ok {text : String} {kind : NumberKind} :
    checkExpr r scope negated ⟨id, .number text kind, span, info⟩ = .ok (e', i') ↔
      isLiteral kind negated text.toList = true ∧ i' = ⟨.scalar kind.basic, true, false⟩ ∧
        e' = ⟨id, .number text kind, span, some i'⟩ := by
  rw [checkExpr]
  constructor
  · intro h
    split at h
    next hl =>
      simp only [pure_ok, noted, Prod.mk.injEq] at h
      obtain ⟨rfl, rfl⟩ := h
      exact ⟨hl, rfl, rfl⟩
    next => exact absurd h (by simp)
  · intro h
    obtain ⟨hl, rfl, rfl⟩ := h
    rw [if_pos hl]
    rfl

/-- A truth value passes, and is constant. -/
theorem checkExpr_bool_ok {value : Bool} :
    checkExpr r scope negated ⟨id, .bool value, span, info⟩ = .ok (e', i') ↔
      i' = ⟨.scalar .bool, true, false⟩ ∧ e' = ⟨id, .bool value, span, some i'⟩ := by
  show (pure _ : Except Failure _) = _ ↔ _
  simp only [pure_ok, noted, Prod.mk.injEq]
  constructor
  · intro h
    obtain ⟨rfl, rfl⟩ := h
    exact ⟨rfl, rfl⟩
  · intro h
    obtain ⟨rfl, rfl⟩ := h
    exact ⟨rfl, rfl⟩

/-- A variable passes as an expression if it does as a variable. It is not constant. -/
theorem checkExpr_lvalue_ok {l : LValue} :
    checkExpr r scope negated ⟨id, .lvalue l, span, info⟩ = .ok (e', i') ↔
      ∃ l' ty, checkLValue r scope l = .ok (l', ty) ∧ i' = ⟨ty, false, l'.assignable⟩ ∧
        e' = ⟨id, .lvalue l', span, some i'⟩ := by
  show (checkLValue r scope l >>= _) = _ ↔ _
  simp only [bind_ok, Prod.exists, pure_ok, noted, Prod.mk.injEq]
  constructor
  · intro h
    obtain ⟨l', ty, hl, rfl, rfl⟩ := h
    exact ⟨l', ty, hl, rfl, rfl⟩
  · intro h
    obtain ⟨l', ty, hl, rfl, rfl⟩ := h
    exact ⟨l', ty, hl, rfl, rfl⟩

/-- Parentheses pass what stands in them, and end a negation. -/
theorem checkExpr_paren_ok {inner : Expr} :
    checkExpr r scope negated ⟨id, .paren inner, span, info⟩ = .ok (e', i') ↔
      ∃ inner' i, checkExpr r scope false inner = .ok (inner', i) ∧
        i' = ⟨i.ty, i.isConstant, false⟩ ∧ e' = ⟨id, .paren inner', span, some i'⟩ := by
  show (checkExpr r scope false inner >>= _) = _ ↔ _
  simp only [bind_ok, Prod.exists, locate_ok, checkOperand_ok, pure_ok, noted, Prod.mk.injEq]
  constructor
  · intro h
    obtain ⟨inner', i, hi, _, _, rfl, rfl⟩ := h
    exact ⟨inner', i, hi, rfl, rfl⟩
  · intro h
    obtain ⟨inner', i, hi, rfl, rfl⟩ := h
    exact ⟨inner', i, hi, (), rfl, rfl, rfl⟩

/-- A sign passes if it takes the type of its operand. Only after a minus is the
operand negated. -/
theorem checkExpr_unary_ok {op : Operator} {operand : Expr} :
    checkExpr r scope negated ⟨id, .unary op operand, span, info⟩ = .ok (e', i') ↔
      ∃ operand' i, checkExpr r scope (op = .neg) operand = .ok (operand', i) ∧
        op.takes i.ty = true ∧ i' = ⟨op.resultType i.ty, i.isConstant, false⟩ ∧
        e' = ⟨id, .unary op operand', span, some i'⟩ := by
  show (checkExpr r scope (op = .neg) operand >>= _) = _ ↔ _
  simp only [bind_ok, Prod.exists, locate_ok, checkOperand_ok, pure_ok, noted, Prod.mk.injEq]
  constructor
  · intro h
    obtain ⟨operand', i, hi, _, ht, rfl, rfl⟩ := h
    exact ⟨operand', i, hi, ht, rfl, rfl⟩
  · intro h
    obtain ⟨operand', i, hi, ht, rfl, rfl⟩ := h
    exact ⟨operand', i, hi, (), ht, rfl, rfl⟩

/-- A binary operation passes if its operator takes both operands. -/
theorem checkExpr_binary_ok {op : Operator} {left right : Expr} :
    checkExpr r scope negated ⟨id, .binary op left right, span, info⟩ = .ok (e', i') ↔
      ∃ left' i right' j, checkExpr r scope false left = .ok (left', i) ∧
        checkExpr r scope false right = .ok (right', j) ∧
        i.ty.isOperand = true ∧ j.ty = i.ty ∧ op.takesPair i.ty.basic = true ∧
        i' = ⟨op.resultType i.ty, i.isConstant && j.isConstant, false⟩ ∧
        e' = ⟨id, .binary op left' right', span, some i'⟩ := by
  show (checkExpr r scope false left >>= _) = _ ↔ _
  simp only [bind_ok, Prod.exists, locate_ok, checkOperands_ok, pure_ok, noted, Prod.mk.injEq]
  constructor
  · intro h
    obtain ⟨left', i, hl, right', j, hr, _, ⟨ho, ht, hp⟩, rfl, rfl⟩ := h
    exact ⟨left', i, right', j, hl, hr, ho, ht, hp, rfl, rfl⟩
  · intro h
    obtain ⟨left', i, right', j, hl, hr, ho, ht, hp, rfl, rfl⟩ := h
    exact ⟨left', i, hl, right', j, hr, (), ⟨ho, ht, hp⟩, rfl, rfl⟩

/-- Neither too many arguments nor too few. -/
theorem checkExpr_call_ok {callee : String} {arguments : List Expr}
    {function : Option FunctionId} :
    checkExpr r scope negated ⟨id, .call callee arguments function, span, info⟩ = .ok (e', i') ↔
      ∃ f signature arguments', r.findFunction? callee = some f ∧
        r.function? f = some signature ∧ arguments.length = signature.parameters.length ∧
        checkArguments r scope callee 0 signature.parameters arguments = .ok arguments' ∧
        i' = ⟨signature.returns, false, false⟩ ∧
        e' = ⟨id, .call callee arguments' (some f), span, some i'⟩ := by
  have hfind : ∀ f, r.lookupFunction callee = .ok f ↔ r.findFunction? callee = some f := by
    intro f
    unfold Registry.lookupFunction
    cases r.findFunction? callee <;> simp
  show (locateRefusal id span (r.lookupFunction callee) >>= _) = _ ↔ _
  simp only [bind_ok, locateRefusal_ok, entry_ok, hfind]
  constructor
  · intro h
    obtain ⟨f, hf, signature, hs, h⟩ := h
    -- nothing is left of the arguments after as many as there are parameters
    split at h
    next => exact absurd h (by simp)
    next hdrop =>
      have hle := List.drop_eq_nil_iff.mp hdrop
      split at h
      next => exact absurd h (by simp)
      next hlt =>
        simp only [bind_ok, pure_ok, noted, Prod.mk.injEq] at h
        obtain ⟨arguments', ha, rfl, rfl⟩ := h
        exact ⟨f, signature, arguments', hf, hs, by omega, ha, rfl, rfl⟩
  · intro h
    obtain ⟨f, signature, arguments', hf, hs, hlen, ha, rfl, rfl⟩ := h
    refine ⟨f, hf, signature, hs, ?_⟩
    rw [List.drop_eq_nil_of_le (Nat.le_of_eq hlen)]
    simp only [hlen, Nat.lt_irrefl, if_false, bind_ok, pure_ok]
    exact ⟨arguments', ha, rfl⟩

/-- A variable passes if its name is bound, it has no more indices than dimensions, and the
indices pass. -/
theorem checkLValue_ok {name : String} {indices : List Expr} {symbol : Option SymbolId}
    {assignable : Bool} {l' : LValue} {ty : Ty} :
    checkLValue r scope ⟨id, name, indices, span, symbol, assignable⟩ = .ok (l', ty) ↔
      ∃ v y indices', r.lookup scope name = .ok v ∧ r.symbol? v = some y ∧
        indices.length ≤ y.ty.rank ∧ checkIndices r scope indices = .ok indices' ∧
        l' = ⟨id, name, indices', span, some v, y.isAssignable⟩ ∧
        ty = y.ty.indexed indices.length := by
  show (locateRefusal id span (r.lookup scope name) >>= _) = _ ↔ _
  simp only [bind_ok, locateRefusal_ok, entry_ok]
  constructor
  · intro h
    obtain ⟨v, hv, y, hy, h⟩ := h
    split at h
    next => exact absurd h (by simp)
    next hrank =>
      simp only [bind_ok, pure_ok, Prod.mk.injEq] at h
      obtain ⟨indices', hi, rfl, rfl⟩ := h
      exact ⟨v, y, indices', hv, hy, Nat.le_of_not_lt hrank, hi, rfl, rfl⟩
  · intro h
    obtain ⟨v, y, indices', hv, hy, hrank, hi, rfl, rfl⟩ := h
    refine ⟨v, hv, y, hy, ?_⟩
    rw [if_neg (Nat.not_lt.mpr hrank)]
    simp only [bind_ok, pure_ok]
    exact ⟨indices', hi, rfl⟩

theorem checkIndices_nil_ok {es' : List Expr} :
    checkIndices r scope [] = .ok es' ↔ es' = [] := by
  simp only [checkIndices, pure_ok]
  exact eq_comm

/-- Indices pass one after the other. -/
theorem checkIndices_cons_ok {e : Expr} {es es' : List Expr} :
    checkIndices r scope (e :: es) = .ok es' ↔
      ∃ d i ds, checkExpr r scope false e = .ok (d, i) ∧ i.ty.isIndex = true ∧
        checkIndices r scope es = .ok ds ∧ es' = d :: ds := by
  show (checkExpr r scope false e >>= _) = _ ↔ _
  simp only [bind_ok, Prod.exists]
  constructor
  · intro h
    obtain ⟨d, i, he, h⟩ := h
    split at h
    next ht =>
      simp only [bind_ok, pure_ok] at h
      obtain ⟨ds, hds, rfl⟩ := h
      exact ⟨d, i, ds, he, ht, hds, rfl⟩
    next => exact absurd h (by simp)
  · intro h
    obtain ⟨d, i, ds, he, ht, hds, rfl⟩ := h
    refine ⟨d, i, he, ?_⟩
    rw [if_pos ht]
    simp only [bind_ok, pure_ok]
    exact ⟨ds, hds, rfl⟩

/-- No index gets lost. -/
theorem checkIndices_length :
    ∀ {es es' : List Expr}, checkIndices r scope es = .ok es' → es'.length = es.length
  | [], _, h => by
    rw [checkIndices_nil_ok.mp h]
  | _ :: _, _, h => by
    obtain ⟨_, _, _, _, _, hes, rfl⟩ := checkIndices_cons_ok.mp h
    rw [List.length_cons, List.length_cons, checkIndices_length hes]

theorem checkArguments_nil_ok {callee : String} {index : Nat} {es' : List Expr} :
    checkArguments r scope callee index [] [] = .ok es' ↔ es' = [] := by
  simp only [checkArguments, pure_ok]
  exact eq_comm

/-- An argument passes if its parameter takes its type. -/
theorem checkArguments_cons_ok {callee : String} {index : Nat} {p : Parameter}
    {ps : List Parameter} {e : Expr} {es es' : List Expr} :
    checkArguments r scope callee index (p :: ps) (e :: es) = .ok es' ↔
      ∃ d i ds, checkExpr r scope false e = .ok (d, i) ∧ p.ty.accepts i.ty = true ∧
        checkArguments r scope callee (index + 1) ps es = .ok ds ∧ es' = d :: ds := by
  show (checkExpr r scope false e >>= _) = _ ↔ _
  simp only [bind_ok, Prod.exists]
  constructor
  · intro h
    obtain ⟨d, i, he, h⟩ := h
    split at h
    next ht =>
      simp only [bind_ok, pure_ok] at h
      obtain ⟨ds, hds, rfl⟩ := h
      exact ⟨d, i, ds, he, ht, hds, rfl⟩
    next => exact absurd h (by simp)
  · intro h
    obtain ⟨d, i, ds, he, ht, hds, rfl⟩ := h
    refine ⟨d, i, he, ?_⟩
    rw [if_pos ht]
    simp only [bind_ok, pure_ok]
    exact ⟨ds, hds, rfl⟩

/-! ## Initializers -/

/-- The item depth of an accepted list: past all dimensions for a flat list, else
one further in, where only the innermost list may leave elements out. -/
theorem itemDepth_ok {target : Ty} {depth extent inner : Nat} {items : List Initializer} :
    itemDepth target depth extent items = .ok inner ↔
      (depth = 0 ∧ items.length = extent ∧ items.all Initializer.isScalar = true ∧
        inner = target.rank) ∨
      (¬(depth = 0 ∧ items.length = extent ∧ items.all Initializer.isScalar = true) ∧
        (depth + 1 < target.rank → items.length = extent) ∧ items.length ≤ extent ∧
        inner = depth + 1) := by
  unfold itemDepth
  -- the three tests in the order of the code: flat, too few, too many
  by_cases hflat : depth = 0 ∧ items.length = extent ∧ items.all Initializer.isScalar = true
  · obtain ⟨hd, hc, ha⟩ := hflat
    simp only [hd, hc, ha, decide_true, Bool.and_self, if_true, true_and, not_true_eq_false,
      false_and, or_false, Except.ok.injEq]
    exact eq_comm
  · have hcond : ¬((decide (depth = 0) && decide (items.length = extent) &&
        items.all Initializer.isScalar) = true) := by
      simpa only [Bool.and_eq_true, decide_eq_true_eq, and_assoc] using hflat
    simp only [if_neg hcond]
    by_cases houter : depth + 1 < target.rank ∧ items.length ≠ extent
    · rw [if_pos (by simpa using houter)]
      simp only [reduceCtorEq, false_iff, not_or, not_and]
      exact ⟨fun hd hc ha => absurd ⟨hd, hc, ha⟩ hflat,
        fun _ h => absurd (h houter.1) houter.2⟩
    · rw [if_neg (by simpa using houter)]
      by_cases hmany : extent < items.length
      · rw [if_pos hmany]
        simp only [reduceCtorEq, false_iff, not_or, not_and]
        exact ⟨fun hd hc ha => absurd ⟨hd, hc, ha⟩ hflat, fun _ _ h => absurd hmany (by omega)⟩
      · rw [if_neg hmany]
        constructor
        · intro h
          refine .inr ⟨hflat, fun hlt => ?_, by omega, by simpa using h.symm⟩
          by_contra hne
          exact houter ⟨hlt, hne⟩
        · intro h
          rcases h with ⟨hd, hc, ha, _⟩ | ⟨_, _, _, rfl⟩
          · exact absurd ⟨hd, hc, ha⟩ hflat
          · rfl

variable {target : Ty} {depth : Nat} {x' : Initializer}

/-- A single value passes at the depth of an element, if it is a constant of the basic type. -/
theorem checkInitializer_scalar_ok {value : Expr} :
    checkInitializer r scope target depth (.scalar id value span) = .ok x' ↔
      ∃ value' i, depth = target.rank ∧ checkExpr r scope false value = .ok (value', i) ∧
        i.ty = .scalar target.basic ∧ i.isConstant = true ∧ x' = .scalar id value' span := by
  rw [checkInitializer]
  constructor
  · intro h
    split at h
    next => exact absurd h (by simp)
    next hd =>
      simp only [bind_ok, Prod.exists] at h
      obtain ⟨value', i, hv, h⟩ := h
      split at h
      next => exact absurd h (by simp)
      next ht =>
        split at h
        next => exact absurd h (by simp)
        next hc =>
          simp only [pure_ok] at h
          exact ⟨value', i, Decidable.not_not.mp hd, hv, Decidable.not_not.mp ht,
            by simpa using hc, h.symm⟩
  · intro h
    obtain ⟨value', i, rfl, hv, ht, hc, rfl⟩ := h
    rw [if_neg (by simp)]
    simp only [bind_ok, Prod.exists]
    exact ⟨value', i, hv, by simp [ht, hc, pure_ok]⟩

/-- A list passes if its dimension has room, at the depth that its items are counted at. -/
theorem checkInitializer_list_ok {items : List Initializer} :
    checkInitializer r scope target depth (.list id items span) = .ok x' ↔
      ∃ extent inner items', target.dims[depth]? = some extent ∧
        itemDepth target depth extent items = .ok inner ∧
        checkInitializers r scope target inner items = .ok items' ∧
        x' = .list id items' span := by
  rw [checkInitializer]
  constructor
  · intro h
    split at h
    next => exact absurd h (by simp)
    next extent hx =>
      simp only [bind_ok, locate_ok, pure_ok] at h
      obtain ⟨inner, hi, items', his, rfl⟩ := h
      exact ⟨extent, inner, items', hx, hi, his, rfl⟩
  · intro h
    obtain ⟨extent, inner, items', hx, hi, his, rfl⟩ := h
    simp only [hx, bind_ok, locate_ok, pure_ok]
    exact ⟨inner, hi, items', his, rfl⟩

theorem checkInitializers_nil_ok {xs' : List Initializer} :
    checkInitializers r scope target depth [] = .ok xs' ↔ xs' = [] := by
  simp only [checkInitializers, pure_ok]
  exact eq_comm

/-- The items of a list pass one after the other. -/
theorem checkInitializers_cons_ok {x : Initializer} {xs xs' : List Initializer} :
    checkInitializers r scope target depth (x :: xs) = .ok xs' ↔
      ∃ y ys, checkInitializer r scope target depth x = .ok y ∧
        checkInitializers r scope target depth xs = .ok ys ∧ xs' = y :: ys := by
  simp only [checkInitializers, bind_ok, pure_ok]
  constructor
  · intro h
    obtain ⟨y, hy, ys, hys, rfl⟩ := h
    exact ⟨y, ys, hy, hys, rfl⟩
  · intro h
    obtain ⟨y, ys, hy, hys, rfl⟩ := h
    exact ⟨y, hy, ys, hys, rfl⟩

end

/-! ## Declared types -/

/-- A dimension passes if it is a good extent. -/
theorem checkDimension_ok {id : NodeId} {dim : Dimension} {n : Nat} :
    checkDimension id dim = .ok n ↔ extent? dim = some n := by
  unfold checkDimension
  cases extent? dim <;> simp

/-- Dimensions pass if each of them is a good extent. -/
theorem checkDimensions_ok {id : NodeId} :
    ∀ {dims : List Dimension} {ns : List Nat},
      checkDimensions id dims = .ok ns ↔ List.Forall₂ (fun d n => extent? d = some n) dims ns
  | [], ns => by
    simp only [checkDimensions, pure_ok, List.forall₂_nil_left_iff]
    exact eq_comm
  | d :: ds, ns => by
    simp only [checkDimensions, bind_ok, pure_ok, checkDimension_ok, checkDimensions_ok,
      List.forall₂_cons_left_iff]
    constructor
    · intro h
      obtain ⟨n, hn, ns', hns, rfl⟩ := h
      exact ⟨n, ns', hn, hns, rfl⟩
    · intro h
      obtain ⟨n, ns', hn, hns, rfl⟩ := h
      exact ⟨n, hn, ns', hns, rfl⟩

/-- A declared type has the extents of its dimensions, after an open one if there is
one. -/
theorem typeOf_ok {basic : BasicType} {dims : List Dimension} {isOpen : Bool} {id : NodeId}
    {ty : Ty} :
    typeOf basic dims isOpen id = .ok ty ↔
      ∃ ns, List.Forall₂ (fun d n => extent? d = some n) dims ns ∧
        ty = ⟨basic, if isOpen then 0 :: ns else ns⟩ := by
  have hmap : typeOf basic dims isOpen id = .ok ty ↔
      declaredType basic dims isOpen id = .ok ty := by
    unfold typeOf
    cases declaredType basic dims isOpen id <;> simp [Except.mapError]
  simp only [hmap, declaredType, bind_ok, pure_ok, checkDimensions_ok]
  constructor
  · intro h
    obtain ⟨ns, hns, rfl⟩ := h
    exact ⟨ns, hns, rfl⟩
  · intro h
    obtain ⟨ns, hns, rfl⟩ := h
    exact ⟨ns, hns, rfl⟩

end CactLang.Typing
