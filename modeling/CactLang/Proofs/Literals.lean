import CactLang.Proofs.Rejected.Expression

/-!
# The literals of an expression

A number is judged by its text, the form it is written in, and one thing about its place:
whether it is the operand of a minus sign. Everything else around a literal leaves it alone.

> `Expr.literals`: every number of an expression, with whether a minus sign is applied
> directly to it.

An expression passes only if all of them have a value (`checkExpr_valid`), and if it is
rejected for a number, one of them has none (`checkExpr_invalid`).
-/

namespace CactLang

/-- A number in an expression. -/
structure LiteralUse where
  id : NodeId
  text : String
  kind : NumberKind
  span : Span
  /-- It is the operand of a minus sign. -/
  negated : Bool

/-- Whether the number has a value in its type. -/
def LiteralUse.isValid (u : LiteralUse) : Bool :=
  Typing.isLiteral u.kind u.negated u.text.toList

/-- The failure that a number without a value is the reason for. -/
def LiteralUse.failure (u : LiteralUse) : Diagnostic :=
  .ofNode (.badNumber u.text) u.id u.span

mutual

/-- The numbers of an expression; `negated` says that it is the operand of a minus sign. Of
all operators only the minus sign in front of an operand matters, and neither parentheses nor
another operator hand it on. -/
def Expr.literals (negated : Bool) : Expr → List LiteralUse
  | ⟨id, .number text kind, span, _⟩ => [⟨id, text, kind, span, negated⟩]
  | ⟨_, .bool _, _, _⟩ => []
  | ⟨_, .lvalue l, _, _⟩ => l.literals
  | ⟨_, .paren inner, _, _⟩ => inner.literals false
  | ⟨_, .unary op operand, _, _⟩ => operand.literals (op = .neg)
  | ⟨_, .binary _ left right, _, _⟩ => left.literals false ++ right.literals false
  | ⟨_, .call _ arguments _, _, _⟩ => Expr.allLiterals arguments

/-- The numbers in the indices of a variable. -/
def LValue.literals : LValue → List LiteralUse
  | ⟨_, _, indices, _, _, _⟩ => Expr.allLiterals indices

/-- The numbers of expressions that stand by themselves. -/
def Expr.allLiterals : List Expr → List LiteralUse
  | [] => []
  | e :: es => e.literals false ++ Expr.allLiterals es

end

namespace Typing

variable {r : Registry} {scope : ScopeId}

/-! ## Expressions that pass -/

mutual

/-- In an expression that passes, every number has a value. -/
theorem checkExpr_valid :
    ∀ {negated : Bool} {e e' : Expr} {i : ExprInfo}, checkExpr r scope negated e = .ok (e', i) →
      ∀ u ∈ e.literals negated, u.isValid = true
  | _, ⟨_, .number _ _, _, _⟩, _, _, h => by
    rw [Expr.literals]
    exact List.forall_mem_singleton.mpr (checkExpr_number_ok.mp h).1
  | _, ⟨_, .bool _, _, _⟩, _, _, _ => by
    rw [Expr.literals]
    exact List.forall_mem_nil _
  | _, ⟨_, .lvalue _, _, _⟩, _, _, h => by
    obtain ⟨_, _, hl, _⟩ := checkExpr_lvalue_ok.mp h
    rw [Expr.literals]
    exact checkLValue_valid hl
  | _, ⟨_, .paren _, _, _⟩, _, _, h => by
    obtain ⟨_, _, hinner, _⟩ := checkExpr_paren_ok.mp h
    rw [Expr.literals]
    exact checkExpr_valid hinner
  | _, ⟨_, .unary _ _, _, _⟩, _, _, h => by
    obtain ⟨_, _, hoperand, _⟩ := checkExpr_unary_ok.mp h
    rw [Expr.literals]
    exact checkExpr_valid hoperand
  | _, ⟨_, .binary _ _ _, _, _⟩, _, _, h => by
    obtain ⟨_, _, _, _, hleft, hright, _⟩ := checkExpr_binary_ok.mp h
    rw [Expr.literals]
    exact List.forall_mem_append.mpr ⟨checkExpr_valid hleft, checkExpr_valid hright⟩
  | _, ⟨_, .call _ _ _, _, _⟩, _, _, h => by
    obtain ⟨_, _, _, _, _, hlength, hargs, _⟩ := checkExpr_call_ok.mp h
    rw [Expr.literals]
    exact checkArguments_valid hlength hargs
termination_by structural _ e => e

theorem checkLValue_valid :
    ∀ {l l' : LValue} {ty : Ty}, checkLValue r scope l = .ok (l', ty) →
      ∀ u ∈ l.literals, u.isValid = true
  | ⟨_, _, _, _, _, _⟩, _, _, h => by
    obtain ⟨_, _, _, _, _, _, hindices, _⟩ := checkLValue_ok.mp h
    rw [LValue.literals]
    exact checkIndices_valid hindices
termination_by structural l => l

theorem checkIndices_valid :
    ∀ {es es' : List Expr}, checkIndices r scope es = .ok es' →
      ∀ u ∈ Expr.allLiterals es, u.isValid = true
  | [], _, _ => by
    rw [Expr.allLiterals]
    exact List.forall_mem_nil _
  | _ :: _, _, h => by
    obtain ⟨_, _, _, he, _, hes, _⟩ := checkIndices_cons_ok.mp h
    rw [Expr.allLiterals]
    exact List.forall_mem_append.mpr ⟨checkExpr_valid he, checkIndices_valid hes⟩
termination_by structural es => es

theorem checkArguments_valid :
    ∀ {es es' : List Expr} {callee : String} {index : Nat} {ps : List Parameter},
      es.length = ps.length → checkArguments r scope callee index ps es = .ok es' →
      ∀ u ∈ Expr.allLiterals es, u.isValid = true
  | [], _, _, _, _, _, _ => by
    rw [Expr.allLiterals]
    exact List.forall_mem_nil _
  | _ :: _, _, _, _, _ :: _, hlength, h => by
    obtain ⟨_, _, _, he, _, hes, _⟩ := checkArguments_cons_ok.mp h
    rw [Expr.allLiterals]
    exact List.forall_mem_append.mpr
      ⟨checkExpr_valid he, checkArguments_valid (Nat.succ.inj hlength) hes⟩
termination_by structural es => es

end

/-! ## Expressions that are rejected for a number -/

/-- If the failure is about a number, then one of the numbers has no value and is the reason
for it. -/
def BlamesLiteral (failure : Failure) (us : List LiteralUse) : Prop :=
  ∀ d text, failure = .diagnostic d → d.cause = .badNumber text →
    ∃ u ∈ us, u.isValid = false ∧ d = u.failure

namespace BlamesLiteral

variable {failure : Failure} {us vs : List LiteralUse}

theorem left (h : BlamesLiteral failure us) : BlamesLiteral failure (us ++ vs) := by
  intro d text hd hcause
  obtain ⟨u, hu, hblamed⟩ := h d text hd hcause
  exact ⟨u, List.mem_append_left vs hu, hblamed⟩

theorem right (h : BlamesLiteral failure vs) : BlamesLiteral failure (us ++ vs) := by
  intro d text hd hcause
  obtain ⟨u, hu, hblamed⟩ := h d text hd hcause
  exact ⟨u, List.mem_append_right us hu, hblamed⟩

/-- A failure about something else blames no number. -/
theorem other {cause : Cause} {id : NodeId} {span : Span}
    (hcause : ∀ text, cause ≠ .badNumber text) :
    BlamesLiteral (.diagnostic (.ofNode cause id span)) us := by
  intro d text hd htext
  rw [← Failure.diagnostic.inj hd] at htext
  exact absurd htext (hcause text)

theorem dangling : BlamesLiteral .dangling us := by
  intro d text hd
  cases hd

end BlamesLiteral

mutual

theorem checkExpr_invalid {failure : Failure} :
    ∀ {e : Expr} {negated : Bool}, checkExpr r scope negated e = .error failure →
      BlamesLiteral failure (e.literals negated)
  | ⟨id, .number text kind, span, info⟩, negated, h => by
    rw [checkExpr] at h
    rw [Expr.literals]
    split at h
    next => simp at h
    next hl =>
      intro d _ hd _
      obtain rfl := reject_error.mp h
      obtain rfl := Failure.diagnostic.inj hd
      exact ⟨_, List.mem_singleton_self _, eq_false_of_ne_true hl, rfl⟩
  | ⟨id, .bool value, span, info⟩, _, h => by
    rw [checkExpr] at h
    simp at h
  | ⟨id, .lvalue l, span, info⟩, _, h => by
    rw [checkExpr] at h
    rw [Expr.literals]
    rcases bind_error.mp h with hl | ⟨⟨l', ty⟩, _, h⟩
    · exact checkLValue_invalid hl
    · simp at h
  | ⟨id, .paren inner, span, info⟩, _, h => by
    rw [checkExpr] at h
    rw [Expr.literals]
    rcases bind_error.mp h with hinner | ⟨⟨inner', i⟩, _, h⟩
    · exact checkExpr_invalid hinner
    rcases bind_error.mp h with hop | ⟨_, _, h⟩
    · obtain ⟨cause, hcause, rfl⟩ := locate_error.mp hop
      obtain ⟨_, rfl⟩ := checkOperand_error hcause
      exact .other (by simp)
    · simp at h
  | ⟨id, .unary op operand, span, info⟩, _, h => by
    rw [checkExpr] at h
    rw [Expr.literals]
    rcases bind_error.mp h with hoperand | ⟨⟨operand', i⟩, _, h⟩
    · exact checkExpr_invalid hoperand
    rcases bind_error.mp h with hop | ⟨_, _, h⟩
    · obtain ⟨cause, hcause, rfl⟩ := locate_error.mp hop
      obtain ⟨_, rfl⟩ := checkOperand_error hcause
      exact .other (by simp)
    · simp at h
  | ⟨id, .binary op left right, span, info⟩, _, h => by
    rw [checkExpr] at h
    rw [Expr.literals]
    rcases bind_error.mp h with hleft | ⟨⟨left', i⟩, _, h⟩
    · exact (checkExpr_invalid hleft).left
    rcases bind_error.mp h with hright | ⟨⟨right', j⟩, _, h⟩
    · exact (checkExpr_invalid hright).right
    rcases bind_error.mp h with hop | ⟨_, _, h⟩
    · obtain ⟨cause, hcause, rfl⟩ := locate_error.mp hop
      obtain ⟨_, rfl⟩ := checkOperands_error hcause
      exact .other (by simp)
    · simp at h
  | ⟨id, .call callee arguments function, span, info⟩, _, h => by
    rw [checkExpr] at h
    rw [Expr.literals]
    rcases bind_error.mp h with hcallee | ⟨f, _, h⟩
    · rcases locateRefusal_error.mp hcallee with ⟨cause, hcause, rfl⟩ | ⟨_, rfl⟩
      · obtain rfl := Registry.Refusal.cause.inj (lookupFunction_error hcause)
        exact .other (by simp)
      · exact .dangling
    rcases bind_error.mp h with hentry | ⟨signature, _, h⟩
    · rw [(entry_error.mp hentry).2]
      exact .dangling
    simp only at h
    split at h
    next =>
      rw [reject_error.mp h]
      exact .other (by simp)
    next =>
      split at h
      next =>
        rw [reject_error.mp h]
        exact .other (by simp)
      next =>
        rcases bind_error.mp h with hes | ⟨es', _, h⟩
        · exact checkArguments_invalid hes
        · simp at h
termination_by structural e => e

theorem checkLValue_invalid {failure : Failure} :
    ∀ {l : LValue}, checkLValue r scope l = .error failure → BlamesLiteral failure l.literals
  | ⟨id, name, indices, span, symbol, assignable⟩, h => by
    rw [checkLValue] at h
    rw [LValue.literals]
    -- the name and the number of indices are checked before the indices
    rcases bind_error.mp h with hname | ⟨v, _, h⟩
    · rcases locateRefusal_error.mp hname with ⟨cause, hcause, rfl⟩ | ⟨_, rfl⟩
      · obtain hname | hname := lookupWithin_error _ _ hcause
        · obtain rfl := Registry.Refusal.cause.inj hname
          exact .other (by simp)
        · cases hname
      · exact .dangling
    rcases bind_error.mp h with hentry | ⟨y, _, h⟩
    · rw [(entry_error.mp hentry).2]
      exact .dangling
    split at h
    next =>
      rw [reject_error.mp h]
      exact .other (by simp)
    next =>
      rcases bind_error.mp h with hes | ⟨es', _, h⟩
      · exact checkIndices_invalid hes
      · simp at h
termination_by structural l => l

theorem checkIndices_invalid {failure : Failure} :
    ∀ {es : List Expr}, checkIndices r scope es = .error failure →
      BlamesLiteral failure (Expr.allLiterals es)
  | [], h => by
    rw [checkIndices] at h
    simp at h
  | e :: es, h => by
    rw [checkIndices] at h
    rw [Expr.allLiterals]
    rcases bind_error.mp h with he | ⟨⟨e', i⟩, _, h⟩
    · exact (checkExpr_invalid he).left
    simp only at h
    split at h
    next =>
      rcases bind_error.mp h with hes | ⟨es', _, h⟩
      · exact (checkIndices_invalid hes).right
      · simp at h
    next =>
      rw [reject_error.mp h]
      exact .other (by simp)
termination_by structural es => es

theorem checkArguments_invalid {failure : Failure} {callee : String} :
    ∀ {es : List Expr} {index : Nat} {ps : List Parameter},
      checkArguments r scope callee index ps es = .error failure →
      BlamesLiteral failure (Expr.allLiterals es)
  | [], _, ps, h => by
    cases ps <;> simp [checkArguments] at h
  | _ :: _, _, [], h => by
    simp [checkArguments] at h
  | e :: es, index, p :: ps, h => by
    rw [checkArguments] at h
    rw [Expr.allLiterals]
    rcases bind_error.mp h with he | ⟨⟨e', i⟩, _, h⟩
    · exact (checkExpr_invalid he).left
    simp only at h
    split at h
    next =>
      rcases bind_error.mp h with hes | ⟨es', _, h⟩
      · exact (checkArguments_invalid hes).right
      · simp at h
    next =>
      rw [reject_error.mp h]
      exact .other (by simp)
termination_by structural es => es

end

end Typing

end CactLang
