import CactLang.Proofs.Accepted.Expression
import CactLang.Proofs.Nodes
import CactLang.Typing.Context

/-!
# What a rejected expression is blamed for

A check that fails names a node and a cause. This module says once what the causes
mean: which node is blamed, and what was wrong with it in the registry and the context
of that moment.

> `Blame r c n cause`: in the registry `r` and the context `c`, the node `n` is at
> fault, and `cause` says how.

The converse of a claim about accepted trees is read off here. If checking fails for
some cause, the rules for that cause say what the program had at the node.
-/

namespace CactLang.Typing

/-! ## Results that fail -/

/-- Two parts fail as the first does, or as the second does after it. -/
theorem bind_error {ε α β : Type} {x : Except ε α} {f : α → Except ε β} {e : ε} :
    x >>= f = .error e ↔ x = .error e ∨ ∃ a, x = .ok a ∧ f a = .error e := by
  cases x <;> simp [bind, Except.bind]

@[simp] theorem pure_ne_error {ε α : Type} {a : α} {e : ε} :
    (pure a : Except ε α) = .error e ↔ False := by
  simp [pure, Except.pure]

theorem reject_error {α : Type} {cause : Cause} {id : NodeId} {span : Span} {failure : Failure} :
    (reject cause id span : Except Failure α) = .error failure ↔
      failure = .diagnostic (.ofNode cause id span) := by
  rw [reject, Except.error.injEq]
  exact eq_comm

/-- A cause is placed at the node. -/
theorem locate_error {α : Type} {id : NodeId} {span : Span} {x : Except Cause α}
    {failure : Failure} :
    locate id span x = .error failure ↔
      ∃ cause, x = .error cause ∧ failure = .diagnostic (.ofNode cause id span) := by
  cases x <;> simp [locate, reject_error]

/-- A refusal with a cause is placed at the node. One without is not about the program. -/
theorem locateRefusal_error {α : Type} {id : NodeId} {span : Span}
    {x : Except Registry.Refusal α} {failure : Failure} :
    locateRefusal id span x = .error failure ↔
      (∃ cause, x = .error (.cause cause) ∧ failure = .diagnostic (.ofNode cause id span)) ∨
        x = .error .dangling ∧ failure = .dangling := by
  rcases x with (_ | _) | _
  · simp [locateRefusal, reject_error]
  · simp [locateRefusal, eq_comm]
  · simp [locateRefusal]

theorem entry_error {α : Type} {x : Option α} {failure : Failure} :
    entry x = .error failure ↔ x = none ∧ failure = .dangling := by
  cases x <;> simp [entry, eq_comm]

/-! ## Causes -/

/-- An operand is refused for its type. -/
theorem checkOperand_error {op : Operator} {t : Ty} {cause : Cause}
    (h : op.checkOperand t = .error cause) : ∃ operand, cause = .badOperand op.text operand := by
  unfold Operator.checkOperand at h
  split at h
  next => simp at h
  next => exact ⟨_, (Except.error.inj h).symm⟩

/-- A pair of operands is refused for a type. -/
theorem checkOperands_error {op : Operator} {left right : Ty} {cause : Cause}
    (h : op.checkOperands left right = .error cause) :
    ∃ operand, cause = .badOperand op.text operand := by
  unfold Operator.checkOperands at h
  split at h
  next => simp at h
  next => exact ⟨_, (Except.error.inj h).symm⟩

/-- A name that is not found is undeclared, unless a scope on the way has no entry. -/
theorem lookupWithin_error {r : Registry} {name : String} {refusal : Registry.Refusal}
    (steps : Nat) :
    ∀ scope, r.lookupWithin name steps scope = .error refusal →
      refusal = .cause (.undeclaredVariable name) ∨ refusal = .dangling := by
  -- the scopes are tried outwards: a handle that is not there, a binding, or the end
  induction steps with
  | zero =>
    intro scope h
    rw [Registry.lookupWithin] at h
    split at h
    next => exact .inr (Except.error.inj h).symm
    next =>
      split at h
      next => simp at h
      next hsteps => cases hsteps
      next => exact .inl (Except.error.inj h).symm
  | succ steps ih =>
    intro scope h
    rw [Registry.lookupWithin] at h
    split at h
    next => exact .inr (Except.error.inj h).symm
    next =>
      split at h
      next => simp at h
      next hsteps =>
        obtain rfl := Nat.succ.inj hsteps
        exact ih _ h
      next => exact .inl (Except.error.inj h).symm

/-- A function that is not found is undeclared. -/
theorem lookupFunction_error {r : Registry} {name : String} {refusal : Registry.Refusal}
    (h : r.lookupFunction name = .error refusal) :
    refusal = .cause (.undeclaredFunction name) := by
  unfold Registry.lookupFunction at h
  split at h
  next => simp at h
  next => exact (Except.error.inj h).symm

/-! ## Blame -/

/-- The ways in which a node is at fault. -/
inductive Blame (r : Registry) (c : Context) : Node → Cause → Prop where
  /-- A literal has no value in its type. -/
  | number {e : Expr} {text : String} {kind : NumberKind} {negated : Bool} :
      e.kind = .number text kind → isLiteral kind negated text.toList = false →
      Blame r c (.expr e) (.badNumber text)
  /-- A name stands for no variable. -/
  | name {l : LValue} {cause : Cause} : r.lookup c.scope l.name = .error (.cause cause) →
      Blame r c (.lvalue l) cause
  /-- There are more indices than dimensions. -/
  | overIndexed {l : LValue} {v : SymbolId} {y : Symbol} : r.lookup c.scope l.name = .ok v →
      r.symbol? v = some y → y.ty.rank < l.indices.length →
      Blame r c (.lvalue l) (.overIndexed l.name y.ty.rank l.indices.length)
  /-- An index is no number. -/
  | index {e : Expr} {ty : Ty} : ty.isIndex = false → Blame r c (.expr e) (.badIndex ty.text)
  /-- An operator does not apply to its operand. -/
  | operand {e : Expr} {op : Operator} {ty : Ty} {cause : Cause} :
      op.checkOperand ty = .error cause → Blame r c (.expr e) cause
  /-- An operator does not apply to its operands. -/
  | operands {e : Expr} {op : Operator} {left right : Ty} {cause : Cause} :
      op.checkOperands left right = .error cause → Blame r c (.expr e) cause
  /-- The function of a call is not declared. -/
  | callee {e : Expr} {name : String} {cause : Cause} :
      r.lookupFunction name = .error (.cause cause) → Blame r c (.expr e) cause
  /-- An argument is one too many. -/
  | tooMany {e : Expr} {name : String} {expected received : Nat} : expected < received →
      Blame r c (.expr e) (.tooManyArguments name expected received)
  /-- A call lacks arguments. -/
  | tooFew {e : Expr} {name : String} {expected received : Nat} : received < expected →
      Blame r c (.expr e) (.tooFewArguments name expected received)
  /-- An argument is not what the parameter takes. -/
  | argument {e : Expr} {name : String} {index : Nat} {expected received : Ty} :
      expected.accepts received = false →
      Blame r c (.expr e) (.argumentMismatch name index expected.text received.text)
  /-- An initializer does not have the shape of the array. -/
  | shape {x : Initializer} {depth : Nat} {reason : String} :
      Blame r c (.init x) (.shapeMismatch depth reason)
  /-- A value has another type than its place asks for. -/
  | mismatch {e : Expr} {expected received : Ty} : received ≠ expected →
      Blame r c (.expr e) (.typeMismatch expected.text received.text)
  /-- An element of an initializer is not constant. -/
  | notConstant {e : Expr} : Blame r c (.expr e) .notConstant
  /-- The name of a declaration is taken. -/
  | duplicate {n : Node} {name : String} : n.name? = some name →
      Blame r c n (.duplicate name)
  /-- A constant is assigned to. -/
  | notAssignable {l : LValue} : Blame r c (.lvalue l) (.notAssignable l.name)
  /-- A jump has no loop around it. -/
  | leave {t : Stmt} {target : Option NodeId} : t.kind = .leave target → c.loops = [] →
      Blame r c (.stmt t) (.outsideLoop "break")
  | next {t : Stmt} {target : Option NodeId} : t.kind = .next target → c.loops = [] →
      Blame r c (.stmt t) (.outsideLoop "continue")
  /-- A `return` stands outside of every function. -/
  | outside {t : Stmt} : c.function = none →
      Blame r c (.stmt t) (.unexpectedHint "return" "return outside of a function")
  /-- A `return` lacks the value that the function gives. -/
  | returnNothing {t : Stmt} {f : FunctionId} {expected : Ty} : c.function = some f →
      expected.basic ≠ .void → Blame r c (.stmt t) (.returnMismatch expected.text "void")
  /-- A `return` has another value than the function gives. -/
  | returnValue {e : Expr} {f : FunctionId} {expected received : Ty} : c.function = some f →
      ¬(expected.basic ≠ .void ∧ received = expected) →
      Blame r c (.expr e) (.returnMismatch expected.text received.text)

/-- The failures a node can be the reason for. All but those about a dimension point
at the node. -/
inductive Faults (r : Registry) (c : Context) : Node → Failure → Prop where
  | blame {n : Node} {cause : Cause} : Blame r c n cause →
      Faults r c n (.diagnostic (.ofNode cause n.id n.span))
  | dimension {n : Node} {dim : Dimension} : dim ∈ n.dims → extent? dim = none →
      Faults r c n (.diagnostic (.ofNode (.badDimension dim.text) n.id dim.span))
  | dangling {n : Node} : Faults r c n .dangling

/-- One of the nodes is the reason for a failure. -/
def FaultIn (r : Registry) (c : Context) (ns : List Node) (failure : Failure) : Prop :=
  ∃ n ∈ ns, Faults r c n failure

section

variable {r : Registry} {c : Context} {failure : Failure} {ns ms : List Node}

namespace FaultIn

theorem left (h : FaultIn r c ns failure) : FaultIn r c (ns ++ ms) failure := by
  obtain ⟨n, hn, hf⟩ := h
  exact ⟨n, List.mem_append_left ms hn, hf⟩

theorem right (h : FaultIn r c ms failure) : FaultIn r c (ns ++ ms) failure := by
  obtain ⟨n, hn, hf⟩ := h
  exact ⟨n, List.mem_append_right ns hn, hf⟩

/-- The node itself comes after its parts. -/
theorem here {n : Node} (h : Faults r c n failure) : FaultIn r c (ns ++ [n]) failure :=
  ⟨n, List.mem_append_right ns List.mem_cons_self, h⟩

end FaultIn

/-! ## Expressions -/

mutual

/-- An expression fails for a fault of one of its nodes, by recursion on the tree. -/
theorem checkExpr_faults :
    ∀ {e : Expr} {negated : Bool}, checkExpr r c.scope negated e = .error failure →
      FaultIn r c e.nodes failure
  | ⟨id, .number text kind, span, info⟩, negated, h => by
    rw [checkExpr] at h
    split at h
    next => simp at h
    next hl =>
      rw [reject_error.mp h, Expr.nodes]
      exact .here (.blame (.number rfl (by simpa using hl)))
  | ⟨id, .bool value, span, info⟩, _, h => by
    rw [checkExpr] at h
    simp at h
  | ⟨id, .lvalue l, span, info⟩, _, h => by
    rw [checkExpr] at h
    rw [Expr.nodes, ExprKind.nodes]
    rcases bind_error.mp h with hl | ⟨⟨l', ty⟩, _, h⟩
    · exact (checkLValue_faults hl).left
    · simp at h
  | ⟨id, .paren inner, span, info⟩, _, h => by
    rw [checkExpr] at h
    rw [Expr.nodes, ExprKind.nodes]
    rcases bind_error.mp h with hinner | ⟨⟨inner', i⟩, _, h⟩
    · exact (checkExpr_faults hinner).left
    rcases bind_error.mp h with hop | ⟨_, _, h⟩
    · obtain ⟨cause, hcause, rfl⟩ := locate_error.mp hop
      exact .here (.blame (.operand hcause))
    · simp at h
  | ⟨id, .unary op operand, span, info⟩, _, h => by
    rw [checkExpr] at h
    rw [Expr.nodes, ExprKind.nodes]
    rcases bind_error.mp h with hoperand | ⟨⟨operand', i⟩, _, h⟩
    · exact (checkExpr_faults hoperand).left
    rcases bind_error.mp h with hop | ⟨_, _, h⟩
    · obtain ⟨cause, hcause, rfl⟩ := locate_error.mp hop
      exact .here (.blame (.operand hcause))
    · simp at h
  | ⟨id, .binary op left right, span, info⟩, _, h => by
    rw [checkExpr] at h
    rw [Expr.nodes, ExprKind.nodes]
    rcases bind_error.mp h with hleft | ⟨⟨left', i⟩, _, h⟩
    · exact (checkExpr_faults hleft).left.left
    rcases bind_error.mp h with hright | ⟨⟨right', j⟩, _, h⟩
    · exact (checkExpr_faults hright).right.left
    rcases bind_error.mp h with hop | ⟨_, _, h⟩
    · obtain ⟨cause, hcause, rfl⟩ := locate_error.mp hop
      exact .here (.blame (.operands hcause))
    · simp at h
  | ⟨id, .call callee arguments function, span, info⟩, _, h => by
    rw [checkExpr] at h
    rw [Expr.nodes, ExprKind.nodes]
    rcases bind_error.mp h with hcallee | ⟨f, _, h⟩
    · rcases locateRefusal_error.mp hcallee with ⟨cause, hcause, rfl⟩ | ⟨_, rfl⟩
      · exact .here (.blame (.callee hcause))
      · exact .here .dangling
    rcases bind_error.mp h with hentry | ⟨signature, _, h⟩
    · rw [(entry_error.mp hentry).2]
      exact .here .dangling
    simp only at h
    split at h
    next extra rest hdrop =>
      -- the first argument that has no parameter is blamed
      have hlength : signature.parameters.length < arguments.length := by
        rw [← Nat.not_le, ← List.drop_eq_nil_iff, hdrop]
        simp
      have hextra : extra ∈ arguments :=
        List.mem_of_mem_drop (by rw [hdrop]; exact List.mem_cons_self)
      rw [reject_error.mp h]
      exact FaultIn.left ⟨_, Expr.mem_allNodes hextra, .blame (.tooMany hlength)⟩
    next =>
      split at h
      next hfew =>
        rw [reject_error.mp h]
        exact .here (.blame (.tooFew hfew))
      next =>
        rcases bind_error.mp h with hes | ⟨es', _, h⟩
        · exact (checkArguments_faults hes).left
        · simp at h
termination_by structural e => e

theorem checkLValue_faults :
    ∀ {l : LValue}, checkLValue r c.scope l = .error failure → FaultIn r c l.nodes failure
  | ⟨id, name, indices, span, symbol, assignable⟩, h => by
    rw [checkLValue] at h
    rw [LValue.nodes]
    rcases bind_error.mp h with hname | ⟨v, hv, h⟩
    · rcases locateRefusal_error.mp hname with ⟨cause, hcause, rfl⟩ | ⟨_, rfl⟩
      · exact .here (.blame (.name hcause))
      · exact .here .dangling
    rcases bind_error.mp h with hentry | ⟨y, hy, h⟩
    · rw [(entry_error.mp hentry).2]
      exact .here .dangling
    split at h
    next hrank =>
      rw [reject_error.mp h]
      exact .here (.blame (.overIndexed (locateRefusal_ok.mp hv) (entry_ok.mp hy) hrank))
    next =>
      rcases bind_error.mp h with hes | ⟨es', _, h⟩
      · exact (checkIndices_faults hes).left
      · simp at h
termination_by structural l => l

theorem checkIndices_faults :
    ∀ {es : List Expr}, checkIndices r c.scope es = .error failure →
      FaultIn r c (Expr.allNodes es) failure
  | [], h => by
    rw [checkIndices] at h
    simp at h
  | e :: es, h => by
    rw [checkIndices] at h
    rw [Expr.allNodes]
    rcases bind_error.mp h with he | ⟨⟨e', i⟩, _, h⟩
    · exact (checkExpr_faults he).left
    simp only at h
    split at h
    next =>
      rcases bind_error.mp h with hes | ⟨es', _, h⟩
      · exact (checkIndices_faults hes).right
      · simp at h
    next hindex =>
      rw [reject_error.mp h]
      exact FaultIn.left ⟨_, Expr.mem_nodes e, .blame (.index (by simpa using hindex))⟩
termination_by structural es => es

/-- Arguments fail for one that its parameter does not take, or that is itself at fault. -/
theorem checkArguments_faults {callee : String} :
    ∀ {es : List Expr} {index : Nat} {ps : List Parameter},
      checkArguments r c.scope callee index ps es = .error failure →
      FaultIn r c (Expr.allNodes es) failure
  | [], _, ps, h => by
    cases ps <;> simp [checkArguments] at h
  | _ :: _, _, [], h => by
    simp [checkArguments] at h
  | e :: es, index, p :: ps, h => by
    rw [checkArguments] at h
    rw [Expr.allNodes]
    rcases bind_error.mp h with he | ⟨⟨e', i⟩, _, h⟩
    · exact (checkExpr_faults he).left
    simp only at h
    split at h
    next =>
      rcases bind_error.mp h with hes | ⟨es', _, h⟩
      · exact (checkArguments_faults hes).right
      · simp at h
    next haccepts =>
      rw [reject_error.mp h]
      exact FaultIn.left ⟨_, Expr.mem_nodes e, .blame (.argument (by simpa using haccepts))⟩
termination_by structural es => es

end

/-! ## Initializers and dimensions -/

/-- Whatever is wrong with the items of a list is its shape. -/
theorem itemDepth_error {target : Ty} {depth extent : Nat} {items : List Initializer}
    {cause : Cause} (h : itemDepth target depth extent items = .error cause) :
    ∃ reason, cause = .shapeMismatch depth reason := by
  unfold itemDepth at h
  simp only at h
  split at h
  next => simp at h
  next =>
    split at h
    next => exact ⟨_, (Except.error.inj h).symm⟩
    next =>
      split at h
      next => exact ⟨_, (Except.error.inj h).symm⟩
      next => simp at h

mutual

/-- Initial values fail for a fault of one of their nodes, by recursion on the tree. -/
theorem checkInitializer_faults {target : Ty} :
    ∀ {x : Initializer} {depth : Nat},
      checkInitializer r c.scope target depth x = .error failure → FaultIn r c x.nodes failure
  | .scalar id value span, depth, h => by
    rw [checkInitializer] at h
    rw [Initializer.nodes]
    split at h
    next =>
      rw [reject_error.mp h]
      exact .here (.blame .shape)
    next =>
      rcases bind_error.mp h with hvalue | ⟨⟨value', i⟩, _, h⟩
      · exact (checkExpr_faults hvalue).left
      simp only at h
      split at h
      next hty =>
        rw [reject_error.mp h]
        exact FaultIn.left ⟨_, Expr.mem_nodes value, .blame (.mismatch hty)⟩
      next =>
        split at h
        next =>
          rw [reject_error.mp h]
          exact FaultIn.left ⟨_, Expr.mem_nodes value, .blame .notConstant⟩
        next => simp at h
  | .list id items span, depth, h => by
    rw [checkInitializer] at h
    rw [Initializer.nodes]
    split at h
    next =>
      rw [reject_error.mp h]
      exact .here (.blame .shape)
    next extent hextent =>
      -- the number of items is refused at the list, all else inside of an item
      rcases bind_error.mp h with hinner | ⟨inner, _, h⟩
      · obtain ⟨cause, hcause, rfl⟩ := locate_error.mp hinner
        obtain ⟨reason, rfl⟩ := itemDepth_error hcause
        exact .here (.blame .shape)
      rcases bind_error.mp h with hitems | ⟨items', _, h⟩
      · exact (checkInitializers_faults hitems).left
      · simp at h
termination_by structural x => x

theorem checkInitializers_faults {target : Ty} :
    ∀ {xs : List Initializer} {depth : Nat},
      checkInitializers r c.scope target depth xs = .error failure →
      FaultIn r c (Initializer.allNodes xs) failure
  | [], _, h => by
    rw [checkInitializers] at h
    simp at h
  | x :: xs, depth, h => by
    rw [checkInitializers] at h
    rw [Initializer.allNodes]
    rcases bind_error.mp h with hx | ⟨x', _, h⟩
    · exact (checkInitializer_faults hx).left
    rcases bind_error.mp h with hxs | ⟨xs', _, h⟩
    · exact (checkInitializers_faults hxs).right
    · simp at h
termination_by structural xs => xs

end

/-- A dimension is refused for its text. -/
theorem checkDimension_error {id : NodeId} {dim : Dimension} {d : Diagnostic} :
    checkDimension id dim = .error d ↔
      extent? dim = none ∧ d = .ofNode (.badDimension dim.text) id dim.span := by
  unfold checkDimension
  cases extent? dim <;> simp [eq_comm]

/-- Dimensions fail at the first of them that has no extent. -/
theorem checkDimensions_error {id : NodeId} {d : Diagnostic} :
    ∀ {dims : List Dimension}, checkDimensions id dims = .error d ↔
      ∃ before dim after, dims = before ++ dim :: after ∧
        (∀ b ∈ before, ∃ n, extent? b = some n) ∧ extent? dim = none ∧
        d = .ofNode (.badDimension dim.text) id dim.span
  | [] => by
    simp [checkDimensions]
  | dim :: dims => by
    simp only [checkDimensions, bind_error, checkDimension_error, checkDimensions_error,
      checkDimension_ok, pure_ne_error, and_false, exists_false, or_false]
    constructor
    · rintro (hbad | ⟨n, hn, before, bad, after, rfl, hbefore, hbad⟩)
      · exact ⟨[], dim, dims, rfl, List.forall_mem_nil _, hbad⟩
      · exact ⟨dim :: before, bad, after, rfl, List.forall_mem_cons.mpr ⟨⟨n, hn⟩, hbefore⟩, hbad⟩
    · rintro ⟨before, bad, after, hsplit, hbefore, hbad⟩
      cases before with
      | nil =>
        obtain ⟨rfl, _⟩ := List.cons.inj hsplit
        exact .inl hbad
      | cons b before =>
        obtain ⟨rfl, rfl⟩ := List.cons.inj hsplit
        obtain ⟨⟨n, hn⟩, hbefore⟩ := List.forall_mem_cons.mp hbefore
        exact .inr ⟨n, hn, before, bad, after, rfl, hbefore, hbad⟩

/-- A declared type fails at a dimension of the node. -/
theorem typeOf_faults {n : Node} {basic : BasicType} {isOpen : Bool}
    (h : typeOf basic n.dims isOpen n.id = .error failure) : Faults r c n failure := by
  unfold typeOf declaredType at h
  cases hd : checkDimensions n.id n.dims with
  | ok ns =>
    rw [hd] at h
    simp [bind, Except.bind, Except.mapError, pure, Except.pure] at h
  | error d =>
    rw [hd] at h
    obtain ⟨before, dim, after, hdims, _, hnone, rfl⟩ := checkDimensions_error.mp hd
    rw [← Except.error.inj h]
    exact .dimension (hdims ▸ List.mem_append_right before List.mem_cons_self) hnone

end

end CactLang.Typing
