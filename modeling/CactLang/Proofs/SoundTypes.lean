import CactLang.Proofs.Contract
import CactLang.Proofs.DeclaredTypes
import CactLang.Proofs.Reading.Program
import CactLang.Proofs.Uses

/-!
# Types are sound

An expression that gives no value, or a whole array, can stand in few places. No single rule says
so: operators, indices, conditions, initializers and `return` each ask for a single value, a call
asks for what the parameter is, and an assignment for what its target is.

> `Use.Takes r use t`: a value of the type `t` may be used like this.
>
> `Expr.Explains r e t`: the expression `e` is such that it can have the type `t`.

Both are shown from the rules that the nodes of an accepted tree follow (`Node.Typed`) and from
the types in the registry (`Registry.From`). The rules alone do not suffice, since an operator that
applies nothing would take any operand: that none is written comes from how programs are read.
-/

namespace CactLang

/-! ## Annotations are not written -/

theorem Expr.isBinary_erase (e : Expr) : e.erase.isBinary = e.isBinary := by
  obtain ⟨id, kind, span, info⟩ := e
  cases kind <;> rfl

/-- Annotations do not bind. -/
theorem Expr.rank_erase (e : Expr) : e.erase.rank = e.rank := by
  obtain ⟨id, kind, span, info⟩ := e
  cases kind <;> rfl

mutual

/-- What an expression may look like is not a matter of annotations. -/
theorem Expr.isWellFormed_erase : ∀ e : Expr, e.erase.isWellFormed = e.isWellFormed
  | ⟨_, .number _ _, _, _⟩ => rfl
  | ⟨_, .bool _, _, _⟩ => rfl
  | ⟨_, .lvalue l, _, _⟩ => by
    rw [Expr.erase, Expr.plain, Expr.isWellFormed, LValue.isWellFormed_erase l, Expr.isWellFormed]
  | ⟨_, .paren inner, _, _⟩ => by
    rw [Expr.erase, Expr.plain, Expr.isWellFormed, Expr.isWellFormed_erase inner,
      Expr.isWellFormed]
  | ⟨_, .unary _ operand, _, _⟩ => by
    rw [Expr.erase, Expr.plain, Expr.isWellFormed, Expr.isWellFormed_erase operand,
      operand.isBinary_erase, Expr.isWellFormed]
  | ⟨_, .binary _ left right, _, _⟩ => by
    rw [Expr.erase, Expr.plain, Expr.isWellFormed, Expr.isWellFormed_erase left,
      Expr.isWellFormed_erase right, left.rank_erase, right.rank_erase, Expr.isWellFormed]
  | ⟨_, .call _ arguments _, _, _⟩ => by
    rw [Expr.erase, Expr.plain, Expr.isWellFormed, Expr.areWellFormed_eraseAll arguments,
      Expr.isWellFormed]

theorem LValue.isWellFormed_erase : ∀ l : LValue, l.erase.isWellFormed = l.isWellFormed
  | ⟨_, _, indices, _, _, _⟩ => by
    rw [LValue.erase, LValue.plain, LValue.isWellFormed, Expr.areWellFormed_eraseAll indices,
      LValue.isWellFormed]

theorem Expr.areWellFormed_eraseAll :
    ∀ es : List Expr, Expr.areWellFormed (Expr.eraseAll es) = Expr.areWellFormed es
  | [] => rfl
  | e :: es => by
    rw [Expr.eraseAll, Expr.areWellFormed, Expr.isWellFormed_erase e,
      Expr.areWellFormed_eraseAll es, Expr.areWellFormed]

end

mutual

/-- What initial values may look like is not a matter of annotations. -/
theorem Initializer.isWellFormed_erase :
    ∀ x : Initializer, x.erase.isWellFormed = x.isWellFormed
  | .scalar _ value _ => value.isWellFormed_erase
  | .list _ items _ => by
    rw [Initializer.erase, Initializer.isWellFormed, Initializer.areWellFormed_eraseAll items,
      Initializer.isWellFormed]

theorem Initializer.areWellFormed_eraseAll :
    ∀ xs : List Initializer,
      Initializer.areWellFormed (Initializer.eraseAll xs) = Initializer.areWellFormed xs
  | [] => rfl
  | x :: xs => by
    rw [Initializer.eraseAll, Initializer.areWellFormed, Initializer.isWellFormed_erase x,
      Initializer.areWellFormed_eraseAll xs, Initializer.areWellFormed]

end

/-- What a definition may look like is not a matter of annotations. -/
theorem VarDef.isWellFormed_erase (isConstant : Bool) (d : VarDef) :
    d.erase.isWellFormed isConstant = d.isWellFormed isConstant := by
  unfold VarDef.isWellFormed VarDef.erase
  cases d.init with
  | none => rfl
  | some x => exact x.isWellFormed_erase

theorem Decl.isWellFormed_erase (d : Decl) : d.erase.isWellFormed = d.isWellFormed := by
  have hdefs : VarDef.isWellFormed d.isConstant ∘ VarDef.erase = VarDef.isWellFormed d.isConstant :=
    funext (VarDef.isWellFormed_erase d.isConstant)
  unfold Decl.isWellFormed Decl.erase
  rw [List.isEmpty_map, List.all_map, hdefs]

/-- Whether an alternative could follow a statement is not a matter of annotations. -/
theorem Stmt.endsOpen_erase : ∀ t : Stmt, t.erase.endsOpen = t.endsOpen
  | ⟨_, .cond _ _ none, _, _⟩ => rfl
  | ⟨_, .cond _ _ (some elseBranch), _, _⟩ => Stmt.endsOpen_erase elseBranch
  | ⟨_, .loop _ body, _, _⟩ => Stmt.endsOpen_erase body
  | ⟨_, .assign _ _, _, _⟩ => rfl
  | ⟨_, .expr _, _, _⟩ => rfl
  | ⟨_, .block _, _, _⟩ => rfl
  | ⟨_, .leave _, _, _⟩ => rfl
  | ⟨_, .next _, _, _⟩ => rfl
  | ⟨_, .ret _ _, _, _⟩ => rfl

mutual

/-- What a statement may look like is not a matter of annotations. -/
theorem Stmt.isWellFormed_erase : ∀ t : Stmt, t.erase.isWellFormed = t.isWellFormed
  | ⟨_, .assign target value, _, _⟩ => by
    rw [Stmt.erase, Stmt.plain, Stmt.isWellFormed, target.isWellFormed_erase,
      value.isWellFormed_erase, Stmt.isWellFormed]
  | ⟨_, .expr none, _, _⟩ => rfl
  | ⟨_, .expr (some value), _, _⟩ => value.isWellFormed_erase
  | ⟨_, .block b, _, _⟩ => Block.isWellFormed_erase b
  | ⟨_, .cond test thenBranch none, _, _⟩ => by
    rw [Stmt.erase, Stmt.plain, Stmt.isWellFormed, test.isWellFormed_erase,
      Stmt.isWellFormed_erase thenBranch, Stmt.isWellFormed]
  | ⟨_, .cond test thenBranch (some elseBranch), _, _⟩ => by
    rw [Stmt.erase, Stmt.plain, Stmt.isWellFormed, test.isWellFormed_erase,
      Stmt.isWellFormed_erase thenBranch, Stmt.isWellFormed_erase elseBranch,
      thenBranch.endsOpen_erase, Stmt.isWellFormed]
  | ⟨_, .loop test body, _, _⟩ => by
    rw [Stmt.erase, Stmt.plain, Stmt.isWellFormed, test.isWellFormed_erase,
      Stmt.isWellFormed_erase body, Stmt.isWellFormed]
  | ⟨_, .leave _, _, _⟩ => rfl
  | ⟨_, .next _, _, _⟩ => rfl
  | ⟨_, .ret none _, _, _⟩ => rfl
  | ⟨_, .ret (some value) _, _, _⟩ => value.isWellFormed_erase

theorem Block.isWellFormed_erase : ∀ b : Block, b.erase.isWellFormed = b.isWellFormed
  | ⟨_, items, _, _, _⟩ => BlockItem.areWellFormed_eraseAll items

theorem BlockItem.areWellFormed_eraseAll :
    ∀ items : List BlockItem,
      BlockItem.areWellFormed (BlockItem.eraseAll items) = BlockItem.areWellFormed items
  | [] => rfl
  | .decl d :: rest => by
    rw [BlockItem.eraseAll, BlockItem.areWellFormed, d.isWellFormed_erase,
      BlockItem.areWellFormed_eraseAll rest, BlockItem.areWellFormed]
  | .stmt t :: rest => by
    rw [BlockItem.eraseAll, BlockItem.areWellFormed, Stmt.isWellFormed_erase t,
      BlockItem.areWellFormed_eraseAll rest, BlockItem.areWellFormed]

end

/-- What an item of a program may look like is not a matter of annotations. -/
theorem Item.isWellFormed_erase : ∀ i : Item, i.erase.isWellFormed = i.isWellFormed
  | .decl d => d.isWellFormed_erase
  | .func f => by
    rw [Item.erase, Item.isWellFormed, FuncDef.isWellFormed, FuncDef.erase, List.all_map,
      f.body.isWellFormed_erase, Item.isWellFormed, FuncDef.isWellFormed]
    rfl

/-- Whether a program is read as it is written is a matter of what is written. -/
theorem Program.isWellFormed_erase (p : Program) : p.erase.isWellFormed = p.isWellFormed := by
  have hitems : Item.isWellFormed ∘ Item.erase = Item.isWellFormed :=
    funext Item.isWellFormed_erase
  unfold Program.isWellFormed Program.erase
  rw [List.all_map, hitems]

/-! ## What may be used for what -/

/-- A value of the type may be used like this. Most uses are for single values. -/
def Use.Takes (r : Registry) : Use → Ty → Prop
  | .statement, _ => True
  | .argument, t => t.basic ≠ .void
  | .assigned target, t =>
    t.basic ≠ .void ∧ ∃ y, r.Holds target.symbol y ∧ t = y.ty.indexed target.indices.length
  | _, t => t.isOperand = true

namespace Use.Takes

variable {r : Registry} {use : Use} {t : Ty}

/-- What gives no value is of no use but as a statement. -/
theorem eq_statement (h : use.Takes r t) (hvoid : t.basic = .void) : use = .statement := by
  have hoperand : t.isOperand ≠ true := by
    intro h
    obtain ⟨b, hb, rfl⟩ := Typing.isOperand_iff.mp h
    exact hb hvoid
  cases use with
  | statement => rfl
  | argument => exact absurd hvoid h
  | assigned target => exact absurd hvoid h.1
  | _ => exact absurd h hoperand

/-- An array can be passed on or assigned. -/
theorem of_array (h : use.Takes r t) (harray : t.dims ≠ []) :
    use = .argument ∨ use = .statement ∨ ∃ target y, use = .assigned target ∧
      r.Holds target.symbol y ∧ t = y.ty.indexed target.indices.length := by
  have hoperand : t.isOperand ≠ true := by
    intro h
    obtain ⟨b, _, rfl⟩ := Typing.isOperand_iff.mp h
    exact harray rfl
  cases use with
  | statement => exact .inr (.inl rfl)
  | argument => exact .inl rfl
  | assigned target =>
    obtain ⟨_, y, hy, ht⟩ := h
    exact .inr (.inr ⟨target, y, rfl, hy, ht⟩)
  | _ => exact absurd h hoperand

end Use.Takes

/-- What the types in the registry can be: variables and parameters have values, and functions
do not give arrays. -/
structure Registry.Sound (r : Registry) : Prop where
  symbol : ∀ {v y}, r.symbol? v = some y → y.ty.basic ≠ .void
  parameter : ∀ {f g}, r.function? f = some g → ∀ q ∈ g.parameters, q.ty.basic ≠ .void
  returns : ∀ {f g}, r.function? f = some g → g.returns.dims = []

theorem Registry.mem_of_getElem? {α : Type} {xs : Array α} {k : Nat} {x : α}
    (h : xs[k]? = some x) : x ∈ xs.toList :=
  Array.mem_toList_iff.mpr (Array.mem_of_getElem? h)

/-- The variables and parameters of a well-formed program are never `void`. -/
theorem Registry.From.sound {p : Program} {r : Registry} (h : r.From p)
    (hp : p.isWellFormed = true) : r.Sound where
  symbol hy := (h.symbol_ty hp (mem_of_getElem? hy)).1
  parameter hg _ hq := (h.parameter_ty hp (mem_of_getElem? hg) hq).1
  returns hg := h.returns_dims (mem_of_getElem? hg)

/-- A variable that a handle names is never `void`. -/
theorem Registry.Sound.holds {r : Registry} (hr : r.Sound) {symbol : Option SymbolId} {y : Symbol}
    (h : r.Holds symbol y) : y.ty.basic ≠ .void := by
  obtain ⟨_, _, hy⟩ := h
  exact hr.symbol hy

/-! ## Where types come from -/

/-- Whatever type a sign takes is one that operands may have. -/
theorem Operator.isOperand_of_takes {op : Operator} {t : Ty} (hop : op.isUnary = true)
    (h : op.takes t = true) : t.isOperand = true := by
  cases op with
  | plus => exact (Bool.and_eq_true_iff.mp h).1
  | neg => exact (Bool.and_eq_true_iff.mp h).1
  | not => exact (Bool.and_eq_true_iff.mp h).1
  | _ => cases hop

/-- An operator makes a single value of single values. -/
theorem Operator.isOperand_resultType (op : Operator) {t : Ty} (h : t.isOperand = true) :
    (op.resultType t).isOperand = true := by
  cases op <;> first | exact h | rfl

/-- A parameter takes values of its own basic type. -/
theorem Ty.basic_of_accepts {t u : Ty} (h : t.accepts u = true) : u.basic = t.basic := by
  unfold Ty.accepts at h
  rcases Bool.or_eq_true_iff.mp h with h | h
  · rw [eq_of_beq h]
  · split at h
    next => exact (eq_of_beq (Bool.and_eq_true_iff.mp h).1).symm
    next => cases h

/-- What the expression is, given its type: only a call gives no value, and only a variable
with indices missing is an array. -/
structure Expr.Explains (r : Registry) (e : Expr) (t : Ty) : Prop where
  void : t.basic = .void → t.dims = [] ∧ ∃ callee arguments f g,
    e.kind = .call callee arguments (some f) ∧ r.function? f = some g ∧ g.returns = .scalar .void
  array : t.dims ≠ [] → ∃ l y, e.kind = .lvalue l ∧ r.Holds l.symbol y ∧
    l.indices.length < y.ty.rank ∧ t = y.ty.indexed l.indices.length ∧ t.dims <:+ y.ty.dims

theorem Expr.Explains.of_isOperand {r : Registry} {e : Expr} {t : Ty} (h : t.isOperand = true) :
    e.Explains r t := by
  obtain ⟨b, hb, rfl⟩ := Typing.isOperand_iff.mp h
  exact ⟨fun hvoid => absurd hvoid hb, fun harray => absurd rfl harray⟩

section

variable {r : Registry}

theorem Expr.typed_inside {e : Expr} (h : ∀ n ∈ e.nodes, n.Typed r) :
    ∀ n ∈ e.kind.nodes, n.Typed r := by
  obtain ⟨id, kind, span, info⟩ := e
  rw [Expr.nodes] at h
  exact (List.forall_mem_append.mp h).1

/-- The type of an expression is explained by what stands inside its parentheses: operators give
scalar types, and only variables and calls give others. -/
theorem Expr.core_explains (hr : r.Sound) :
    ∀ {e : Expr} {i : ExprInfo}, e.isWellFormed = true → (∀ n ∈ e.nodes, n.Typed r) →
      e.info = some i → e.core.Explains r i.ty
  | ⟨_, .number _ kind, _, _⟩, _, _, htyped, rfl => by
    obtain ⟨_, hi, rfl⟩ := htyped _ (Expr.mem_nodes _)
    cases hi
    exact .of_isOperand (by cases kind <;> rfl)
  | ⟨_, .bool _, _, _⟩, _, _, htyped, rfl => by
    obtain ⟨_, hi, rfl⟩ := htyped _ (Expr.mem_nodes _)
    cases hi
    exact .of_isOperand rfl
  | ⟨_, .lvalue l, _, _⟩, i, _, htyped, rfl => by
    obtain ⟨_, hi, y, hy, rfl⟩ := htyped _ (Expr.mem_nodes _)
    cases hi
    refine ⟨fun hvoid => absurd hvoid (hr.holds hy), fun harray => ?_⟩
    have hlt : l.indices.length < y.ty.dims.length := by
      by_contra hge
      exact harray (List.drop_eq_nil_of_le (Nat.le_of_not_lt hge))
    exact ⟨l, y, rfl, hy, hlt, rfl, List.drop_suffix _ _⟩
  | ⟨_, .paren inner, _, _⟩, _, hwf, htyped, rfl => by
    obtain ⟨_, hi, j, hj, _, rfl⟩ := htyped _ (Expr.mem_nodes _)
    cases hi
    have hinside := Expr.typed_inside htyped
    rw [ExprKind.nodes] at hinside
    rw [Expr.isWellFormed] at hwf
    rw [Expr.core]
    have hinner : inner.core.Explains r j.ty := Expr.core_explains hr hwf hinside hj
    exact hinner
  | ⟨_, .unary op _, _, _⟩, _, hwf, htyped, rfl => by
    obtain ⟨_, hi, j, _, htakes, rfl⟩ := htyped _ (Expr.mem_nodes _)
    cases hi
    -- the operator is one that can be written, and these ask for a single value
    simp only [Expr.isWellFormed, Bool.and_eq_true] at hwf
    have hoperand := Operator.isOperand_of_takes hwf.1.1 (Typing.checkOperand_ok.mp htakes)
    exact .of_isOperand (op.isOperand_resultType hoperand)
  | ⟨_, .binary op _ _, _, _⟩, _, _, htyped, rfl => by
    obtain ⟨_, hi, j, _, k, _, htakes, rfl⟩ := htyped _ (Expr.mem_nodes _)
    cases hi
    exact .of_isOperand (op.isOperand_resultType (Typing.checkOperands_ok.mp htakes).1)
  | ⟨_, .call callee arguments _, _, _⟩, _, _, htyped, rfl => by
    obtain ⟨_, hi, f, g, rfl, hg, _, _, rfl⟩ := htyped _ (Expr.mem_nodes _)
    cases hi
    have hdims := hr.returns hg
    refine ⟨fun hvoid => ⟨hdims, callee, arguments, f, g, rfl, hg, ?_⟩,
      fun harray => absurd hdims harray⟩
    exact congrArg₂ Ty.mk hvoid hdims

/-! ## Every use is proper -/

/-- The expression is annotated with a type that may be used like this, and the expression
explains the type. -/
def Use.Proper (r : Registry) (u : Use × Expr) : Prop :=
  u.2.Carries fun i => u.1.Takes r i.ty ∧ u.2.core.Explains r i.ty

theorem Expr.Carries.imp {e : Expr} {P Q : ExprInfo → Prop} (h : e.Carries P)
    (hPQ : ∀ i, P i → Q i) : e.Carries Q := by
  obtain ⟨i, hi, hP⟩ := h
  exact ⟨i, hi, hPQ i hP⟩

/-- What parameters accept are arguments. -/
theorem takes_of_accepts {ps : List Parameter} {es : List Expr}
    (hps : ∀ q ∈ ps, q.ty.basic ≠ .void)
    (h : List.Forall₂ (fun p e => e.Carries fun j => p.ty.accepts j.ty = true) ps es) :
    ∀ e ∈ es, e.Carries fun i => Use.argument.Takes r i.ty := by
  induction h with
  | nil => exact List.forall_mem_nil _
  | @cons q e ps es he _ ih =>
    obtain ⟨hq, hps⟩ := List.forall_mem_cons.mp hps
    refine List.forall_mem_cons.mpr ⟨he.imp fun i hi => ?_, ih hps⟩
    have hbasic : i.ty.basic = q.ty.basic := Ty.basic_of_accepts hi
    show i.ty.basic ≠ .void
    rw [hbasic]
    exact hq

mutual

/-- Wherever an expression stands, and every expression inside of it, its type is one that its
place takes. -/
theorem Expr.uses_proper (hr : r.Sound) :
    ∀ {e : Expr} {use : Use}, e.isWellFormed = true → (∀ n ∈ e.nodes, n.Typed r) →
      (e.Carries fun i => use.Takes r i.ty) → ∀ u ∈ e.uses use, Use.Proper r u
  | ⟨_, kind, _, _⟩, _, hwf, htyped, ⟨i, hi, htakes⟩ => by
    obtain ⟨i', hi', hkind⟩ := htyped _ (Expr.mem_nodes _)
    obtain rfl := Option.some.inj (hi.symm.trans hi')
    rw [Expr.uses]
    refine List.forall_mem_append.mpr ⟨?_, List.forall_mem_singleton.mpr ?_⟩
    · exact ExprKind.uses_proper hr hwf (Expr.typed_inside htyped) hkind htakes
    · exact ⟨i, hi, htakes, Expr.core_explains hr hwf htyped hi⟩
termination_by structural e => e

theorem ExprKind.uses_proper (hr : r.Sound) :
    ∀ {k : ExprKind} {use : Use} {id : NodeId} {span : Span} {info : Option ExprInfo}
      {i : ExprInfo}, (Expr.mk id k span info).isWellFormed = true →
      (∀ n ∈ k.nodes, n.Typed r) → k.Typed r i → use.Takes r i.ty →
      ∀ u ∈ k.uses use, Use.Proper r u
  | .number _ _, _, _, _, _, _, _, _, _, _ => by
    rw [ExprKind.uses]
    exact List.forall_mem_nil _
  | .bool _, _, _, _, _, _, _, _, _, _ => by
    rw [ExprKind.uses]
    exact List.forall_mem_nil _
  | .lvalue l, _, _, _, _, _, hwf, htyped, _, _ => by
    rw [Expr.isWellFormed] at hwf
    rw [ExprKind.nodes] at htyped
    rw [ExprKind.uses]
    exact LValue.uses_proper hr hwf htyped
  | .paren inner, use, _, _, _, _, hwf, htyped, ⟨j, hj, _, hi⟩, htakes => by
    rw [Expr.isWellFormed] at hwf
    rw [ExprKind.nodes] at htyped
    rw [hi] at htakes
    rw [ExprKind.uses]
    -- what stands in parentheses is used as the parentheses are
    exact Expr.uses_proper hr hwf htyped ⟨j, hj, htakes⟩
  | .unary op operand, _, _, _, _, _, hwf, htyped, ⟨j, hj, hop, _⟩, _ => by
    simp only [Expr.isWellFormed, Bool.and_eq_true] at hwf
    rw [ExprKind.nodes] at htyped
    rw [ExprKind.uses]
    have hoperand := Operator.isOperand_of_takes hwf.1.1 (Typing.checkOperand_ok.mp hop)
    exact Expr.uses_proper hr hwf.2 htyped ⟨j, hj, hoperand⟩
  | .binary op left right, _, _, _, _, _, hwf, htyped, ⟨j, hj, k, hk, hop, _⟩, _ => by
    obtain ⟨_, _, _, _, hleft, hright⟩ := Expr.isWellFormed_binary.mp hwf
    obtain ⟨hoperand, hsame, _⟩ := Typing.checkOperands_ok.mp hop
    have hoperand' : k.ty.isOperand = true := by rw [hsame]; exact hoperand
    rw [ExprKind.nodes] at htyped
    obtain ⟨hnodes, hnodes'⟩ := List.forall_mem_append.mp htyped
    rw [ExprKind.uses]
    exact List.forall_mem_append.mpr
      ⟨Expr.uses_proper hr hleft hnodes ⟨j, hj, hoperand⟩,
        Expr.uses_proper hr hright hnodes' ⟨k, hk, hoperand'⟩⟩
  | .call _ arguments _, _, _, _, _, _, hwf, htyped, ⟨f, g, _, hg, _, haccepts, _⟩, _ => by
    rw [Expr.isWellFormed] at hwf
    rw [ExprKind.nodes] at htyped
    rw [ExprKind.uses]
    exact Expr.allUses_proper hr hwf htyped (takes_of_accepts (hr.parameter hg) haccepts)
termination_by structural k => k

theorem LValue.uses_proper (hr : r.Sound) :
    ∀ {l : LValue}, l.isWellFormed = true → (∀ n ∈ l.nodes, n.Typed r) →
      ∀ u ∈ l.uses, Use.Proper r u
  | ⟨_, _, indices, _, _, _⟩, hwf, htyped => by
    obtain ⟨_, _, _, _, hindices⟩ := htyped _ (LValue.mem_nodes _)
    rw [LValue.nodes] at htyped
    rw [LValue.uses]
    refine Expr.allUses_proper hr hwf (fun n hn => htyped n (List.mem_append_left _ hn)) ?_
    intro e he
    exact (hindices e he).imp fun i hi => by
      rw [hi]
      rfl
termination_by structural l => l

theorem Expr.allUses_proper (hr : r.Sound) :
    ∀ {es : List Expr} {use : Use}, Expr.areWellFormed es = true →
      (∀ n ∈ Expr.allNodes es, n.Typed r) →
      (∀ e ∈ es, e.Carries fun i => use.Takes r i.ty) → ∀ u ∈ Expr.allUses use es, Use.Proper r u
  | [], _, _, _, _ => by
    rw [Expr.allUses]
    exact List.forall_mem_nil _
  | e :: es, use, hwf, htyped, htakes => by
    rw [Expr.areWellFormed, Bool.and_eq_true] at hwf
    rw [Expr.allNodes] at htyped
    obtain ⟨hnodes, hrest⟩ := List.forall_mem_append.mp htyped
    obtain ⟨he, hes⟩ := List.forall_mem_cons.mp htakes
    rw [Expr.allUses]
    exact List.forall_mem_append.mpr
      ⟨Expr.uses_proper hr hwf.1 hnodes he, Expr.allUses_proper hr hwf.2 hrest hes⟩
termination_by structural es => es

end

mutual

theorem Initializer.uses_proper (hr : r.Sound) :
    ∀ {x : Initializer}, x.isWellFormed = true → (∀ n ∈ x.nodes, n.Typed r) →
      (∀ e ∈ x.leaves, e.Carries fun i => Use.element.Takes r i.ty) →
      ∀ u ∈ x.uses, Use.Proper r u
  | .scalar _ value _, hwf, htyped, htakes => by
    rw [Initializer.isWellFormed] at hwf
    rw [Initializer.nodes] at htyped
    rw [Initializer.leaves] at htakes
    rw [Initializer.uses]
    exact Expr.uses_proper hr hwf (List.forall_mem_append.mp htyped).1
      (htakes value List.mem_cons_self)
  | .list _ items _, hwf, htyped, htakes => by
    rw [Initializer.isWellFormed] at hwf
    rw [Initializer.nodes] at htyped
    rw [Initializer.leaves] at htakes
    rw [Initializer.uses]
    exact Initializer.allUses_proper hr hwf (List.forall_mem_append.mp htyped).1 htakes
termination_by structural x => x

theorem Initializer.allUses_proper (hr : r.Sound) :
    ∀ {xs : List Initializer}, Initializer.areWellFormed xs = true →
      (∀ n ∈ Initializer.allNodes xs, n.Typed r) →
      (∀ e ∈ Initializer.allLeaves xs, e.Carries fun i => Use.element.Takes r i.ty) →
      ∀ u ∈ Initializer.allUses xs, Use.Proper r u
  | [], _, _, _ => by
    rw [Initializer.allUses]
    exact List.forall_mem_nil _
  | x :: xs, hwf, htyped, htakes => by
    rw [Initializer.areWellFormed, Bool.and_eq_true] at hwf
    rw [Initializer.allNodes] at htyped
    rw [Initializer.allLeaves] at htakes
    obtain ⟨hnodes, hnodes'⟩ := List.forall_mem_append.mp htyped
    obtain ⟨hx, hxs⟩ := List.forall_mem_append.mp htakes
    rw [Initializer.allUses]
    exact List.forall_mem_append.mpr
      ⟨Initializer.uses_proper hr hwf.1 hnodes hx, Initializer.allUses_proper hr hwf.2 hnodes' hxs⟩
termination_by structural xs => xs

end

/-- The expressions of a definition have types that their places take. -/
theorem VarDef.uses_proper (hr : r.Sound) {isConstant : Bool} {d : VarDef}
    (hwf : d.isWellFormed isConstant = true) (htyped : ∀ n ∈ d.nodes, n.Typed r) :
    ∀ u ∈ d.uses, Use.Proper r u := by
  obtain ⟨hnodes, hself⟩ := List.forall_mem_append.mp htyped
  obtain ⟨ty, isConstant, hsymbol, _, hleaves⟩ := List.forall_mem_singleton.mp hself
  -- the elements have the type of the variable, which is not `void`
  have hbasic : ty.basic ≠ .void := by
    have hsymbol := hr.holds hsymbol
    rwa [Typing.declaredSymbol_ty] at hsymbol
  unfold VarDef.isWellFormed at hwf
  unfold VarDef.uses
  cases hinit : d.init with
  | none => exact List.forall_mem_nil _
  | some x =>
    rw [hinit] at hwf hnodes
    refine Initializer.uses_proper hr hwf hnodes fun e he => ?_
    exact (hleaves x hinit e he).imp fun i hi =>
      Typing.isOperand_iff.mpr ⟨ty.basic, hbasic, hi.1⟩

theorem Decl.uses_proper (hr : r.Sound) {d : Decl} (hwf : d.isWellFormed = true)
    (htyped : ∀ n ∈ d.nodes, n.Typed r) : ∀ u ∈ d.uses, Use.Proper r u := by
  rw [Decl.isWellFormed, Bool.and_eq_true, List.all_eq_true] at hwf
  intro u hu
  obtain ⟨x, hx, hu⟩ := List.mem_flatMap.mp hu
  refine VarDef.uses_proper hr (hwf.2 x hx) (fun n hn => ?_) u hu
  exact htyped n (List.mem_append_left _ (List.mem_flatMap.mpr ⟨x, hx, hn⟩))

/-- What is inside a typed statement is typed. -/
theorem Stmt.typed_inside {t : Stmt} (h : ∀ n ∈ t.nodes, n.Typed r) :
    t.kind.Typed r ∧ ∀ n ∈ t.kind.nodes, n.Typed r := by
  obtain ⟨id, kind, span, hasReturn⟩ := t
  rw [Stmt.nodes] at h
  obtain ⟨hinside, hself⟩ := List.forall_mem_append.mp h
  exact ⟨hself _ List.mem_cons_self, hinside⟩

/-- A condition is a single value. -/
theorem takes_condition {test : Expr} (h : test.Carries fun i => i.ty = .scalar .bool) :
    test.Carries fun i => Use.condition.Takes r i.ty :=
  h.imp fun _ hi => hi ▸ rfl

mutual

/-- The expressions of a statement have types that their places take. -/
theorem Stmt.uses_proper (hr : r.Sound) :
    ∀ {t : Stmt}, t.isWellFormed = true → (∀ n ∈ t.nodes, n.Typed r) →
      ∀ u ∈ t.uses, Use.Proper r u
  | ⟨_, .assign target value, _, _⟩, hwf, htyped => by
    obtain ⟨⟨y, hy, _, hvalue⟩, hinside⟩ := Stmt.typed_inside htyped
    rw [Stmt.isWellFormed, Bool.and_eq_true] at hwf
    rw [StmtKind.nodes] at hinside
    obtain ⟨hnodes, hnodes'⟩ := List.forall_mem_append.mp hinside
    rw [Stmt.uses]
    refine List.forall_mem_append.mpr
      ⟨LValue.uses_proper hr hwf.1 hnodes, Expr.uses_proper hr hwf.2 hnodes' ?_⟩
    exact hvalue.imp fun i hi => ⟨by rw [hi]; exact hr.holds hy, y, hy, hi⟩
  | ⟨_, .expr none, _, _⟩, _, _ => by
    rw [Stmt.uses]
    exact List.forall_mem_nil _
  | ⟨_, .expr (some value), _, _⟩, hwf, htyped => by
    obtain ⟨_, hinside⟩ := Stmt.typed_inside htyped
    obtain ⟨i, hi, _⟩ := hinside _ (Expr.mem_nodes value)
    rw [Stmt.uses]
    exact Expr.uses_proper hr hwf hinside ⟨i, hi, trivial⟩
  | ⟨_, .block b, _, _⟩, hwf, htyped => by
    obtain ⟨_, hinside⟩ := Stmt.typed_inside htyped
    rw [StmtKind.nodes] at hinside
    rw [Stmt.uses]
    exact Block.uses_proper hr hwf hinside
  | ⟨_, .cond test thenBranch none, _, _⟩, hwf, htyped => by
    obtain ⟨htest, hinside⟩ := Stmt.typed_inside htyped
    rw [Stmt.isWellFormed, Bool.and_eq_true] at hwf
    rw [StmtKind.nodes] at hinside
    obtain ⟨hnodes, hnodes'⟩ := List.forall_mem_append.mp hinside
    rw [Stmt.uses]
    exact List.forall_mem_append.mpr ⟨Expr.uses_proper hr hwf.1 hnodes (takes_condition htest),
      Stmt.uses_proper hr hwf.2 hnodes'⟩
  | ⟨_, .cond test thenBranch (some elseBranch), _, _⟩, hwf, htyped => by
    obtain ⟨htest, hinside⟩ := Stmt.typed_inside htyped
    simp only [Stmt.isWellFormed, Bool.and_eq_true] at hwf
    rw [StmtKind.nodes] at hinside
    obtain ⟨hnodes, hbranches⟩ := List.forall_mem_append.mp hinside
    obtain ⟨hthen, helse⟩ := List.forall_mem_append.mp hbranches
    rw [Stmt.uses]
    exact List.forall_mem_append.mpr
      ⟨Expr.uses_proper hr hwf.1.1.1 hnodes (takes_condition htest),
        List.forall_mem_append.mpr
          ⟨Stmt.uses_proper hr hwf.1.2 hthen, Stmt.uses_proper hr hwf.2 helse⟩⟩
  | ⟨_, .loop test body, _, _⟩, hwf, htyped => by
    obtain ⟨htest, hinside⟩ := Stmt.typed_inside htyped
    rw [Stmt.isWellFormed, Bool.and_eq_true] at hwf
    rw [StmtKind.nodes] at hinside
    obtain ⟨hnodes, hnodes'⟩ := List.forall_mem_append.mp hinside
    rw [Stmt.uses]
    exact List.forall_mem_append.mpr ⟨Expr.uses_proper hr hwf.1 hnodes (takes_condition htest),
      Stmt.uses_proper hr hwf.2 hnodes'⟩
  | ⟨_, .leave _, _, _⟩, _, _ => by
    rw [Stmt.uses]
    exact List.forall_mem_nil _
  | ⟨_, .next _, _, _⟩, _, _ => by
    rw [Stmt.uses]
    exact List.forall_mem_nil _
  | ⟨_, .ret none _, _, _⟩, _, _ => by
    rw [Stmt.uses]
    exact List.forall_mem_nil _
  | ⟨_, .ret (some value) _, _, _⟩, hwf, htyped => by
    obtain ⟨⟨f, g, _, hg, hvoid, hvalue⟩, hinside⟩ := Stmt.typed_inside htyped
    -- no function gives an array, so that the value is a single one
    have hreturns : g.returns = .scalar g.returns.basic := congrArg (Ty.mk _) (hr.returns hg)
    rw [Stmt.uses]
    exact Expr.uses_proper hr hwf hinside (hvalue.imp fun i hi =>
      Typing.isOperand_iff.mpr ⟨_, hvoid, hi.trans hreturns⟩)

theorem Block.uses_proper (hr : r.Sound) :
    ∀ {b : Block}, b.isWellFormed = true → (∀ n ∈ b.nodes, n.Typed r) →
      ∀ u ∈ b.uses, Use.Proper r u
  | ⟨_, items, _, _, _⟩, hwf, htyped => by
    rw [Block.nodes] at htyped
    rw [Block.uses]
    exact BlockItem.allUses_proper hr hwf (List.forall_mem_append.mp htyped).1

theorem BlockItem.allUses_proper (hr : r.Sound) :
    ∀ {items : List BlockItem}, BlockItem.areWellFormed items = true →
      (∀ n ∈ BlockItem.allNodes items, n.Typed r) →
      ∀ u ∈ BlockItem.allUses items, Use.Proper r u
  | [], _, _ => by
    rw [BlockItem.allUses]
    exact List.forall_mem_nil _
  | .decl d :: rest, hwf, htyped => by
    rw [BlockItem.areWellFormed, Bool.and_eq_true] at hwf
    rw [BlockItem.allNodes] at htyped
    obtain ⟨hd, hrest⟩ := List.forall_mem_append.mp htyped
    rw [BlockItem.allUses]
    exact List.forall_mem_append.mpr
      ⟨d.uses_proper hr hwf.1 hd, BlockItem.allUses_proper hr hwf.2 hrest⟩
  | .stmt t :: rest, hwf, htyped => by
    rw [BlockItem.areWellFormed, Bool.and_eq_true] at hwf
    rw [BlockItem.allNodes] at htyped
    obtain ⟨ht, hrest⟩ := List.forall_mem_append.mp htyped
    rw [BlockItem.allUses]
    exact List.forall_mem_append.mpr
      ⟨Stmt.uses_proper hr hwf.1 ht, BlockItem.allUses_proper hr hwf.2 hrest⟩

end

/-- In a tree that follows the rules, every expression is used as its type allows. -/
theorem Program.uses_proper (hr : r.Sound) {p : Program} (hwf : p.isWellFormed = true)
    (htyped : ∀ n ∈ p.nodes, n.Typed r) : ∀ u ∈ p.uses, Use.Proper r u := by
  intro u hu
  obtain ⟨i, hi, hu⟩ := List.mem_flatMap.mp hu
  have hnodes : ∀ n ∈ i.nodes, n.Typed r := fun n hn =>
    htyped n (List.mem_flatMap.mpr ⟨i, hi, hn⟩)
  have hi := List.all_eq_true.mp hwf i hi
  cases i with
  | decl d => exact d.uses_proper hr hi hnodes u hu
  | func f =>
    rw [Item.isWellFormed, FuncDef.isWellFormed, Bool.and_eq_true] at hi
    refine Block.uses_proper hr hi.2 (fun n hn => hnodes n ?_) u hu
    exact List.mem_append_right _ (List.mem_append_left _ hn)

end

namespace Typing

/-- Every node of an accepted tree follows its rule. -/
theorem nodes_typed {withBuiltins : Bool} {p p' : Program} {r : Registry}
    (h : typeCheck withBuiltins p = (.ok p', r)) : ∀ n ∈ p'.nodes, n.Typed r := by
  intro n hn
  rw [← p'.map_places] at hn
  obtain ⟨x, hx, rfl⟩ := List.mem_map.mp hn
  obtain ⟨s, s', hvisit⟩ := typeCheck_visited h x hx
  exact hvisit.typed

/-- **Types are sound everywhere.** For every program that is read:

* in the registry that checking leaves, passed or failed, no variable and no parameter is `void`,
  every dimension is given but for an outermost one of a parameter that is written open, and every
  function gives a single value or nothing;
* in the tree of an accepted program, an expression of type `void` is a call of a function that
  gives nothing, in parentheses or not, and it is a statement; an expression of an array type is a
  variable with indices missing, in parentheses or not, its dimensions are the last ones of the
  variable, and it is an argument, the value for a target of the same type, or a statement. -/
theorem typeCheck_soundTypes {tokens : List Token} {file : String} {p : Program} {c : Cursor}
    (h : parse tokens file = .ok p c) (withBuiltins : Bool) :
    let r := (typeCheck withBuiltins p).2
    (∀ y ∈ r.symbols.toList, y.ty.basic ≠ .void ∧
      (y.ty.Sized ∨ y.ty.Open ∧ ∃ f a, .func f ∈ p.items ∧ a ∈ f.params ∧ a.isOpen = true ∧
        a.declaration.toSymbol? = some y)) ∧
    (∀ g ∈ r.functions.toList, g.returns.dims = [] ∧ ∀ q ∈ g.parameters, q.ty.basic ≠ .void ∧
      (q.ty.Sized ∨ q.ty.Open ∧ ∃ f a, .func f ∈ p.items ∧ f.name = g.name ∧ a ∈ f.params ∧
        a.isOpen = true ∧ a.name = q.name ∧ a.declaration.ty? = some q.ty)) ∧
    ∀ p', (typeCheck withBuiltins p).1 = .ok p' →
      p'.uses.map Prod.snd = p'.nodes.filterMap Node.expr? ∧
      ∀ use e, (use, e) ∈ p'.uses → ∃ i, e.info = some i ∧
        (i.ty.basic = .void → i.ty.dims = [] ∧ use = .statement ∧ ∃ callee arguments f g,
          e.core.kind = .call callee arguments (some f) ∧ r.function? f = some g ∧
            g.returns = .scalar .void) ∧
        (i.ty.dims ≠ [] →
          (∃ l y, e.core.kind = .lvalue l ∧ r.Holds l.symbol y ∧ l.indices.length < y.ty.rank ∧
            i.ty = y.ty.indexed l.indices.length ∧ i.ty.dims <:+ y.ty.dims) ∧
          (use = .argument ∨ use = .statement ∨ ∃ target y, use = .assigned target ∧
            r.Holds target.symbol y ∧ i.ty = y.ty.indexed target.indices.length)) := by
  intro r
  have hfrom : r.From p := typeCheck_from withBuiltins p
  have hp : p.isWellFormed = true := (parse_ok h).1.1
  refine ⟨fun y hy => hfrom.symbol_ty hp hy,
    fun g hg => ⟨hfrom.returns_dims hg, fun q hq => hfrom.parameter_ty hp hg hq⟩, ?_⟩
  intro p' hp'
  have hcheck : typeCheck withBuiltins p = (.ok p', r) := Prod.ext hp' rfl
  -- the accepted tree is the one that was read, up to annotations
  have hwf : p'.isWellFormed = true := by
    rw [← p'.isWellFormed_erase, typeCheck_erase hcheck, p.isWellFormed_erase]
    exact hp
  refine ⟨p'.map_uses, fun use e hu => ?_⟩
  obtain ⟨i, hi, htakes, hexplains⟩ :=
    Program.uses_proper (hfrom.sound hp) hwf (nodes_typed hcheck) (use, e) hu
  refine ⟨i, hi, fun hvoid => ?_, fun harray => ⟨hexplains.array harray, htakes.of_array harray⟩⟩
  obtain ⟨hdims, hcall⟩ := hexplains.void hvoid
  exact ⟨hdims, htakes.eq_statement hvoid, hcall⟩

/-- A source that is read is a program that was parsed. -/
theorem parse_of_readSource? {source : String} {p : Program} (h : readSource? source = some p) :
    ∃ tokens c, parse tokens "shell" = .ok p c := by
  obtain ⟨tokens, c, _, hparse⟩ := exists_of_readSource? h
  exact ⟨tokens, c, hparse⟩

/-- The types of expressions that are not single values. -/
def otherTypes (p : Program) : List Ty :=
  p.uses.filterMap fun u => (u.2.info.map ExprInfo.ty).filter fun t => !t.isOperand

/-- These types in the program that a source is read as, if it passes. -/
def sourceOtherTypes? (source : String) : Option (List Ty) :=
  match readSource? source with
  | none => none
  | some p =>
    match (typeCheck true p).1 with
    | .ok p' => some (otherTypes p')
    | .error _ => none

theorem typeCheck_of_sourceOtherTypes? {source : String} {ts : List Ty}
    (h : sourceOtherTypes? source = some ts) :
    ∃ p p', readSource? source = some p ∧ (typeCheck true p).1 = .ok p' ∧ otherTypes p' = ts := by
  unfold sourceOtherTypes? at h
  split at h
  next => cases h
  next p hp =>
    split at h
    next p' hp' => exact ⟨p, p', hp, hp', Option.some.inj h⟩
    next => cases h

/-- Rows of a matrix are assigned, passed and dropped, and a function is called for nothing:

```
int m[3][2];
void copy(int a[][2]) { int row[2]; row = (m[0]); a[1][0] = row[0]; }
void main() { (copy(m)); m[1]; }
```
-/
def rowsSource : String :=
  "int m[3][2]; " ++
  "void copy(int a[][2]) \x7b int row[2]; row = (m[0]); a[1][0] = row[0]; \x7d " ++
  "void main() \x7b (copy(m)); m[1]; \x7d"

theorem typeCheck_soundTypes_rowsSource :
    ∃ tokens p c p', parse tokens "shell" = .ok p c ∧ (typeCheck true p).1 = .ok p' ∧
      otherTypes p' = [⟨.int32, [2]⟩, ⟨.int32, [2]⟩, ⟨.int32, [3, 2]⟩, .scalar .void,
        .scalar .void, ⟨.int32, [2]⟩] ∧
      (∀ y ∈ (typeCheck true p).2.symbols.toList, y.ty.basic ≠ .void ∧
        (y.ty.Sized ∨ y.ty.Open ∧ ∃ f a, .func f ∈ p.items ∧ a ∈ f.params ∧ a.isOpen = true ∧
          a.declaration.toSymbol? = some y)) ∧
      ∀ use e, (use, e) ∈ p'.uses → ∃ i, e.info = some i ∧
        (i.ty.basic = .void → use = .statement) ∧
        (i.ty.dims ≠ [] → use = .argument ∨ use = .statement ∨
          ∃ target, use = .assigned target) := by
  have htypes : sourceOtherTypes? rowsSource = some [⟨.int32, [2]⟩, ⟨.int32, [2]⟩,
      ⟨.int32, [3, 2]⟩, .scalar .void, .scalar .void, ⟨.int32, [2]⟩] := by
    decide +kernel
  obtain ⟨p, p', hp, hp', hothers⟩ := typeCheck_of_sourceOtherTypes? htypes
  obtain ⟨tokens, c, hparse⟩ := parse_of_readSource? hp
  obtain ⟨hsymbols, _, haccepted⟩ := typeCheck_soundTypes hparse true
  refine ⟨tokens, p, c, p', hparse, hp', hothers, hsymbols, fun use e hu => ?_⟩
  obtain ⟨i, hi, hvoid, harray⟩ := (haccepted p' hp').2 use e hu
  refine ⟨i, hi, fun h => (hvoid h).2.1, fun h => ?_⟩
  obtain huse | huse | ⟨target, _, huse, _⟩ := (harray h).2
  · exact .inl huse
  · exact .inr (.inl huse)
  · exact .inr (.inr ⟨target, huse⟩)

end Typing

end CactLang
