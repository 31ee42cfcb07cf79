import CactLang.Proofs.Erasure
import CactLang.Proofs.Visits

/-!
# What an accepted tree promises

The stages after checking read types, variables and functions off the tree and look
handles up in the final registry. This module says what they may rely on, node by
node, and that every accepted tree keeps it.

> `Node.Typed r n`: the node `n` is fully annotated, its handles name entries of `r`,
> and it satisfies its own typing rule there.

Annotations are written while the registry still grows. A rule that holds in a
registry holds in every later one (`Node.Typed.mono`), since entries never change once
a tree can refer to them; the one entry that does change, the function whose
parameters are being read, is not referred to before they are all there.
-/

namespace CactLang

/-! ## The rules -/

/-- The expression is annotated, with something that satisfies `P`. -/
def Expr.Carries (e : Expr) (P : ExprInfo → Prop) : Prop :=
  ∃ i, e.info = some i ∧ P i

/-- The handle of a variable names the entry `y`. -/
def Registry.Holds (r : Registry) (symbol : Option SymbolId) (y : Symbol) : Prop :=
  ∃ v, symbol = some v ∧ r.symbol? v = some y

/-- The rule for an expression of some form: what it carries, given what its parts
carry. -/
def ExprKind.Typed (r : Registry) : ExprKind → ExprInfo → Prop
  | .number _ kind, i => i = ⟨.scalar kind.basic, true, false⟩
  | .bool _, i => i = ⟨.scalar .bool, true, false⟩
  | .lvalue l, i =>
    ∃ y, r.Holds l.symbol y ∧ i = ⟨y.ty.indexed l.indices.length, false, y.isAssignable⟩
  | .paren inner, i => inner.Carries fun j =>
    Operator.nop.checkOperand j.ty = .ok () ∧
      i = ⟨Operator.nop.resultType j.ty, j.isConstant, false⟩
  | .unary op operand, i => operand.Carries fun j =>
    op.checkOperand j.ty = .ok () ∧ i = ⟨op.resultType j.ty, j.isConstant, false⟩
  | .binary op left right, i => left.Carries fun j => right.Carries fun k =>
    op.checkOperands j.ty k.ty = .ok () ∧
      i = ⟨op.resultType j.ty, j.isConstant && k.isConstant, false⟩
  | .call callee arguments function, i =>
    ∃ f signature, function = some f ∧ r.function? f = some signature ∧
      signature.name = callee ∧
      List.Forall₂ (fun p e => e.Carries fun j => p.ty.accepts j.ty = true)
        signature.parameters arguments ∧
      i = ⟨signature.returns, false, false⟩

/-- The rule for a statement of some form. -/
def StmtKind.Typed (r : Registry) : StmtKind → Prop
  | .assign target value =>
    ∃ y, r.Holds target.symbol y ∧ y.isConstant = false ∧
      value.Carries fun i => i.ty = y.ty.indexed target.indices.length
  | .expr _ => True
  | .block _ => True
  | .cond test _ _ => test.Carries fun i => i.ty = .scalar .bool
  | .loop test _ => test.Carries fun i => i.ty = .scalar .bool
  | .leave target => target.isSome = true
  | .next target => target.isSome = true
  | .ret value function =>
    ∃ f signature, function = some f ∧ r.function? f = some signature ∧
      match value with
      | none => signature.returns.basic = .void
      | some e => signature.returns.basic ≠ .void ∧ e.Carries fun i => i.ty = signature.returns

mutual

/-- The expressions an initializer is made of. -/
def Initializer.leaves : Initializer → List Expr
  | .scalar _ value _ => [value]
  | .list _ items _ => Initializer.allLeaves items

/-- The expressions that initializers are made of. -/
def Initializer.allLeaves : List Initializer → List Expr
  | [] => []
  | x :: xs => x.leaves ++ Initializer.allLeaves xs

end

open Typing (extent? declaredSymbol)

/-- The rule for a node. A declaration adds to the rules of its definitions what they
share, and a function definition relates its parameters to the signature. -/
def Node.Typed (r : Registry) : Node → Prop
  | .expr e => e.Carries (e.kind.Typed r)
  | .lvalue l =>
    ∃ y, r.Holds l.symbol y ∧ l.indices.length ≤ y.ty.rank ∧ l.assignable = y.isAssignable ∧
      ∀ e ∈ l.indices, e.Carries fun i => i.ty = .scalar .int32
  | .init _ => True
  | .varDef d =>
    ∃ ty isConstant, r.Holds d.symbol (declaredSymbol isConstant d ty) ∧
      List.Forall₂ (fun dim n => extent? dim = some n) d.dims ty.dims ∧
      ∀ x ∈ d.init, ∀ e ∈ x.leaves, e.Carries fun i =>
        i.ty = .scalar ty.basic ∧ i.isConstant = true
  | .decl d =>
    ∀ x ∈ d.defs, ∃ y, r.Holds x.symbol y ∧ y.ty.basic = d.basic ∧ y.isConstant = d.isConstant
  | .param p =>
    ∃ ty, r.Holds p.symbol (.ofParameter p.name ty) ∧ ty.basic = p.basic ∧
      ∃ ns, List.Forall₂ (fun dim n => extent? dim = some n) p.dims ns ∧
        ty.dims = if p.isOpen then 0 :: ns else ns
  | .stmt t => t.kind.Typed r
  | .block b => ∃ c, b.scope = some c ∧ (r.scope? c).isSome = true
  | .func f =>
    ∃ fn c signature, f.function = some fn ∧ r.function? fn = some signature ∧
      f.scope = some c ∧ (r.scope? c).isSome = true ∧
      signature.name = f.name ∧ signature.returns = .scalar f.returns ∧
      List.Forall₂ (fun p q => q.name = p.name ∧ r.Holds p.symbol (.ofParameter p.name q.ty))
        f.params signature.parameters

/-! ## Later registries -/

/-- A handle keeps naming its variable. -/
theorem Registry.Holds.mono {r r' : Registry} {symbol : Option SymbolId} {y : Symbol}
    (hr : r.Below r') (h : r.Holds symbol y) : r'.Holds symbol y := by
  obtain ⟨v, hv, hy⟩ := h
  exact ⟨v, hv, hr.symbol hy⟩

/-- An expression stays typed in a larger registry. -/
theorem ExprKind.Typed.mono {r r' : Registry} {k : ExprKind} {i : ExprInfo} (hr : r.Below r')
    (h : k.Typed r i) : k.Typed r' i := by
  cases k with
  | lvalue l =>
    obtain ⟨y, hy, hi⟩ := h
    exact ⟨y, hy.mono hr, hi⟩
  | call callee arguments function =>
    obtain ⟨f, signature, hf, hsignature, hrest⟩ := h
    exact ⟨f, signature, hf, hr.function hsignature, hrest⟩
  | _ => exact h

/-- A statement stays typed in a larger registry. -/
theorem StmtKind.Typed.mono {r r' : Registry} {k : StmtKind} (hr : r.Below r')
    (h : k.Typed r) : k.Typed r' := by
  cases k with
  | assign target value =>
    obtain ⟨y, hy, hrest⟩ := h
    exact ⟨y, hy.mono hr, hrest⟩
  | ret value function =>
    obtain ⟨f, signature, hf, hsignature, hrest⟩ := h
    exact ⟨f, signature, hf, hr.function hsignature, hrest⟩
  | _ => exact h

/-- The rule for a node holds in every later registry. -/
theorem Node.Typed.mono {r r' : Registry} {n : Node} (hr : r.Below r') (h : n.Typed r) :
    n.Typed r' := by
  -- every kind of node only asks for entries, and these stay as they are
  cases n with
  | expr e =>
    obtain ⟨i, hi, hkind⟩ := h
    exact ⟨i, hi, hkind.mono hr⟩
  | lvalue l =>
    obtain ⟨y, hy, hrest⟩ := h
    exact ⟨y, hy.mono hr, hrest⟩
  | init x => exact h
  | varDef d =>
    obtain ⟨ty, isConstant, hy, hrest⟩ := h
    exact ⟨ty, isConstant, hy.mono hr, hrest⟩
  | decl d =>
    intro x hx
    obtain ⟨y, hy, hrest⟩ := h x hx
    exact ⟨y, hy.mono hr, hrest⟩
  | param p =>
    obtain ⟨ty, hy, hrest⟩ := h
    exact ⟨ty, hy.mono hr, hrest⟩
  | stmt t => exact StmtKind.Typed.mono hr h
  | block b =>
    obtain ⟨c, hc, hscope⟩ := h
    exact ⟨c, hc, hr.scope hscope⟩
  | func f =>
    obtain ⟨fn, c, signature, hfn, hsignature, hc, hscope, hname, hreturns, hparams⟩ := h
    exact ⟨fn, c, signature, hfn, hr.function hsignature, hc, hr.scope hscope, hname, hreturns,
      hparams.imp fun p q hpq => ⟨hpq.1, hpq.2.mono hr⟩⟩

namespace Typing

/-! ## Expressions -/

section

variable {r : Registry} {c : ScopeId}

/-- The type that is found is written on the expression. -/
theorem checkExpr_info {e e' : Expr} {negated : Bool} {i : ExprInfo}
    (h : checkExpr r c negated e = .ok (e', i)) : e'.info = some i := by
  obtain ⟨id, kind, span, info⟩ := e
  cases kind with
  | number text kind =>
    obtain ⟨_, _, rfl⟩ := checkExpr_number_ok.mp h
    rfl
  | bool value =>
    obtain ⟨_, rfl⟩ := checkExpr_bool_ok.mp h
    rfl
  | lvalue l =>
    obtain ⟨_, _, _, _, rfl⟩ := checkExpr_lvalue_ok.mp h
    rfl
  | paren inner =>
    obtain ⟨_, _, _, _, rfl⟩ := checkExpr_paren_ok.mp h
    rfl
  | unary op operand =>
    obtain ⟨_, _, _, _, _, rfl⟩ := checkExpr_unary_ok.mp h
    rfl
  | binary op left right =>
    obtain ⟨_, _, _, _, _, _, _, _, _, _, rfl⟩ := checkExpr_binary_ok.mp h
    rfl
  | call callee arguments function =>
    obtain ⟨_, _, _, _, _, _, _, _, rfl⟩ := checkExpr_call_ok.mp h
    rfl

/-- Every index carries the type `int`. -/
theorem checkIndices_carry {es es' : List Expr} (h : checkIndices r c es = .ok es') :
    ∀ e ∈ es', e.Carries fun i => i.ty = .scalar .int32 := by
  induction es generalizing es' with
  | nil =>
    rw [checkIndices_nil_ok.mp h]
    simp
  | cons e es ih =>
    obtain ⟨d, i, ds, he, hindex, hes, rfl⟩ := checkIndices_cons_ok.mp h
    exact List.forall_mem_cons.mpr ⟨⟨i, checkExpr_info he, isIndex_iff.mp hindex⟩, ih hes⟩

/-- Every argument carries a type that its parameter takes. -/
theorem checkArguments_carry {es es' : List Expr} {callee : String} {index : Nat}
    {ps : List Parameter} (hlength : es.length = ps.length)
    (h : checkArguments r c callee index ps es = .ok es') :
    List.Forall₂ (fun p e => e.Carries fun j => p.ty.accepts j.ty = true) ps es' := by
  induction es generalizing es' index ps with
  | nil =>
    cases ps with
    | nil =>
      rw [checkArguments_nil_ok.mp h]
      exact .nil
    | cons p ps => exact absurd hlength (by simp)
  | cons e es ih =>
    cases ps with
    | nil => exact absurd hlength (by simp)
    | cons p ps =>
      obtain ⟨d, i, ds, he, haccepts, hes, rfl⟩ := checkArguments_cons_ok.mp h
      exact .cons ⟨i, checkExpr_info he, haccepts⟩ (ih (Nat.succ.inj hlength) hes)

/-- A variable that passes names an entry, and its type is that of the entry with its indices
taken off. -/
theorem checkLValue_typed {l l' : LValue} {ty : Ty} (h : checkLValue r c l = .ok (l', ty)) :
    ∃ y, r.Holds l'.symbol y ∧ ty = y.ty.indexed l'.indices.length ∧
      l'.indices.length ≤ y.ty.rank ∧ l'.assignable = y.isAssignable ∧
      ∀ e ∈ l'.indices, e.Carries fun i => i.ty = .scalar .int32 := by
  obtain ⟨id, name, indices, span, symbol, assignable⟩ := l
  obtain ⟨v, y, indices', _, hy, hrank, hindices, rfl, rfl⟩ := checkLValue_ok.mp h
  rw [← checkIndices_length hindices] at hrank ⊢
  exact ⟨y, ⟨v, rfl, hy⟩, rfl, hrank, rfl, checkIndices_carry hindices⟩

/-- An expression that passes is typed, form by form. -/
theorem checkExpr_typed {e e' : Expr} {negated : Bool} {i : ExprInfo} (hr : r.Indexed)
    (h : checkExpr r c negated e = .ok (e', i)) : e'.kind.Typed r i := by
  obtain ⟨id, kind, span, info⟩ := e
  cases kind with
  | number text kind =>
    obtain ⟨_, rfl, rfl⟩ := checkExpr_number_ok.mp h
    exact rfl
  | bool value =>
    obtain ⟨rfl, rfl⟩ := checkExpr_bool_ok.mp h
    exact rfl
  | lvalue l =>
    obtain ⟨l', ty, hl, rfl, rfl⟩ := checkExpr_lvalue_ok.mp h
    obtain ⟨y, hy, hty, _, hassign, _⟩ := checkLValue_typed hl
    exact ⟨y, hy, by rw [hty, hassign]⟩
  | paren inner =>
    obtain ⟨inner', i, hinner, rfl, rfl⟩ := checkExpr_paren_ok.mp h
    exact ⟨i, checkExpr_info hinner, rfl, rfl⟩
  | unary op operand =>
    obtain ⟨operand', i, hoperand, htakes, rfl, rfl⟩ := checkExpr_unary_ok.mp h
    exact ⟨i, checkExpr_info hoperand, checkOperand_ok.mpr htakes, rfl⟩
  | binary op left right =>
    obtain ⟨left', i, right', j, hleft, hright, hoperand, hsame, htakes, rfl, rfl⟩ :=
      checkExpr_binary_ok.mp h
    exact ⟨i, checkExpr_info hleft, j, checkExpr_info hright,
      checkOperands_ok.mpr ⟨hoperand, hsame, htakes⟩, rfl⟩
  | call callee arguments function =>
    obtain ⟨f, signature, arguments', hf, hsignature, hlength, hargs, rfl, rfl⟩ :=
      checkExpr_call_ok.mp h
    -- what is found under a name has that name
    obtain ⟨_, hfound, hname⟩ := (hr callee f).mp hf
    obtain rfl := Option.some.inj (hsignature.symm.trans hfound)
    exact ⟨f, signature, rfl, hsignature, hname, checkArguments_carry hlength hargs, rfl⟩

mutual

/-- The values in an initializer carry the basic type of the target, and are constant. -/
theorem checkInitializer_carry {target : Ty} :
    ∀ {x : Initializer} {depth : Nat} {x' : Initializer},
      checkInitializer r c target depth x = .ok x' →
      ∀ e ∈ x'.leaves, e.Carries fun i => i.ty = .scalar target.basic ∧ i.isConstant = true
  | .scalar _ _ _, _, _, h => by
    obtain ⟨value', i, _, hvalue, hty, hconst, rfl⟩ := checkInitializer_scalar_ok.mp h
    rw [Initializer.leaves]
    exact List.forall_mem_singleton.mpr ⟨i, checkExpr_info hvalue, hty, hconst⟩
  | .list _ _ _, _, _, h => by
    obtain ⟨_, _, items', _, _, hitems, rfl⟩ := checkInitializer_list_ok.mp h
    rw [Initializer.leaves]
    exact checkInitializers_carry hitems
termination_by structural x => x

theorem checkInitializers_carry {target : Ty} :
    ∀ {xs : List Initializer} {depth : Nat} {xs' : List Initializer},
      checkInitializers r c target depth xs = .ok xs' →
      ∀ e ∈ Initializer.allLeaves xs', e.Carries fun i =>
        i.ty = .scalar target.basic ∧ i.isConstant = true
  | [], _, _, h => by
    rw [checkInitializers_nil_ok.mp h, Initializer.allLeaves]
    simp
  | _ :: _, _, _, h => by
    obtain ⟨y, ys, hy, hys, rfl⟩ := checkInitializers_cons_ok.mp h
    rw [Initializer.allLeaves]
    exact List.forall_mem_append.mpr ⟨checkInitializer_carry hy, checkInitializers_carry hys⟩
termination_by structural xs => xs

end

end

/-! ## Declarations -/

/-- The handle of a new variable names it. -/
theorem register_holds {r r' : Registry} {c : ScopeId} {name : String} {y : Symbol} {v : SymbolId}
    (h : r.register c name y = .ok (v, r')) : r'.Holds (some v) y := by
  obtain ⟨_, _, _, _, rfl, rfl⟩ := Registry.register_ok.mp h
  exact ⟨_, rfl, Registry.bound_symbol?_new⟩

/-- What a definition shares with the others of its declaration is in the variable. -/
theorem varDef_holds {isConstant : Bool} {basic : BasicType} {d d' : VarDef} {s s' : State}
    (h : varDef isConstant basic d s = .ok d' s') :
    ∃ y, s'.registry.Holds d'.symbol y ∧ y.ty.basic = basic ∧ y.isConstant = isConstant := by
  obtain ⟨ty, init, v, r, hty, _, hreg, rfl, rfl⟩ := varDef_ok.mp h
  obtain ⟨ns, _, rfl⟩ := typeOf_ok.mp hty
  exact ⟨_, register_holds hreg, by rw [declaredSymbol_ty], declaredSymbol_isConstant _ _ _⟩

/-- The handles of the definitions name their variables, also after those that came later. -/
theorem varDefs_holds {isConstant : Bool} {basic : BasicType} :
    ∀ {ds ds' : List VarDef} {s s' : State}, varDefs isConstant basic ds s = .ok ds' s' →
      ∀ x ∈ ds', ∃ y, s'.registry.Holds x.symbol y ∧ y.ty.basic = basic ∧
        y.isConstant = isConstant
  | [], _, _, _, h => by
    rw [(varDefs_nil_ok.mp h).1]
    simp
  | _ :: ds, _, _, _, h => by
    obtain ⟨x, xs, s₁, hx, hxs, rfl⟩ := varDefs_cons_ok.mp h
    obtain ⟨y, hy, hshared⟩ := varDef_holds hx
    have hlater := (varDefs_keeps isConstant basic ds).below hxs
    exact List.forall_mem_cons.mpr ⟨⟨y, hy.mono hlater, hshared⟩, varDefs_holds hxs⟩

/-- A definition that passes is typed. -/
theorem varDef_typed {isConstant : Bool} {basic : BasicType} {d d' : VarDef} {s s' : State}
    (h : varDef isConstant basic d s = .ok d' s') : (Node.varDef d').Typed s'.registry := by
  obtain ⟨ty, init, v, r, hty, hinit, hreg, rfl, rfl⟩ := varDef_ok.mp h
  obtain ⟨ns, hns, rfl⟩ := typeOf_ok.mp hty
  -- the definition as it comes back declares the same variable
  have hsame : declaredSymbol isConstant { d with init, symbol := some v } ⟨basic, ns⟩ =
      declaredSymbol isConstant d ⟨basic, ns⟩ := by
    have hsome : init.isSome = d.init.isSome := by
      rcases rel_cases hinit with ⟨hd, rfl⟩ | ⟨_, _, hd, rfl, _⟩ <;> simp [hd]
    unfold declaredSymbol
    simp only [hsome]
  have hleaves : ∀ x ∈ init, ∀ e ∈ x.leaves, e.Carries fun i =>
      i.ty = .scalar basic ∧ i.isConstant = true := by
    rcases rel_cases hinit with ⟨_, rfl⟩ | ⟨x, x', _, rfl, hcheck⟩
    · simp
    · simpa using checkInitializer_carry hcheck
  refine ⟨⟨basic, ns⟩, isConstant, ?_, hns, hleaves⟩
  rw [hsame]
  exact register_holds hreg

/-- A declaration that passes is typed. -/
theorem decl_typed {d d' : Decl} {s s' : State} (h : decl d s = .ok d' s') :
    (Node.decl d').Typed s'.registry := by
  obtain ⟨defs, hdefs, rfl⟩ := decl_ok.mp h
  exact varDefs_holds hdefs

/-! ## Statements -/

/-- A return that passes is typed against the function around it. -/
theorem returning_typed {id : NodeId} {span : Span} {value : Option Expr} {k : StmtKind}
    {s s' : State} (h : returning id span value s = .ok k s') : k.Typed s'.registry := by
  cases value with
  | none =>
    obtain ⟨f, signature, _, hsignature, hvoid, rfl, rfl⟩ := returning_none_ok.mp h
    exact ⟨f, signature, rfl, hsignature, hvoid⟩
  | some e =>
    obtain ⟨f, signature, e', i, _, hsignature, hvoid, he, hty, rfl, rfl⟩ :=
      returning_some_ok.mp h
    exact ⟨f, signature, rfl, hsignature, hvoid, i, checkExpr_info he, hty⟩

/-- A statement that passes is typed, form by form. -/
theorem stmt_typed {t t' : Stmt} {s s' : State} (h : stmt t s = .ok t' s') :
    t'.kind.Typed s'.registry := by
  obtain ⟨id, kind, span, hasReturn⟩ := t
  cases kind with
  | assign target value =>
    obtain ⟨target', value', i, htarget, hassign, hvalue, rfl, rfl⟩ := stmt_assign_ok.mp h
    obtain ⟨y, hy, hty, _, hy', _⟩ := checkLValue_typed htarget
    -- only a variable that is no constant passes as a target
    have hconst : y.isConstant = false := by simpa [hassign, Symbol.isAssignable] using hy'
    exact ⟨y, hy, hconst, i, checkExpr_info hvalue, hty⟩
  | expr value =>
    cases value with
    | none =>
      obtain ⟨rfl, rfl⟩ := stmt_empty_ok.mp h
      trivial
    | some value =>
      obtain ⟨_, _, _, rfl, rfl⟩ := stmt_expr_ok.mp h
      trivial
  | block b =>
    obtain ⟨_, _, rfl⟩ := stmt_block_ok.mp h
    trivial
  | cond test thenBranch elseBranch =>
    cases elseBranch with
    | none =>
      obtain ⟨test', i, _, htest, hbool, _, rfl⟩ := stmt_if_ok.mp h
      exact ⟨i, checkExpr_info htest, hbool⟩
    | some elseBranch =>
      obtain ⟨test', i, _, _, _, htest, hbool, _, _, rfl⟩ := stmt_ifElse_ok.mp h
      exact ⟨i, checkExpr_info htest, hbool⟩
  | loop test body =>
    obtain ⟨test', i, _, _, htest, hbool, _, rfl, rfl⟩ := stmt_loop_ok.mp h
    exact ⟨i, checkExpr_info htest, hbool⟩
  | leave target =>
    obtain ⟨loop, _, rfl, rfl⟩ := stmt_leave_ok.mp h
    exact rfl
  | next target =>
    obtain ⟨loop, _, rfl, rfl⟩ := stmt_next_ok.mp h
    exact rfl
  | ret value function =>
    obtain ⟨k, hk, rfl⟩ := stmt_ret_ok.mp h
    exact returning_typed hk

theorem inScope_isSome (s : State) :
    (s.inScope.registry.scope? ⟨s.registry.scopes.size⟩).isSome = true := by
  show ((s.registry.pushScope (some s.context.scope)).2.scope? _).isSome = true
  rw [Registry.pushScope_scope?_new]
  rfl

/-- A block that passes names its scope. -/
theorem block_typed {b b' : Block} {s s' : State} (h : block b s = .ok b' s') :
    (Node.block b').Typed s'.registry := by
  obtain ⟨id, items, span, scope, hasReturn⟩ := b
  obtain ⟨items', _, s₁, hitems, rfl, rfl⟩ := block_ok.mp h
  have hlater := (blockItems_keeps items).below hitems
  exact ⟨_, rfl, hlater.scope (inScope_isSome s)⟩

/-! ## Functions and programs -/

/-- The handle of a parameter names it. -/
theorem param_holds {function : FunctionId} {p p' : Param} {ty : Ty} {s s' : State}
    (hty : typeOf p.basic p.dims p.isOpen p.id = .ok ty) (h : param function p s = .ok p' s') :
    p'.name = p.name ∧ s'.registry.Holds p'.symbol (.ofParameter p.name ty) := by
  obtain ⟨ty', r₁, v, r₂, hty', _, hreg, rfl, rfl⟩ := param_ok.mp h
  obtain rfl := Except.ok.inj (hty.symm.trans hty')
  exact ⟨rfl, register_holds hreg⟩

theorem param_typed {function : FunctionId} {p p' : Param} {s s' : State}
    (h : param function p s = .ok p' s') : (Node.param p').Typed s'.registry := by
  obtain ⟨ty, r₁, v, r₂, hty, _, hreg, rfl, rfl⟩ := param_ok.mp h
  obtain ⟨ns, hns, rfl⟩ := typeOf_ok.mp hty
  exact ⟨_, register_holds hreg, rfl, ns, hns, rfl⟩

/-- Each parameter declares a variable of the type that the function has for it. -/
theorem params_holds {function : FunctionId} :
    ∀ {ps ps' : List Param} {tys : List Ty} {s s' : State},
      List.Forall₂ (fun p ty => typeOf p.basic p.dims p.isOpen p.id = .ok ty) ps tys →
      params function ps s = .ok ps' s' →
      List.Forall₂ (fun p q => q.name = p.name ∧
        s'.registry.Holds p.symbol (.ofParameter p.name q.ty)) ps' (declaredParameters ps tys)
  | [], _, _, _, _, htys, h => by
    rw [(params_nil_ok.mp h).1]
    cases htys
    exact .nil
  | p :: ps, _, _, s, s', .cons hty htys, h => by
    obtain ⟨x, xs, s₁, hx, hxs, rfl⟩ := params_cons_ok.mp h
    obtain ⟨hname, v, hv, hy⟩ := param_holds hty hx
    rw [← hname] at hy
    exact .cons ⟨hname.symm, v, hv, params_symbol hxs hy⟩ (params_holds htys hxs)

/-- A function definition that passes names its function, which has the types that
were written. -/
theorem funcDef_typed {f f' : FuncDef} {s s' : State} (h : funcDef f s = .ok f' s') :
    (Node.func f').Typed s'.registry := by
  obtain ⟨_, _, ps, s₁, body, s₂, hps, hbody, rfl, rfl⟩ := funcDef_ok.mp h
  obtain ⟨tys, htys, hparams⟩ := inFunction_grows hps
  have hlater := (block_keeps f.body).below hbody
  have hfunction : s₁.registry.function? ⟨s.registry.functions.size⟩ =
      some (declaredSignature f tys) := by
    rw [Registry.function?, hparams.functions]
    exact Array.getElem?_push_size
  have hscope : (s₂.registry.scope? ⟨s.registry.scopes.size⟩).isSome = true :=
    hlater.scope (hparams.below.scope (inScope_isSome s))
  exact ⟨_, _, declaredSignature f tys, rfl, hlater.function hfunction, rfl, hscope, rfl, rfl,
    (params_holds htys hps).imp fun _ _ hpq => ⟨hpq.1, hpq.2.mono hlater⟩⟩

/-- What a check gives satisfies its rule in the registry that the check leaves. -/
theorem Gives.typed {s s' : State} {n : Node} (hs : s.registry.Indexed) (h : Gives s n s') :
    n.Typed s'.registry := by
  cases h with
  | expr h => exact ⟨_, checkExpr_info h, checkExpr_typed hs h⟩
  | lvalue h =>
    obtain ⟨y, hy, _, hrank, hassign, hint⟩ := checkLValue_typed h
    exact ⟨y, hy, hrank, hassign, hint⟩
  | init h => trivial
  | varDef h => exact varDef_typed h
  | decl h => exact decl_typed h
  | param h => exact param_typed h
  | stmt h => exact stmt_typed h
  | block h => exact block_typed h
  | func h => exact funcDef_typed h

/-- Whatever is visited is typed when its visit ends, and stays so. -/
theorem Visit.typed {final : Registry} {place : Place} {n : Node} {s s' : State}
    (h : Visit final place n s s') : n.Typed final := by
  have htyped := h.gives.typed h.place.indexed
  cases n with
  | param p =>
    -- only the variable of a parameter counts, not the function that is being declared
    obtain ⟨ty, ⟨v, hv, hy⟩, hrest⟩ := htyped
    exact ⟨ty, ⟨v, hv, h.symbol hy⟩, hrest⟩
  | _ => exact htyped.mono (h.below (by simp))

/-- **The output contract.** The tree of an accepted program is the tree that was
checked. Each of its nodes is fully annotated, with handles that name entries of the
final registry, and satisfies its typing rule there. -/
theorem typeCheck_typed {withBuiltins : Bool} {p p' : Program} {r : Registry}
    (h : typeCheck withBuiltins p = (.ok p', r)) :
    p'.erase = p.erase ∧ ∀ n ∈ p'.nodes, n.Typed r := by
  refine ⟨typeCheck_erase h, ?_⟩
  intro n hn
  rw [← p'.map_places] at hn
  obtain ⟨x, hx, rfl⟩ := List.mem_map.mp hn
  obtain ⟨s, s', hvisit⟩ := typeCheck_visited h x hx
  exact hvisit.typed

theorem typeCheck_typed_sample :
    ∃ p p' r, readSource? sampleSource = some p ∧ typeCheck true p = (.ok p', r) ∧
      p'.erase = p.erase ∧ ∀ n ∈ p'.nodes, n.Typed r := by
  obtain ⟨p, p', r, hp, h⟩ := typeCheck_sampleSource
  exact ⟨p, p', r, hp, h, typeCheck_typed h⟩

end Typing

end CactLang
