import CactLang.Proofs.Erasure
import CactLang.Proofs.InPlace.Annotate

/-!
# Annotations are written and never read

Nothing that a tree knew before it is checked has any bearing on the check: a tree and the same
tree with its annotations erased fail alike, or are accepted alike with the same annotations.
So a tree that was accepted is accepted again as it came back, and nothing on it changes.

> `typeCheck_onlyAnnotates`: of every tree, annotated in any way. What the check leaves, also
> when it fails, differs from it in annotations only; and the outcome depends on it without its
> annotations only.
-/

namespace CactLang

/-! ## What erasing keeps -/

@[simp] theorem Expr.id_erase (e : Expr) : e.erase.id = e.id := by
  obtain ⟨id, kind, span, info⟩ := e
  cases kind <;> rfl

@[simp] theorem Expr.span_erase (e : Expr) : e.erase.span = e.span := by
  obtain ⟨id, kind, span, info⟩ := e
  cases kind <;> rfl

theorem Expr.eraseAll_eq_map (es : List Expr) : Expr.eraseAll es = es.map Expr.erase := by
  induction es with
  | nil => rfl
  | cons e es ih => rw [Expr.eraseAll, ih, List.map_cons]

theorem Initializer.eraseAll_eq_map (xs : List Initializer) :
    Initializer.eraseAll xs = xs.map Initializer.erase := by
  induction xs with
  | nil => rfl
  | cons x xs ih => rw [Initializer.eraseAll, ih, List.map_cons]

@[simp] theorem Initializer.isScalar_erase (x : Initializer) :
    x.erase.isScalar = x.isScalar := by
  cases x <;> rfl

namespace Typing

/-! ## Expressions and initializers -/

/-- A function is found by its name and the number of arguments. -/
theorem functionOf_of_erase {r : Registry} {id : NodeId} {span : Span} {callee : String}
    {es : List Expr} :
    functionOf r id span callee (Expr.eraseAll es) = functionOf r id span callee es := by
  unfold functionOf
  refine bind_congr fun function => bind_congr fun signature => ?_
  dsimp only
  rw [Expr.eraseAll_eq_map, ← List.map_drop, List.length_map]
  cases es.drop signature.parameters.length with
  | nil => rfl
  | cons extra rest => simp only [List.map_cons, Expr.id_erase, Expr.span_erase]

mutual

/-- Annotations of an expression are overwritten without being read. -/
theorem checkExpr_of_erase {r : Registry} {scope : ScopeId} : ∀ (e : Expr) (negated : Bool),
    checkExpr r scope negated e.erase = checkExpr r scope negated e
  | ⟨_, .number _ _, _, _⟩, _ => by
    simp only [Expr.erase, Expr.plain, checkExpr]
  | ⟨_, .bool _, _, _⟩, _ => by
    simp only [Expr.erase, Expr.plain, checkExpr]
  | ⟨_, .lvalue l, _, _⟩, _ => by
    simp only [Expr.erase, Expr.plain, checkExpr, checkLValue_of_erase l]
  | ⟨_, .paren inner, _, _⟩, _ => by
    simp only [Expr.erase, Expr.plain, checkExpr, checkExpr_of_erase inner]
  | ⟨_, .unary _ operand, _, _⟩, _ => by
    simp only [Expr.erase, Expr.plain, checkExpr, checkExpr_of_erase operand]
  | ⟨_, .binary _ left right, _, _⟩, _ => by
    simp only [Expr.erase, Expr.plain, checkExpr, checkExpr_of_erase left,
      checkExpr_of_erase right]
  | ⟨_, .call callee es _, _, _⟩, _ => by
    simp only [Expr.erase, Expr.plain, checkExpr_call_eq, functionOf_of_erase,
      checkArguments_of_erase callee es]
  termination_by structural e => e

theorem checkLValue_of_erase {r : Registry} {scope : ScopeId} : ∀ l : LValue,
    checkLValue r scope l.erase = checkLValue r scope l
  | ⟨_, _, es, _, _, _⟩ => by
    have hlength : (Expr.eraseAll es).length = es.length := by
      rw [Expr.eraseAll_eq_map, List.length_map]
    simp only [LValue.erase, LValue.plain, checkLValue, checkIndices_of_erase es, hlength]
  termination_by structural l => l

theorem checkIndices_of_erase {r : Registry} {scope : ScopeId} : ∀ es : List Expr,
    checkIndices r scope (Expr.eraseAll es) = checkIndices r scope es
  | [] => rfl
  | e :: es => by
    simp only [Expr.eraseAll, checkIndices, checkExpr_of_erase e, checkIndices_of_erase es,
      Expr.id_erase, Expr.span_erase]
  termination_by structural es => es

theorem checkArguments_of_erase {r : Registry} {scope : ScopeId} (callee : String) :
    ∀ (es : List Expr) (ps : List Parameter) (index : Nat),
      checkArguments r scope callee index ps (Expr.eraseAll es) =
        checkArguments r scope callee index ps es
  | [], _, _ => rfl
  | _ :: _, [], _ => rfl
  | e :: es, _ :: ps, index => by
    simp only [Expr.eraseAll, checkArguments, checkExpr_of_erase e,
      checkArguments_of_erase callee es ps, Expr.id_erase, Expr.span_erase]
  termination_by structural es => es

end

/-- The depth of items is a matter of their shape. -/
theorem itemDepth_of_erase {target : Ty} {depth extent : Nat} {xs : List Initializer} :
    itemDepth target depth extent (Initializer.eraseAll xs) =
      itemDepth target depth extent xs := by
  have hall : (Initializer.eraseAll xs).all Initializer.isScalar =
      xs.all Initializer.isScalar := by
    rw [Initializer.eraseAll_eq_map, List.all_map]
    exact congrArg xs.all (funext Initializer.isScalar_erase)
  unfold itemDepth
  rw [hall, Initializer.eraseAll_eq_map, List.length_map]

mutual

/-- Annotations of initial values are overwritten without being read. -/
theorem checkInitializer_of_erase {r : Registry} {scope : ScopeId} {target : Ty} :
    ∀ (x : Initializer) (depth : Nat),
      checkInitializer r scope target depth x.erase = checkInitializer r scope target depth x
  | .scalar _ value _, _ => by
    simp only [Initializer.erase, checkInitializer, checkExpr_of_erase value, Expr.id_erase,
      Expr.span_erase]
  | .list _ items _, _ => by
    simp only [Initializer.erase, checkInitializer, itemDepth_of_erase,
      checkInitializers_of_erase items]

theorem checkInitializers_of_erase {r : Registry} {scope : ScopeId} {target : Ty} :
    ∀ (xs : List Initializer) (depth : Nat),
      checkInitializers r scope target depth (Initializer.eraseAll xs) =
        checkInitializers r scope target depth xs
  | [], _ => rfl
  | x :: xs, _ => by
    simp only [Initializer.eraseAll, checkInitializers, checkInitializer_of_erase x,
      checkInitializers_of_erase xs]

end

/-! ## Declarations -/

/-- Annotations of a definition are overwritten without being read. -/
theorem varDef_of_erase (isConstant : Bool) (basic : BasicType) (d : VarDef) :
    varDef isConstant basic d.erase = varDef isConstant basic d := by
  obtain ⟨id, name, dims, init, span, symbol⟩ := d
  cases init with
  | none => rfl
  | some init =>
    unfold varDef initializer
    simp only [VarDef.erase, Option.map_some, checkInitializer_of_erase]
    rfl

theorem varDefs_of_erase (isConstant : Bool) (basic : BasicType) (ds : List VarDef) :
    varDefs isConstant basic (ds.map VarDef.erase) = varDefs isConstant basic ds := by
  induction ds with
  | nil => rfl
  | cons d ds ih => rw [List.map_cons, varDefs, varDefs, varDef_of_erase, ih]

theorem decl_of_erase (d : Decl) : decl d.erase = decl d := by
  unfold decl Decl.erase
  simp only [varDefs_of_erase]

theorem params_of_erase (function : FunctionId) (ps : List Param) :
    params function (ps.map Param.erase) = params function ps := by
  induction ps with
  | nil => rfl
  | cons p ps ih =>
    rw [List.map_cons, params, params, ih]
    rfl

/-! ## Statements and programs -/

theorem expr_of_erase (e : Expr) : expr e.erase = expr e := by
  unfold expr
  simp only [checkExpr_of_erase]

theorem condition_of_erase (e : Expr) : condition e.erase = condition e := by
  unfold condition
  rw [expr_of_erase, Expr.id_erase, Expr.span_erase]

theorem assignment_of_erase (target : LValue) (value : Expr) :
    assignment target.erase value.erase = assignment target value := by
  have hid : target.erase.id = target.id := by cases target; rfl
  have hname : target.erase.name = target.name := by cases target; rfl
  have hspan : target.erase.span = target.span := by cases target; rfl
  unfold assignment lvalue
  simp only [checkLValue_of_erase, expr_of_erase, Expr.id_erase, Expr.span_erase, hid, hname,
    hspan]

mutual

/-- Annotations of a statement are overwritten without being read. -/
theorem stmt_of_erase : ∀ t : Stmt, stmt t.erase = stmt t
  | ⟨_, .assign target value, _, _⟩ => by
    simp only [Stmt.erase, Stmt.plain, stmt, assignment_of_erase]
  | ⟨_, .expr none, _, _⟩ => by
    simp only [Stmt.erase, Stmt.plain, Option.map_none, stmt]
  | ⟨_, .expr (some value), _, _⟩ => by
    simp only [Stmt.erase, Stmt.plain, Option.map_some, stmt, expr_of_erase]
  | ⟨_, .block b, _, _⟩ => by
    simp only [Stmt.erase, Stmt.plain, stmt, block_of_erase b]
  | ⟨_, .cond test thenBranch none, _, _⟩ => by
    simp only [Stmt.erase, Stmt.plain, stmt, condition_of_erase, stmt_of_erase thenBranch]
  | ⟨_, .cond test thenBranch (some elseBranch), _, _⟩ => by
    simp only [Stmt.erase, Stmt.plain, stmt, condition_of_erase, stmt_of_erase thenBranch,
      stmt_of_erase elseBranch]
  | ⟨_, .loop test body, _, _⟩ => by
    simp only [Stmt.erase, Stmt.plain, stmt, condition_of_erase, stmt_of_erase body]
  | ⟨_, .leave _, _, _⟩ => by
    simp only [Stmt.erase, Stmt.plain, stmt]
  | ⟨_, .next _, _, _⟩ => by
    simp only [Stmt.erase, Stmt.plain, stmt]
  | ⟨_, .ret none _, _, _⟩ => by
    simp only [Stmt.erase, Stmt.plain, Option.map_none, stmt]
  | ⟨_, .ret (some e) _, _, _⟩ => by
    simp only [Stmt.erase, Stmt.plain, Option.map_some, stmt, returning, expr_of_erase,
      Expr.id_erase, Expr.span_erase]

theorem block_of_erase : ∀ b : Block, block b.erase = block b
  | ⟨_, items, _, _, _⟩ => by
    simp only [Block.erase, Block.plain, block, blockItems_of_erase items]

theorem blockItems_of_erase : ∀ items : List BlockItem,
    blockItems (BlockItem.eraseAll items) = blockItems items
  | [] => rfl
  | .decl d :: rest => by
    simp only [BlockItem.eraseAll, blockItems, decl_of_erase, blockItems_of_erase rest]
  | .stmt t :: rest => by
    simp only [BlockItem.eraseAll, blockItems, stmt_of_erase t, blockItems_of_erase rest]

end

/-- Annotations of a function definition are overwritten without being read. -/
theorem funcDef_of_erase (f : FuncDef) : funcDef f.erase = funcDef f := by
  unfold funcDef FuncDef.erase
  simp only [params_of_erase, block_of_erase]
  rfl

/-- Annotations of a program are overwritten without being read. -/
theorem items_of_erase (is : List Item) : items (is.map Item.erase) = items is := by
  induction is with
  | nil => rfl
  | cons i is ih =>
    cases i with
    | decl d => simp only [List.map_cons, Item.erase, items, decl_of_erase, ih]
    | func f => simp only [List.map_cons, Item.erase, items, funcDef_of_erase, ih]

/-- A program is checked as if nothing were known about it. -/
theorem typeCheck_of_erase (withBuiltins : Bool) (p : Program) :
    typeCheck withBuiltins p.erase = typeCheck withBuiltins p := by
  have hprogram : program p.erase = program p := by
    unfold program Program.erase
    simp only [items_of_erase]
  unfold typeCheck
  rw [hprogram]
  rfl

/-- **The check only annotates, and never reads annotations.** For every tree, annotated in any
way or not: the tree that is left has the same content, however the check goes; checking in
place is the check that runs; every tree of the same content has the same failure or the same
annotations, and the same registry; and an accepted tree comes back unchanged when it is
checked again. -/
theorem typeCheck_onlyAnnotates (withBuiltins : Bool) (t : Program) :
    let left := annotate withBuiltins t
    left.1.erase = t.erase ∧
      typeCheck withBuiltins t = (left.2.1.map fun _ => left.1, left.2.2) ∧
      (∀ u : Program, u.erase = t.erase → typeCheck withBuiltins u = typeCheck withBuiltins t) ∧
      ∀ t' r, typeCheck withBuiltins t = (.ok t', r) →
        typeCheck withBuiltins t' = (.ok t', r) := by
  have hsame : ∀ u : Program, u.erase = t.erase →
      typeCheck withBuiltins u = typeCheck withBuiltins t := by
    intro u h
    rw [← typeCheck_of_erase withBuiltins u, h, typeCheck_of_erase]
  refine ⟨annotate_erase withBuiltins t, typeCheck_eq_annotate withBuiltins t, hsame, ?_⟩
  intro t' r h
  rw [hsame t' (typeCheck_erase h)]
  exact h

/-- A program with loops, calls and shadowed names, and the same program with its annotations:
they are checked alike. -/
theorem typeCheck_onlyAnnotates_sampleSource :
    ∃ p p' r, readSource? sampleSource = some p ∧ typeCheck true p = (.ok p', r) ∧
      typeCheck true p' = typeCheck true p ∧ typeCheck true p' = (.ok p', r) := by
  obtain ⟨p, p', r, hp, h⟩ := typeCheck_sampleSource
  obtain ⟨_, _, hsame, hagain⟩ := typeCheck_onlyAnnotates true p
  exact ⟨p, p', r, hp, h, hsame p' (typeCheck_erase h), hagain p' r h⟩

end Typing

end CactLang
