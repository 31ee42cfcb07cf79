import CactLang.Proofs.Accepted.Statement
import CactLang.Proofs.InPlace.Pass

/-!
# What a pass in place does and leaves

`typeCheck_eq_annotate` says that checking in place is the check that runs, with the same
failures, the same registry, and the same tree on success. `annotate_erase` says of every run,
failed or not, that the tree left is the tree that was there, but for its annotations.
-/

namespace CactLang.Typing

/-! ## Checks put together -/

/-- The variable is found first, and then the indices are checked. -/
theorem checkLValue_eq {r : Registry} {scope : ScopeId} {l : LValue} :
    checkLValue r scope l = (do
      let found ← variableOf r scope l
      let indices ← checkIndices r scope l.indices
      return ({ l with indices, symbol := some found.1, assignable := found.2.isAssignable },
        found.2.ty.indexed l.indices.length)) := by
  obtain ⟨id, name, indices, span, symbol, assignable⟩ := l
  rw [checkLValue, variableOf]
  simp only [bind_assoc]
  refine bind_congr fun symbolId => bind_congr fun symbol => ?_
  split <;> rfl

/-- The function is found and the arguments are counted first, and then they are checked. -/
theorem checkExpr_call_eq {r : Registry} {scope : ScopeId} {negated : Bool} {id : NodeId}
    {callee : String} {arguments : List Expr} {function : Option FunctionId} {span : Span}
    {info : Option ExprInfo} :
    checkExpr r scope negated ⟨id, .call callee arguments function, span, info⟩ = (do
      let found ← functionOf r id span callee arguments
      let arguments ← checkArguments r scope callee 0 found.2.parameters arguments
      return noted id (.call callee arguments (some found.1)) span
        ⟨found.2.returns, false, false⟩) := by
  rw [checkExpr, functionOf]
  simp only [bind_assoc]
  refine bind_congr fun function => bind_congr fun signature => ?_
  cases arguments.drop signature.parameters.length with
  | cons extra rest => rfl
  | nil =>
    by_cases h : arguments.length < signature.parameters.length
    · simp only [if_pos h]
      rfl
    · simp only [if_neg h, pure_bind]

/-- A function found takes as many arguments. -/
theorem functionOf_length {r : Registry} {id : NodeId} {span : Span} {callee : String}
    {arguments : List Expr} {found : FunctionId × Signature}
    (h : functionOf r id span callee arguments = .ok found) :
    arguments.length = found.2.parameters.length := by
  simp only [functionOf, bind_ok] at h
  obtain ⟨function, _, signature, _, h⟩ := h
  -- too many arguments and too few are refused by two tests
  cases hdrop : arguments.drop signature.parameters.length with
  | cons extra rest =>
    rw [hdrop] at h
    exact absurd h (by simp)
  | nil =>
    have hle := List.drop_eq_nil_iff.mp hdrop
    rw [hdrop] at h
    by_cases hlt : arguments.length < signature.parameters.length
    · rw [if_pos hlt] at h
      exact absurd h (by simp)
    · rw [if_neg hlt, pure_ok] at h
      rw [← h]
      exact Nat.le_antisymm hle (Nat.not_lt.mp hlt)

/-- Looking twice in a row is looking once. -/
theorem Check.look_bind {α β : Type} (f : Registry → Context → Except Failure α)
    (g : α → Registry → Context → Except Failure β) :
    Check.look (fun r context => f r context >>= fun a => g a r context) =
      Check.look f >>= fun a => Check.look (g a) := by
  funext s
  show Check.look _ s = EStateM.bind (Check.look f) (fun a => Check.look (g a)) s
  unfold Check.look EStateM.bind
  dsimp only
  cases f s.registry s.context <;> rfl

/-- What follows a look may rely on what was seen. -/
theorem Check.look_bind_congr {α β : Type} {f : Registry → Context → Except Failure α}
    {g h : α → Check β} (heq : ∀ r context a, f r context = .ok a → g a = h a) :
    (Check.look f >>= g) = Check.look f >>= h := by
  funext s
  show EStateM.bind (Check.look f) g s = EStateM.bind (Check.look f) h s
  unfold Check.look EStateM.bind
  dsimp only
  cases hf : f s.registry s.context with
  | ok a => exact congrFun (heq _ _ a hf) s
  | error e => rfl

section

variable {α β : Type} {part : Check α} {g : α → β}

/-- What is made of a value does not depend on the context it is checked in. -/
theorem Check.within_map {enter : Context → Context} {leave : Context → Context → Context} :
    Check.within enter leave (part >>= fun a => pure (g a)) =
      Check.within enter leave part >>= fun a => pure (g a) := by
  funext s
  show Check.within enter leave (EStateM.bind part fun a => pure (g a)) s =
    EStateM.bind (Check.within enter leave part) (fun a => pure (g a)) s
  unfold Check.within EStateM.bind
  dsimp only
  cases part { s with context := enter s.context } <;> rfl

/-- What is made of a value does not depend on the scope it is checked in. -/
theorem Check.inScope_map :
    Check.inScope (part >>= fun a => pure (g a)) =
      Check.inScope part >>= fun x => pure (x.1, g x.2) := by
  unfold Check.inScope
  simp only [Check.within_map, bind_assoc, pure_bind]

end

/-! ## The same check -/

namespace InPlace

/-- Writing the type on a node is the last step of its check. -/
theorem toCheck_note {e : Expr} {found : Except Failure ExprInfo} :
    (note e found).toCheck Prod.mk =
      .look fun _ _ => found >>= fun info => pure ({ e with info := some info }, info) := by
  unfold note
  rw [toCheck_step]
  cases found <;> rfl

mutual

/-- Checking an expression in place is checking it. -/
theorem toCheck_expr : ∀ (e : Expr) (negated : Bool), (expr negated e).toCheck Prod.mk =
    .look fun r context => checkExpr r context.scope negated e
  | ⟨id, .number text kind, span, info⟩, negated => by
    simp only [expr, checkExpr, toCheck_note]
    by_cases h : isLiteral kind negated text.toList
    · simp only [if_pos h]
      rfl
    · simp only [if_neg h]
      rfl
  | ⟨id, .bool value, span, info⟩, _ => by
    simp only [expr, checkExpr, toCheck_note]
    rfl
  | ⟨id, .lvalue l, span, info⟩, _ => by
    simp only [expr, checkExpr, toCheck_inside, toCheck_lvalue l, toCheck_note, Check.look_bind]
    rfl
  | ⟨id, .paren inner, span, info⟩, _ => by
    simp only [expr, checkExpr, toCheck_inside, toCheck_expr inner, toCheck_note,
      Check.look_bind, bind_assoc]
    rfl
  | ⟨id, .unary operator operand, span, info⟩, _ => by
    simp only [expr, checkExpr, toCheck_inside, toCheck_expr operand, toCheck_note,
      Check.look_bind, bind_assoc]
    rfl
  | ⟨id, .binary operator left right, span, info⟩, _ => by
    simp only [expr, checkExpr, toCheck_inside, toCheck_expr left, toCheck_expr right,
      toCheck_note, Check.look_bind, bind_assoc]
    rfl
  | ⟨id, .call callee arguments function, span, info⟩, _ => by
    simp only [expr, checkExpr_call_eq, toCheck_step, toCheck_inside_tree, toCheck_note,
      Check.look_bind]
    refine Check.look_bind_congr fun r context found hfound => ?_
    rw [tree_arguments callee arguments found.2.parameters 0 (functionOf_length hfound)]
    rfl
  termination_by structural e => e

theorem toCheck_lvalue : ∀ l : LValue, (lvalue l).toCheck Prod.mk =
    .look fun r context => checkLValue r context.scope l
  | ⟨id, name, indices, span, symbol, assignable⟩ => by
    simp only [lvalue, checkLValue_eq, toCheck_step, toCheck_inside_tree, tree_indices indices,
      toCheck_done, Check.look_bind]
    rfl
  termination_by structural l => l

theorem tree_indices : ∀ es : List Expr, (indices es).tree =
    .look fun r context => checkIndices r context.scope es
  | [] => rfl
  | e :: es => by
    rw [indices, tree, toCheck_inside, toCheck_expr e]
    simp only [checkIndices, Check.look_bind]
    refine bind_congr fun x => ?_
    rw [toCheck_step, toCheck_inside_tree, tree_indices es]
    by_cases h : x.2.ty.isIndex
    · simp only [if_pos h, pure_bind, Check.look_bind]
      rfl
    · simp only [if_neg h]
      rfl
  termination_by structural es => es

/-- As many arguments as parameters are checked in pairs. A call with another number of them is
refused before. -/
theorem tree_arguments (callee : String) : ∀ (es : List Expr) (ps : List Parameter) (index : Nat),
    es.length = ps.length → (arguments callee index ps es).tree =
      .look fun r context => checkArguments r context.scope callee index ps es
  | [], [], _, _ => rfl
  | [], _ :: _, _, hlength => absurd hlength (by simp)
  | _ :: _, [], _, hlength => absurd hlength (by simp)
  | e :: es, p :: ps, index, hlength => by
    rw [arguments, tree, toCheck_inside, toCheck_expr e]
    simp only [checkArguments, Check.look_bind]
    refine bind_congr fun x => ?_
    rw [toCheck_step, toCheck_inside_tree,
      tree_arguments callee es ps (index + 1) (by simpa using hlength)]
    by_cases h : p.ty.accepts x.2.ty
    · simp only [if_pos h, pure_bind, Check.look_bind]
      rfl
    · simp only [if_neg h]
      rfl
  termination_by structural es => es

end

mutual

/-- Checking initial values in place is checking them. -/
theorem tree_initializer (target : Ty) : ∀ (x : Initializer) (depth : Nat),
    (initializer target depth x).tree =
      .look fun r context => checkInitializer r context.scope target depth x
  | .scalar id value span, depth => by
    rw [initializer, tree, toCheck_step]
    by_cases hdepth : depth ≠ target.rank
    · simp only [checkInitializer, if_pos hdepth]
      rfl
    · simp only [checkInitializer, if_neg hdepth, pure_bind, toCheck_inside, toCheck_expr value,
        Check.look_bind]
      refine bind_congr fun x => ?_
      rw [toCheck_step]
      by_cases hty : x.2.ty ≠ Ty.scalar target.basic
      · simp only [if_pos hty]
        rfl
      · by_cases hconstant : !x.2.isConstant
        · simp only [if_neg hty, if_pos hconstant]
          rfl
        · simp only [if_neg hty, if_neg hconstant]
          rfl
  | .list id items span, depth => by
    rw [initializer, tree, toCheck_step]
    simp only [checkInitializer, toCheck_inside_tree, tree_initializers target items]
    cases target.dims[depth]? with
    | none => rfl
    | some extent =>
      simp only [Check.look_bind]
      rfl

theorem tree_initializers (target : Ty) : ∀ (xs : List Initializer) (depth : Nat),
    (initializers target depth xs).tree =
      .look fun r context => checkInitializers r context.scope target depth xs
  | [], _ => rfl
  | x :: xs, depth => by
    rw [initializers, tree, toCheck_inside_tree, tree_initializer target x depth]
    simp only [checkInitializers, toCheck_inside_tree, tree_initializers target xs depth,
      Check.look_bind]
    rfl

end

/-- Checking a definition in place is checking it. -/
theorem tree_varDef (isConstant : Bool) (basic : BasicType) (d : VarDef) :
    (varDef isConstant basic d).tree = Typing.varDef isConstant basic d := by
  obtain ⟨id, name, dims, init, span, symbol⟩ := d
  rw [varDef, tree, toCheck_step, Typing.varDef]
  refine bind_congr fun ty => ?_
  cases init with
  | none =>
    simp only [toCheck_step, pure_bind]
    rfl
  | some init =>
    simp only [toCheck_inside_tree, tree_initializer, toCheck_step, map_eq_pure_bind, bind_assoc,
      pure_bind]
    rfl

/-- Checking a declaration in place is checking it. -/
theorem tree_decl (d : Decl) : (decl d).tree = Typing.decl d := by
  have hdefs : ∀ ds : List VarDef, (each (varDef d.isConstant d.basic) ds).tree =
      varDefs d.isConstant d.basic ds := by
    intro ds
    induction ds with
    | nil => rfl
    | cons x xs ih => rw [tree_each, tree_varDef, ih, varDefs]
  rw [decl, tree, toCheck_inside_tree, hdefs, Typing.decl]
  rfl

/-- Checking a parameter in place is checking it. -/
theorem tree_param (function : FunctionId) (p : Param) :
    (param function p).tree = Typing.param function p := by
  simp only [param, tree, toCheck_step, Typing.param]
  rfl

theorem tree_params (function : FunctionId) (ps : List Param) :
    (each (param function) ps).tree = params function ps := by
  induction ps with
  | nil => rfl
  | cons x xs ih => rw [tree_each, tree_param, ih, params]

theorem tree_condition (e : Expr) : (condition e).tree = Typing.condition e := by
  rw [condition, tree, toCheck_inside, toCheck_expr, Typing.condition]
  refine bind_congr fun x => ?_
  rw [toCheck_step]
  by_cases h : x.2.ty = Ty.scalar .bool
  · simp only [if_pos h]
    rfl
  · simp only [if_neg h]
    rfl

mutual

/-- Checking a statement in place is checking it, form by form. -/
theorem tree_stmt : ∀ t : Stmt, (stmt t).tree = Typing.stmt t
  | ⟨id, .assign target value, span, returns⟩ => by
    rw [stmt, tree, toCheck_inside, toCheck_lvalue, Typing.stmt, assignment, bind_assoc]
    refine bind_congr fun x => ?_
    rw [toCheck_step]
    by_cases h : !x.1.assignable
    · simp only [if_pos h]
      rfl
    · simp only [if_neg h, pure_bind, toCheck_inside, toCheck_expr, bind_assoc]
      refine bind_congr fun y => ?_
      rw [toCheck_step]
      by_cases hty : y.2.ty = x.2
      · simp only [if_pos hty]
        rfl
      · simp only [if_neg hty]
        rfl
  | ⟨id, .expr none, span, _⟩ => by
    rw [stmt, Typing.stmt]
    rfl
  | ⟨id, .expr (some value), span, returns⟩ => by
    rw [stmt, tree, toCheck_inside, toCheck_expr, Typing.stmt]
    rfl
  | ⟨id, .block b, span, returns⟩ => by
    rw [stmt, tree, toCheck_inside_tree, tree_block b, Typing.stmt]
    rfl
  | ⟨id, .cond test thenBranch none, span, returns⟩ => by
    rw [stmt, tree, toCheck_inside_tree, tree_condition, Typing.stmt]
    simp only [toCheck_inside_tree, tree_stmt thenBranch]
    rfl
  | ⟨id, .cond test thenBranch (some elseBranch), span, returns⟩ => by
    rw [stmt, tree, toCheck_inside_tree, tree_condition, Typing.stmt]
    simp only [toCheck_inside_tree, tree_stmt thenBranch, tree_stmt elseBranch]
    rfl
  | ⟨id, .loop test body, span, returns⟩ => by
    rw [stmt, tree, toCheck_inside_tree, tree_condition, Typing.stmt]
    simp only [toCheck_inside_tree, tree_inLoop, tree_stmt body]
    rfl
  | ⟨id, .leave target, span, returns⟩ => by
    rw [stmt, tree, toCheck_step, Typing.stmt]
    rfl
  | ⟨id, .next target, span, returns⟩ => by
    rw [stmt, tree, toCheck_step, Typing.stmt]
    rfl
  | ⟨id, .ret none function, span, returns⟩ => by
    rw [stmt, tree, toCheck_step, Typing.stmt, returning, bind_assoc]
    refine bind_congr fun found => ?_
    rw [toCheck_step]
    by_cases h : found.2.basic = .void
    · simp only [if_pos h]
      rfl
    · simp only [if_neg h]
      rfl
  | ⟨id, .ret (some e) function, span, returns⟩ => by
    rw [stmt, tree, toCheck_step, Typing.stmt, returning, bind_assoc]
    refine bind_congr fun found => ?_
    rw [toCheck_inside, toCheck_expr]
    simp only [bind_assoc]
    refine bind_congr fun x => ?_
    rw [toCheck_step]
    by_cases h : found.2.basic ≠ .void ∧ x.2.ty = found.2
    · simp only [if_pos h]
      rfl
    · simp only [if_neg h]
      rfl

theorem tree_block : ∀ b : Block, (block b).tree = Typing.block b
  | ⟨id, items, span, scope, returns⟩ => by
    rw [block, tree, toCheck_inScope, toCheck_blockItems items, Typing.block]
    rfl

theorem toCheck_blockItems : ∀ items : List BlockItem,
    (blockItems items).toCheck Prod.mk = Typing.blockItems items
  | [] => rfl
  | .decl d :: rest => by
    rw [blockItems, toCheck_inside_tree, tree_decl, Typing.blockItems]
    simp only [toCheck_inside, toCheck_blockItems rest]
    rfl
  | .stmt t :: rest => by
    rw [blockItems, toCheck_inside_tree, tree_stmt t, Typing.blockItems]
    simp only [toCheck_inside, toCheck_blockItems rest]
    rfl

end

/-- The parameters and the body are written into the definition after each other, which gives the
same tree as putting it together at the end. -/
theorem toCheck_funcParts (f : FuncDef) :
    (funcParts f).toCheck Prod.mk = (do
      let function ← declareFunction f
      let parts ← Check.inFunction function do
        let ps ← params function f.params
        let body ← Typing.block f.body
        return (ps, body)
      return (function, parts.1, parts.2)) >>= fun x =>
        pure ({ f with params := x.2.1, body := x.2.2, function := some x.1 }, ()) := by
  rw [funcParts, toCheck_step, bind_assoc]
  refine bind_congr fun function => ?_
  rw [bind_assoc, inFunction, toCheck_within, Check.inFunction]
  simp only [pure_bind]
  rw [← Check.within_map]
  simp only [toCheck_inside_tree, tree_params, tree_block, toCheck_done, bind_assoc, pure_bind]

/-- Checking a function definition in place is checking it. -/
theorem tree_funcDef (f : FuncDef) : (funcDef f).tree = Typing.funcDef f := by
  rw [funcDef, tree, toCheck_inScope, toCheck_funcParts, Check.inScope_map, bind_assoc,
    Typing.funcDef]
  rfl

/-- The items of a program are checked along the list. -/
theorem tree_items (is : List Item) : (each item is).tree = items is := by
  induction is with
  | nil => rfl
  | cons i is ih =>
    rw [tree_each, ih]
    cases i with
    | decl d =>
      rw [items, item, tree, toCheck_inside_tree, tree_decl, bind_assoc]
      rfl
    | func f =>
      rw [items, item, tree, toCheck_inside_tree, tree_funcDef, bind_assoc]
      rfl

/-- Checking a program in place is checking it. -/
theorem tree_program (p : Program) : (program p).tree = Typing.program p := by
  rw [program, tree, toCheck_inside_tree, tree_items, Typing.program]
  rfl

end InPlace

/-- Checking in place is the same check. -/
theorem typeCheck_eq_annotate (withBuiltins : Bool) (p : Program) :
    typeCheck withBuiltins p =
      ((annotate withBuiltins p).2.1.map fun _ => (annotate withBuiltins p).1,
        (annotate withBuiltins p).2.2) := by
  unfold typeCheck annotate
  rcases initial withBuiltins with ⟨global, refusal | ⟨⟩, r⟩
  · cases refusal <;> rfl
  · dsimp only
    rw [← InPlace.tree_program]
    unfold InPlace.tree InPlace.toCheck
    rcases InPlace.program p ⟨r, { scope := global }⟩ with ⟨q, ⟨⟩ | failure⟩ <;> rfl

/-! ## What is left -/

namespace InPlace

/-- Writing a type on a node changes an annotation only. -/
theorem leaves_note {e : Expr} {found : Except Failure ExprInfo} {d : Expr}
    (h : e.erase = d.erase) : (note e found).Leaves (·.erase = d.erase) := by
  refine .step h fun info => .done (Eq.trans ?_ h)
  obtain ⟨id, kind, span, _⟩ := e
  cases kind <;> rfl

mutual

/-- Whatever is left of an expression differs in annotations only. -/
theorem leaves_expr : ∀ (e : Expr) (negated : Bool), (expr negated e).Leaves (·.erase = e.erase)
  | ⟨_, .number _ _, _, _⟩, _ => leaves_note rfl
  | ⟨_, .bool _, _, _⟩, _ => leaves_note rfl
  | ⟨_, .lvalue l, _, _⟩, _ => by
    refine .inside (leaves_lvalue l) (fun l' hl => ?_) fun l' _ hl => leaves_note ?_
    all_goals simp only [Expr.erase, hl]
  | ⟨_, .paren inner, _, _⟩, _ => by
    refine .inside (leaves_expr inner false) (fun x hx => ?_) fun x _ hx => leaves_note ?_
    all_goals simp only [Expr.erase, hx]
  | ⟨_, .unary operator operand, _, _⟩, _ => by
    refine .inside (leaves_expr operand _) (fun x hx => ?_) fun x _ hx => leaves_note ?_
    all_goals simp only [Expr.erase, hx]
  | ⟨_, .binary _ left right, _, _⟩, _ => by
    refine .inside (leaves_expr left false) (fun x hx => ?_) fun x _ hx =>
      .inside (leaves_expr right false) (fun y hy => ?_) fun y _ hy => leaves_note ?_
    all_goals simp only [Expr.erase, *]
  | ⟨_, .call callee es _, _, _⟩, _ => by
    refine .step rfl fun found => .inside (leaves_arguments callee es found.2.parameters 0)
      (fun xs hxs => ?_) fun xs _ hxs => leaves_note ?_
    all_goals simp only [Expr.erase, hxs]
  termination_by structural e => e

theorem leaves_lvalue : ∀ l : LValue, (lvalue l).Leaves (·.erase = l.erase)
  | ⟨_, _, es, _, _, _⟩ => by
    refine .step rfl fun found => .inside (leaves_indices es) (fun xs hxs => ?_)
      fun xs _ hxs => .done ?_
    all_goals simp only [LValue.erase, hxs]
  termination_by structural l => l

theorem leaves_indices : ∀ es : List Expr,
    (indices es).Leaves fun es' => Expr.eraseAll es' = Expr.eraseAll es
  | [] => .done rfl
  | e :: es => by
    refine .inside (leaves_expr e false) (fun x hx => ?_) fun x _ hx => .step ?_ fun _ =>
      .inside (leaves_indices es) (fun xs hxs => ?_) fun xs _ hxs => .done ?_
    all_goals simp only [Expr.eraseAll, *]
  termination_by structural es => es

theorem leaves_arguments (callee : String) : ∀ (es : List Expr) (ps : List Parameter)
    (index : Nat),
      (arguments callee index ps es).Leaves fun es' => Expr.eraseAll es' = Expr.eraseAll es
  | [], _, _ => by
    rw [arguments]
    · exact .done rfl
    · exact fun _ _ _ _ _ h => absurd h (by simp)
  | _ :: _, [], _ => .done rfl
  | e :: es, _ :: ps, _ => by
    refine .inside (leaves_expr e false) (fun x hx => ?_) fun x _ hx => .step ?_ fun _ =>
      .inside (leaves_arguments callee es ps _) (fun xs hxs => ?_) fun xs _ hxs => .done ?_
    all_goals simp only [Expr.eraseAll, *]
  termination_by structural es => es

end

mutual

/-- Whatever is left of initial values differs in annotations only. -/
theorem leaves_initializer (target : Ty) : ∀ (x : Initializer) (depth : Nat),
    (initializer target depth x).Leaves (·.erase = x.erase)
  | .scalar _ value _, _ => by
    refine .step rfl fun _ => .inside (leaves_expr value false) (fun x hx => ?_)
      fun x _ hx => .step ?_ fun _ => .done ?_
    all_goals simp only [Initializer.erase, hx]
  | .list _ items _, _ => by
    refine .step rfl fun inner => .inside (leaves_initializers target items inner)
      (fun xs hxs => ?_) fun xs _ hxs => .done ?_
    all_goals simp only [Initializer.erase, hxs]

theorem leaves_initializers (target : Ty) : ∀ (xs : List Initializer) (depth : Nat),
    (initializers target depth xs).Leaves fun xs' =>
      Initializer.eraseAll xs' = Initializer.eraseAll xs
  | [], _ => .done rfl
  | x :: xs, depth => by
    refine .inside (leaves_initializer target x depth) (fun y hy => ?_) fun y _ hy =>
      .inside (leaves_initializers target xs depth) (fun ys hys => ?_) fun ys _ hys => .done ?_
    all_goals simp only [Initializer.eraseAll, *]

end

/-- Whatever is left of a definition differs in annotations only. -/
theorem leaves_varDef (isConstant : Bool) (basic : BasicType) (d : VarDef) :
    (varDef isConstant basic d).Leaves (·.erase = d.erase) := by
  obtain ⟨id, name, dims, init, span, symbol⟩ := d
  refine .step rfl fun ty => ?_
  cases init with
  | none => exact .step rfl fun _ => .done rfl
  | some init =>
    refine .inside (leaves_initializer ty init 0) (fun x hx => ?_) fun x _ hx =>
      .step ?_ fun _ => .done ?_
    all_goals simp only [VarDef.erase, Option.map_some, hx]

theorem leaves_decl (d : Decl) : (decl d).Leaves (·.erase = d.erase) := by
  refine .inside (.each (leaves_varDef d.isConstant d.basic) d.defs) (fun ds hds => ?_)
    fun ds _ hds => .done ?_
  all_goals simp only [Decl.erase, hds]

theorem leaves_param (function : FunctionId) (p : Param) :
    (param function p).Leaves (·.erase = p.erase) :=
  .step rfl fun _ => .step rfl fun _ => .step rfl fun _ => .done rfl

theorem leaves_condition (e : Expr) : (condition e).Leaves (·.erase = e.erase) :=
  .inside (leaves_expr e false) (fun _ h => h) fun _ _ h => .step h fun _ => .done h

mutual

/-- Whatever is left of a statement differs in annotations only. -/
theorem leaves_stmt : ∀ t : Stmt, (stmt t).Leaves (·.erase = t.erase)
  | ⟨_, .assign target value, _, _⟩ => by
    refine .inside (leaves_lvalue target) (fun x hx => ?_) fun x _ hx => .step ?_ fun _ =>
      .inside (leaves_expr value false) (fun y hy => ?_) fun y _ hy => .step ?_ fun _ => .done ?_
    all_goals simp only [Stmt.erase, *]
  | ⟨_, .expr none, _, _⟩ => .done rfl
  | ⟨_, .expr (some value), _, _⟩ => by
    refine .inside (leaves_expr value false) (fun x hx => ?_) fun x _ hx => .done ?_
    all_goals simp only [Stmt.erase, Option.map_some, hx]
  | ⟨_, .block b, _, _⟩ => by
    refine .inside (leaves_block b) (fun x hx => ?_) fun x _ hx => .done ?_
    all_goals simp only [Stmt.erase, hx]
  | ⟨_, .cond test thenBranch none, _, _⟩ => by
    refine .inside (leaves_condition test) (fun x hx => ?_) fun x _ hx =>
      .inside (leaves_stmt thenBranch) (fun y hy => ?_) fun y _ hy => .done ?_
    all_goals simp only [Stmt.erase, *]
  | ⟨_, .cond test thenBranch (some elseBranch), _, _⟩ => by
    refine .inside (leaves_condition test) (fun x hx => ?_) fun x _ hx =>
      .inside (leaves_stmt thenBranch) (fun y hy => ?_) fun y _ hy =>
      .inside (leaves_stmt elseBranch) (fun z hz => ?_) fun z _ hz => .done ?_
    all_goals simp only [Stmt.erase, *]
  | ⟨_, .loop test body, _, _⟩ => by
    refine .inside (leaves_condition test) (fun x hx => ?_) fun x _ hx =>
      .inside (leaves_stmt body).within (fun y hy => ?_) fun y _ hy => .done ?_
    all_goals simp only [Stmt.erase, *]
  | ⟨_, .leave _, _, _⟩ => .step rfl fun _ => .done rfl
  | ⟨_, .next _, _, _⟩ => .step rfl fun _ => .done rfl
  | ⟨_, .ret none _, _, _⟩ => .step rfl fun _ => .step rfl fun _ => .done rfl
  | ⟨_, .ret (some e) _, _, _⟩ => by
    refine .step rfl fun _ => .inside (leaves_expr e false) (fun x hx => ?_) fun x _ hx =>
      .step ?_ fun _ => .done ?_
    all_goals simp only [Stmt.erase, Option.map_some, hx]

theorem leaves_block : ∀ b : Block, (block b).Leaves (·.erase = b.erase)
  | ⟨_, items, _, _, _⟩ => by
    refine .inScope rfl (leaves_blockItems items) (fun xs hxs => ?_) fun _ xs _ hxs => .done ?_
    all_goals simp only [Block.erase, hxs]

theorem leaves_blockItems : ∀ items : List BlockItem,
    (blockItems items).Leaves fun items' => BlockItem.eraseAll items' = BlockItem.eraseAll items
  | [] => .done rfl
  | .decl d :: rest => by
    refine .inside (leaves_decl d) (fun x hx => ?_) fun x _ hx =>
      .inside (leaves_blockItems rest) (fun xs hxs => ?_) fun xs _ hxs => .done ?_
    all_goals simp only [BlockItem.eraseAll, *]
  | .stmt t :: rest => by
    refine .inside (leaves_stmt t) (fun x hx => ?_) fun x _ hx =>
      .inside (leaves_blockItems rest) (fun xs hxs => ?_) fun xs _ hxs => .done ?_
    all_goals simp only [BlockItem.eraseAll, *]

end

/-- Whatever is left of a function definition differs in annotations only. -/
theorem leaves_funcDef (f : FuncDef) : (funcDef f).Leaves (·.erase = f.erase) := by
  have hparts : (funcParts f).Leaves (·.erase = f.erase) := by
    refine .step rfl fun function => .within <|
      .inside (.each (leaves_param function) f.params) (fun ps hps => ?_) fun ps _ hps =>
      .inside (leaves_block f.body) (fun body hbody => ?_) fun body _ hbody => .done ?_
    all_goals simp only [FuncDef.erase, *]
  exact .inScope rfl hparts (fun _ h => h) fun _ _ _ h => .done h

theorem leaves_item : ∀ i : Item, (item i).Leaves (·.erase = i.erase)
  | .decl d => .inside (leaves_decl d) (fun _ h => congrArg Item.decl h) fun _ _ h =>
    .done (congrArg Item.decl h)
  | .func f => .inside (leaves_funcDef f) (fun _ h => congrArg Item.func h) fun _ _ h =>
    .done (congrArg Item.func h)

/-- Whatever is left of a program differs in annotations only. -/
theorem leaves_program (p : Program) : (program p).Leaves (·.erase = p.erase) := by
  refine .inside (.each leaves_item p.items) (fun is his => ?_) fun is _ his => .done ?_
  all_goals simp only [Program.erase, his]

end InPlace

/-- The tree that is left is the tree that was there, but for its annotations. -/
theorem annotate_erase (withBuiltins : Bool) (p : Program) :
    (annotate withBuiltins p).1.erase = p.erase := by
  unfold annotate
  rcases initial withBuiltins with ⟨global, refusal | ⟨⟩, r⟩
  · rfl
  · have hleft := InPlace.leaves_program p ⟨r, { scope := global }⟩
    dsimp only
    rcases hp : InPlace.program p ⟨r, { scope := global }⟩ with ⟨q, ⟨⟩ | failure⟩ <;>
      · rw [hp] at hleft
        exact hleft

end CactLang.Typing
