import CactLang.Proofs.Accepted.Statement

/-!
# Checking only annotates

An accepted tree comes back as it went in, but for what the type checker found out:
erasing that from both gives the same tree. So a statement about the tree that comes
back is a statement about the tree that was checked.
-/

namespace CactLang.Typing

/-! ## Expressions -/

mutual

theorem checkExpr_erase {r : Registry} {scope : ScopeId} :
    ∀ {e : Expr} {negated : Bool} {e' : Expr} {i : ExprInfo},
      checkExpr r scope negated e = .ok (e', i) → e'.erase = e.erase
  | ⟨_, .number _ _, _, _⟩, _, _, _, h => by
    obtain ⟨_, _, rfl⟩ := checkExpr_number_ok.mp h
    rfl
  | ⟨_, .bool _, _, _⟩, _, _, _, h => by
    obtain ⟨_, rfl⟩ := checkExpr_bool_ok.mp h
    rfl
  | ⟨_, .lvalue _, _, _⟩, _, _, _, h => by
    obtain ⟨l', _, hl, _, rfl⟩ := checkExpr_lvalue_ok.mp h
    simp only [Expr.erase, checkLValue_erase hl]
  | ⟨_, .paren _, _, _⟩, _, _, _, h => by
    obtain ⟨inner', _, hi, _, rfl⟩ := checkExpr_paren_ok.mp h
    simp only [Expr.erase, checkExpr_erase hi]
  | ⟨_, .unary _ _, _, _⟩, _, _, _, h => by
    obtain ⟨operand', _, ho, _, _, rfl⟩ := checkExpr_unary_ok.mp h
    simp only [Expr.erase, checkExpr_erase ho]
  | ⟨_, .binary _ _ _, _, _⟩, _, _, _, h => by
    obtain ⟨left', _, right', _, hl, hr, _, _, _, _, rfl⟩ := checkExpr_binary_ok.mp h
    simp only [Expr.erase, checkExpr_erase hl, checkExpr_erase hr]
  | ⟨_, .call _ _ _, _, _⟩, _, _, _, h => by
    obtain ⟨_, signature, arguments', _, _, _, ha, _, rfl⟩ := checkExpr_call_ok.mp h
    simp only [Expr.erase, checkArguments_erase ‹_› ha]
  termination_by structural e => e

theorem checkLValue_erase {r : Registry} {scope : ScopeId} :
    ∀ {l l' : LValue} {ty : Ty}, checkLValue r scope l = .ok (l', ty) → l'.erase = l.erase
  | ⟨_, _, _, _, _, _⟩, _, _, h => by
    obtain ⟨_, _, indices', _, _, _, hi, rfl, _⟩ := checkLValue_ok.mp h
    simp only [LValue.erase, checkIndices_erase hi]
  termination_by structural l => l

theorem checkIndices_erase {r : Registry} {scope : ScopeId} :
    ∀ {es es' : List Expr}, checkIndices r scope es = .ok es' →
      Expr.eraseAll es' = Expr.eraseAll es
  | [], _, h => by
    rw [checkIndices_nil_ok.mp h]
  | _ :: _, _, h => by
    obtain ⟨d, _, ds, hd, _, hds, rfl⟩ := checkIndices_cons_ok.mp h
    simp only [Expr.eraseAll, checkExpr_erase hd, checkIndices_erase hds]
  termination_by structural es => es

theorem checkArguments_erase {r : Registry} {scope : ScopeId} {callee : String} :
    ∀ {es : List Expr} {ps : List Parameter} {index : Nat} {es' : List Expr},
      es.length = ps.length → checkArguments r scope callee index ps es = .ok es' →
      Expr.eraseAll es' = Expr.eraseAll es
  | [], [], _, _, _, h => by
    rw [checkArguments_nil_ok.mp h]
  | [], _ :: _, _, _, hlen, _ => absurd hlen (by simp)
  | _ :: _, [], _, _, hlen, _ => absurd hlen (by simp)
  | _ :: _, _ :: _, _, _, hlen, h => by
    obtain ⟨d, _, ds, hd, _, hds, rfl⟩ := checkArguments_cons_ok.mp h
    simp only [Expr.eraseAll, checkExpr_erase hd, checkArguments_erase (by simpa using hlen) hds]
  termination_by structural es => es

end

/-! ## Initializers and declarations -/

mutual

theorem checkInitializer_erase {r : Registry} {scope : ScopeId} {target : Ty} :
    ∀ {x : Initializer} {depth : Nat} {x' : Initializer},
      checkInitializer r scope target depth x = .ok x' → x'.erase = x.erase
  | .scalar _ _ _, _, _, h => by
    obtain ⟨value', _, _, hv, _, _, rfl⟩ := checkInitializer_scalar_ok.mp h
    simp only [Initializer.erase, checkExpr_erase hv]
  | .list _ _ _, _, _, h => by
    obtain ⟨_, _, items', _, _, his, rfl⟩ := checkInitializer_list_ok.mp h
    simp only [Initializer.erase, checkInitializers_erase his]

theorem checkInitializers_erase {r : Registry} {scope : ScopeId} {target : Ty} :
    ∀ {xs : List Initializer} {depth : Nat} {xs' : List Initializer},
      checkInitializers r scope target depth xs = .ok xs' →
      Initializer.eraseAll xs' = Initializer.eraseAll xs
  | [], _, _, h => by
    rw [checkInitializers_nil_ok.mp h]
  | _ :: _, _, _, h => by
    obtain ⟨y, ys, hy, hys, rfl⟩ := checkInitializers_cons_ok.mp h
    simp only [Initializer.eraseAll, checkInitializer_erase hy, checkInitializers_erase hys]

end

theorem varDef_erase {isConstant : Bool} {basic : BasicType} {d d' : VarDef} {s s' : State}
    (h : varDef isConstant basic d s = .ok d' s') : d'.erase = d.erase := by
  obtain ⟨ty, init, v, r, _, hrel, _, rfl, _⟩ := varDef_ok.mp h
  have hinit : init.map Initializer.erase = d.init.map Initializer.erase := by
    rcases rel_cases hrel with ⟨hd, rfl⟩ | ⟨x, x', hd, rfl, hx⟩
    · rw [hd]
    · rw [hd]
      exact congrArg some (checkInitializer_erase hx)
  simp only [VarDef.erase, hinit]

theorem varDefs_erase {isConstant : Bool} {basic : BasicType} :
    ∀ {ds ds' : List VarDef} {s s' : State}, varDefs isConstant basic ds s = .ok ds' s' →
      ds'.map VarDef.erase = ds.map VarDef.erase
  | [], _, _, _, h => by
    rw [(varDefs_nil_ok.mp h).1]
  | _ :: _, _, _, _, h => by
    obtain ⟨x, xs, s₁, hx, hxs, rfl⟩ := varDefs_cons_ok.mp h
    simp only [List.map_cons, varDef_erase hx, varDefs_erase hxs]

theorem decl_erase {d d' : Decl} {s s' : State} (h : decl d s = .ok d' s') :
    d'.erase = d.erase := by
  obtain ⟨defs, hdefs, rfl⟩ := decl_ok.mp h
  simp only [Decl.erase, varDefs_erase hdefs]

theorem params_erase {function : FunctionId} :
    ∀ {ps ps' : List Param} {s s' : State}, params function ps s = .ok ps' s' →
      ps'.map Param.erase = ps.map Param.erase
  | [], _, _, _, h => by
    rw [(params_nil_ok.mp h).1]
  | _ :: _, _, _, _, h => by
    obtain ⟨x, xs, s₁, hx, hxs, rfl⟩ := params_cons_ok.mp h
    obtain ⟨_, _, _, _, _, _, _, rfl, _⟩ := param_ok.mp hx
    simp only [List.map_cons, Param.erase, params_erase hxs]

/-! ## Statements and programs -/

mutual

theorem stmt_erase :
    ∀ {t t' : Stmt} {s s' : State}, stmt t s = .ok t' s' → t'.erase = t.erase
  | ⟨_, .assign _ _, _, _⟩, _, _, _, h => by
    obtain ⟨_, _, _, hl, _, hv, rfl, _⟩ := stmt_assign_ok.mp h
    simp only [Stmt.erase, checkLValue_erase hl, checkExpr_erase hv]
  | ⟨_, .expr none, _, _⟩, _, _, _, h => by
    obtain ⟨rfl, _⟩ := stmt_empty_ok.mp h
    rfl
  | ⟨_, .expr (some _), _, _⟩, _, _, _, h => by
    obtain ⟨_, _, hv, rfl, _⟩ := stmt_expr_ok.mp h
    simp only [Stmt.erase, Option.map_some, checkExpr_erase hv]
  | ⟨_, .block _, _, _⟩, _, _, _, h => by
    obtain ⟨_, hb, rfl⟩ := stmt_block_ok.mp h
    simp only [Stmt.erase, block_erase hb]
  | ⟨_, .cond _ _ none, _, _⟩, _, _, _, h => by
    obtain ⟨_, _, _, he, _, ht, rfl⟩ := stmt_if_ok.mp h
    simp only [Stmt.erase, checkExpr_erase he, stmt_erase ht]
  | ⟨_, .cond _ _ (some _), _, _⟩, _, _, _, h => by
    obtain ⟨_, _, _, _, _, he, _, ht, hf, rfl⟩ := stmt_ifElse_ok.mp h
    simp only [Stmt.erase, checkExpr_erase he, stmt_erase ht, stmt_erase hf]
  | ⟨_, .loop _ _, _, _⟩, _, _, _, h => by
    obtain ⟨_, _, _, _, he, _, hb, rfl, _⟩ := stmt_loop_ok.mp h
    simp only [Stmt.erase, checkExpr_erase he, stmt_erase hb]
  | ⟨_, .leave _, _, _⟩, _, _, _, h => by
    obtain ⟨_, _, rfl, _⟩ := stmt_leave_ok.mp h
    simp only [Stmt.erase]
  | ⟨_, .next _, _, _⟩, _, _, _, h => by
    obtain ⟨_, _, rfl, _⟩ := stmt_next_ok.mp h
    simp only [Stmt.erase]
  | ⟨_, .ret none _, _, _⟩, _, _, _, h => by
    obtain ⟨_, hk, rfl⟩ := stmt_ret_ok.mp h
    obtain ⟨_, _, _, _, _, rfl, _⟩ := returning_none_ok.mp hk
    simp only [Stmt.erase]
  | ⟨_, .ret (some _) _, _, _⟩, _, _, _, h => by
    obtain ⟨_, hk, rfl⟩ := stmt_ret_ok.mp h
    obtain ⟨_, _, _, _, _, _, _, he, _, rfl, _⟩ := returning_some_ok.mp hk
    simp only [Stmt.erase, Option.map_some, checkExpr_erase he]

theorem block_erase :
    ∀ {b b' : Block} {s s' : State}, block b s = .ok b' s' → b'.erase = b.erase
  | ⟨_, _, _, _, _⟩, _, _, _, h => by
    obtain ⟨_, _, _, hi, rfl, _⟩ := block_ok.mp h
    simp only [Block.erase, blockItems_erase hi]

theorem blockItems_erase :
    ∀ {items items' : List BlockItem} {returns : Bool} {s s' : State},
      blockItems items s = .ok (items', returns) s' →
      BlockItem.eraseAll items' = BlockItem.eraseAll items
  | [], _, _, _, _, h => by
    rw [(blockItems_nil_ok.mp h).1]
  | .decl _ :: _, _, _, _, _, h => by
    obtain ⟨_, _, _, hd, hrest, rfl⟩ := blockItems_decl_ok.mp h
    simp only [BlockItem.eraseAll, decl_erase hd, blockItems_erase hrest]
  | .stmt _ :: _, _, _, _, _, h => by
    obtain ⟨_, _, _, _, ht, hrest, rfl, _⟩ := blockItems_stmt_ok.mp h
    simp only [BlockItem.eraseAll, stmt_erase ht, blockItems_erase hrest]

end

theorem funcDef_erase {f f' : FuncDef} {s s' : State} (h : funcDef f s = .ok f' s') :
    f'.erase = f.erase := by
  obtain ⟨_, _, _, _, _, _, hps, hbody, rfl, _⟩ := funcDef_ok.mp h
  simp only [FuncDef.erase, params_erase hps, block_erase hbody]

theorem items_erase :
    ∀ {is is' : List Item} {s s' : State}, items is s = .ok is' s' →
      is'.map Item.erase = is.map Item.erase
  | [], _, _, _, h => by
    rw [(items_nil_ok.mp h).1]
  | .decl _ :: _, _, _, _, h => by
    obtain ⟨_, _, _, hd, hrest, rfl⟩ := items_decl_ok.mp h
    simp only [List.map_cons, Item.erase, decl_erase hd, items_erase hrest]
  | .func _ :: _, _, _, _, h => by
    obtain ⟨_, _, _, hf, hrest, rfl⟩ := items_func_ok.mp h
    simp only [List.map_cons, Item.erase, funcDef_erase hf, items_erase hrest]

/-- An accepted program is the program that was checked, with annotations. -/
theorem typeCheck_erase {withBuiltins : Bool} {p p' : Program} {r : Registry}
    (h : typeCheck withBuiltins p = (.ok p', r)) : p'.erase = p.erase := by
  obtain ⟨is, s, hi, rfl, _⟩ := typeCheck_ok.mp h
  simp only [Program.erase, items_erase hi]

end CactLang.Typing
