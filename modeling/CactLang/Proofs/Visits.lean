import CactLang.Proofs.Walk

/-!
# The visits of an accepted tree

Each node of the tree that comes back from checking is what one of the checking
functions gave, in the state in which the walk was at the place of the node. With that
said once for all nodes, a property of accepted trees needs no walk of its own: it is
enough to look at what a single check gives.

> `Visit final place n s s'`: at its place, checking the node `n` led from `s` to `s'`,
> and what it refers to is still there in the registry `final`.
-/

namespace CactLang.Typing

/-- From the state `s`, a check gives the node and leaves the state `s'`. -/
inductive Gives (s : State) : Node → State → Prop where
  | expr {negated : Bool} {e e' : Expr} {i : ExprInfo} :
      checkExpr s.registry s.context.scope negated e = .ok (e', i) → Gives s (.expr e') s
  | lvalue {l l' : LValue} {ty : Ty} :
      checkLValue s.registry s.context.scope l = .ok (l', ty) → Gives s (.lvalue l') s
  | init {target : Ty} {depth : Nat} {x x' : Initializer} :
      checkInitializer s.registry s.context.scope target depth x = .ok x' →
      Gives s (.init x') s
  | varDef {isConstant : Bool} {basic : BasicType} {d d' : VarDef} {s' : State} :
      varDef isConstant basic d s = .ok d' s' → Gives s (.varDef d') s'
  | decl {d d' : Decl} {s' : State} : decl d s = .ok d' s' → Gives s (.decl d') s'
  | param {function : FunctionId} {p p' : Param} {s' : State} :
      param function p s = .ok p' s' → Gives s (.param p') s'
  | stmt {t t' : Stmt} {s' : State} : stmt t s = .ok t' s' → Gives s (.stmt t') s'
  | block {b b' : Block} {s' : State} : block b s = .ok b' s' → Gives s (.block b') s'
  | func {f f' : FuncDef} {s' : State} : funcDef f s = .ok f' s' → Gives s (.func f') s'

/-- A visit of a node. The function a parameter belongs to is not complete yet when the
parameter is checked; apart from that, no entry changes until the end. -/
structure Visit (final : Registry) (place : Place) (n : Node) (s s' : State) : Prop where
  place : At true s place
  gives : Gives s n s'
  symbol : ∀ {v : SymbolId} {y : Symbol}, s'.registry.symbol? v = some y →
    final.symbol? v = some y
  below : (∀ p, n ≠ .param p) → s'.registry.Below final

/-- Every one of the nodes is visited at its place. -/
def Visited (final : Registry) (ps : List (Place × Node)) : Prop :=
  ∀ x ∈ ps, ∃ s s', Visit final x.1 x.2 s s'

section

variable {s s' : State} {place : Place} {final : Registry} {ps qs : List (Place × Node)}

/-- A visit whose registry is still there at the end. -/
theorem Visit.of_below {n : Node} (hs : At true s place) (hn : Gives s n s')
    (hbelow : s'.registry.Below final) : Visit final place n s s' :=
  ⟨hs, hn, hbelow.symbol, fun _ => hbelow⟩

namespace Visited

theorem nil : Visited final [] := by
  intro x hx
  cases hx

/-- The visits of both parts. -/
theorem append (h : Visited final ps) (h' : Visited final qs) : Visited final (ps ++ qs) :=
  List.forall_mem_append.mpr ⟨h, h'⟩

/-- The visits of the parts, and then of the node itself. -/
theorem last {n : Node} (h : Visited final ps) (hs : At true s place) (hn : Gives s n s')
    (hbelow : s'.registry.Below final) : Visited final (ps ++ [(place, n)]) :=
  h.append (List.forall_mem_singleton.mpr ⟨s, s', .of_below hs hn hbelow⟩)

/-- The nodes of expressions are all visited in one state. -/
theorem all {ns : List Node} (hs : At true s place) (hns : ∀ n ∈ ns, Gives s n s)
    (hbelow : s.registry.Below final) : Visited final (place.all ns) := by
  intro x hx
  obtain ⟨n, hn, rfl⟩ := List.mem_map.mp hx
  exact ⟨s, s, .of_below hs (hns n hn) hbelow⟩

end Visited

end

theorem Keeps.below {α : Type} {gains : ScopeId → Option ScopeId} {m : Check α} {a : α}
    {s s' : State} (hm : Keeps gains m) (h : m s = .ok a s') : s.registry.Below s'.registry :=
  (hm.ok h).2.below

/-! ## Expressions and initializers -/

section

variable {s : State}

mutual

/-- Every node of an expression is given by its own check, in the same state. -/
theorem checkExpr_gives :
    ∀ {e : Expr} {negated : Bool} {e' : Expr} {i : ExprInfo},
      checkExpr s.registry s.context.scope negated e = .ok (e', i) →
      ∀ n ∈ e'.nodes, Gives s n s
  | ⟨_, .number _ _, _, _⟩, _, _, _, h => by
    obtain ⟨_, rfl, rfl⟩ := checkExpr_number_ok.mp h
    rw [Expr.nodes, ExprKind.nodes]
    exact List.forall_mem_singleton.mpr (.expr h)
  | ⟨_, .bool _, _, _⟩, _, _, _, h => by
    obtain ⟨rfl, rfl⟩ := checkExpr_bool_ok.mp h
    rw [Expr.nodes, ExprKind.nodes]
    exact List.forall_mem_singleton.mpr (.expr h)
  | ⟨_, .lvalue _, _, _⟩, _, _, _, h => by
    obtain ⟨l', ty, hl, rfl, rfl⟩ := checkExpr_lvalue_ok.mp h
    rw [Expr.nodes, ExprKind.nodes]
    exact List.forall_mem_append.mpr
      ⟨checkLValue_gives hl, List.forall_mem_singleton.mpr (.expr h)⟩
  | ⟨_, .paren _, _, _⟩, _, _, _, h => by
    obtain ⟨inner', i, hinner, rfl, rfl⟩ := checkExpr_paren_ok.mp h
    rw [Expr.nodes, ExprKind.nodes]
    exact List.forall_mem_append.mpr
      ⟨checkExpr_gives hinner, List.forall_mem_singleton.mpr (.expr h)⟩
  | ⟨_, .unary _ _, _, _⟩, _, _, _, h => by
    obtain ⟨operand', i, hoperand, _, rfl, rfl⟩ := checkExpr_unary_ok.mp h
    rw [Expr.nodes, ExprKind.nodes]
    exact List.forall_mem_append.mpr
      ⟨checkExpr_gives hoperand, List.forall_mem_singleton.mpr (.expr h)⟩
  | ⟨_, .binary _ _ _, _, _⟩, _, _, _, h => by
    obtain ⟨left', i, right', j, hleft, hright, _, _, _, rfl, rfl⟩ := checkExpr_binary_ok.mp h
    rw [Expr.nodes, ExprKind.nodes]
    exact List.forall_mem_append.mpr
      ⟨List.forall_mem_append.mpr ⟨checkExpr_gives hleft, checkExpr_gives hright⟩,
        List.forall_mem_singleton.mpr (.expr h)⟩
  | ⟨_, .call _ _ _, _, _⟩, _, _, _, h => by
    obtain ⟨f, signature, arguments', _, _, hlength, hargs, rfl, rfl⟩ := checkExpr_call_ok.mp h
    rw [Expr.nodes, ExprKind.nodes]
    exact List.forall_mem_append.mpr
      ⟨checkArguments_gives hlength hargs, List.forall_mem_singleton.mpr (.expr h)⟩
termination_by structural e => e

theorem checkLValue_gives :
    ∀ {l l' : LValue} {ty : Ty}, checkLValue s.registry s.context.scope l = .ok (l', ty) →
      ∀ n ∈ l'.nodes, Gives s n s
  | ⟨_, _, indices, _, _, _⟩, _, _, h => by
    obtain ⟨v, y, indices', _, _, _, hindices, rfl, rfl⟩ := checkLValue_ok.mp h
    rw [LValue.nodes]
    exact List.forall_mem_append.mpr
      ⟨checkIndices_gives hindices, List.forall_mem_singleton.mpr (.lvalue h)⟩
termination_by structural l => l

theorem checkIndices_gives :
    ∀ {es es' : List Expr}, checkIndices s.registry s.context.scope es = .ok es' →
      ∀ n ∈ Expr.allNodes es', Gives s n s
  | [], _, h => by
    rw [checkIndices_nil_ok.mp h, Expr.allNodes]
    simp
  | _ :: _, _, h => by
    obtain ⟨d, i, ds, he, _, hes, rfl⟩ := checkIndices_cons_ok.mp h
    rw [Expr.allNodes]
    exact List.forall_mem_append.mpr ⟨checkExpr_gives he, checkIndices_gives hes⟩
termination_by structural es => es

theorem checkArguments_gives :
    ∀ {es es' : List Expr} {callee : String} {index : Nat} {ps : List Parameter},
      es.length = ps.length →
      checkArguments s.registry s.context.scope callee index ps es = .ok es' →
      ∀ n ∈ Expr.allNodes es', Gives s n s
  | [], _, _, _, [], _, h => by
    rw [checkArguments_nil_ok.mp h, Expr.allNodes]
    simp
  | _ :: _, _, _, _, _ :: _, hlength, h => by
    obtain ⟨d, i, ds, he, _, hes, rfl⟩ := checkArguments_cons_ok.mp h
    rw [Expr.allNodes]
    exact List.forall_mem_append.mpr
      ⟨checkExpr_gives he, checkArguments_gives (Nat.succ.inj hlength) hes⟩
termination_by structural es => es

end

mutual

/-- Every node of initial values is given by its own check, in the same state. -/
theorem checkInitializer_gives {target : Ty} :
    ∀ {x : Initializer} {depth : Nat} {x' : Initializer},
      checkInitializer s.registry s.context.scope target depth x = .ok x' →
      ∀ n ∈ x'.nodes, Gives s n s
  | .scalar _ _ _, _, _, h => by
    obtain ⟨value', i, _, hvalue, _, _, rfl⟩ := checkInitializer_scalar_ok.mp h
    rw [Initializer.nodes]
    exact List.forall_mem_append.mpr
      ⟨checkExpr_gives hvalue, List.forall_mem_singleton.mpr (.init h)⟩
  | .list _ _ _, _, _, h => by
    obtain ⟨_, _, items', _, _, hitems, rfl⟩ := checkInitializer_list_ok.mp h
    rw [Initializer.nodes]
    exact List.forall_mem_append.mpr
      ⟨checkInitializers_gives hitems, List.forall_mem_singleton.mpr (.init h)⟩
termination_by structural x => x

theorem checkInitializers_gives {target : Ty} :
    ∀ {xs : List Initializer} {depth : Nat} {xs' : List Initializer},
      checkInitializers s.registry s.context.scope target depth xs = .ok xs' →
      ∀ n ∈ Initializer.allNodes xs', Gives s n s
  | [], _, _, h => by
    rw [checkInitializers_nil_ok.mp h, Initializer.allNodes]
    simp
  | _ :: _, _, _, h => by
    obtain ⟨y, ys, hy, hys, rfl⟩ := checkInitializers_cons_ok.mp h
    rw [Initializer.allNodes]
    exact List.forall_mem_append.mpr
      ⟨checkInitializer_gives hy, checkInitializers_gives hys⟩
termination_by structural xs => xs

end

end

/-! ## Declarations -/

section

variable {final : Registry}

/-- A definition is visited after its initial value. -/
theorem varDef_visited {isConstant : Bool} {basic : BasicType} {d d' : VarDef} {s s' : State}
    {place : Place} (hs : At true s place) (h : varDef isConstant basic d s = .ok d' s')
    (hbelow : s'.registry.Below final) : Visited final (place.all d'.nodes) := by
  have hearlier := (varDef_keeps isConstant basic d).below h
  have hself := Gives.varDef h
  obtain ⟨ty, init, v, r, _, hinit, _, rfl, rfl⟩ := varDef_ok.mp h
  have hparts : ∀ n ∈ init.elim [] Initializer.nodes, Gives s n s := by
    rcases rel_cases hinit with ⟨_, rfl⟩ | ⟨x, x', _, rfl, hcheck⟩
    · simp
    · exact checkInitializer_gives hcheck
  rw [VarDef.nodes, Place.all, List.map_append]
  exact (Visited.all hs hparts (hearlier.trans hbelow)).last hs hself hbelow

/-- Definitions are visited one after the other, each where the names before it are bound. -/
theorem varDefs_visited {isConstant : Bool} {basic : BasicType} :
    ∀ {ds ds' : List VarDef} {s s' : State} {place : Place}, At true s place →
      varDefs isConstant basic ds s = .ok ds' s' → s'.registry.Below final →
      Visited final (VarDef.allPlaces place ds')
  | [], _, _, _, _, _, h, _ => by
    rw [(varDefs_nil_ok.mp h).1, VarDef.allPlaces]
    exact .nil
  | d :: ds, _, s, s', place, hs, h, hbelow => by
    obtain ⟨d', ds', s₁, hd, hds, rfl⟩ := varDefs_cons_ok.mp h
    have hearlier := (varDefs_keeps isConstant basic ds).below hds
    rw [VarDef.allPlaces]
    exact (varDef_visited hs hd (hearlier.trans hbelow)).append
      (varDefs_visited (hs.varDef hd) hds hbelow)

theorem decl_visited {d d' : Decl} {s s' : State} {place : Place} (hs : At true s place)
    (h : decl d s = .ok d' s') (hbelow : s'.registry.Below final) :
    Visited final (d'.places place) := by
  have hself := Gives.decl h
  obtain ⟨defs, hdefs, rfl⟩ := decl_ok.mp h
  rw [Decl.places]
  exact (varDefs_visited hs hdefs hbelow).last hs hself hbelow

/-! ## Statements and blocks -/

/-- The value of a `return` is checked like any other expression. -/
theorem returning_gives {id : NodeId} {span : Span} {value : Option Expr} {k : StmtKind}
    {s s' : State} (place : Place) (h : returning id span value s = .ok k s') :
    s' = s ∧ ∃ ns, k.places place id = place.all ns ∧ ∀ n ∈ ns, Gives s n s := by
  cases value with
  | none =>
    obtain ⟨f, signature, _, _, _, rfl, rfl⟩ := returning_none_ok.mp h
    exact ⟨rfl, [], by rw [StmtKind.places]; rfl, by simp⟩
  | some e =>
    obtain ⟨f, signature, e', i, _, _, _, he, _, rfl, rfl⟩ := returning_some_ok.mp h
    exact ⟨rfl, e'.nodes, by rw [StmtKind.places]; rfl, checkExpr_gives he⟩

mutual

/-- A statement is visited after its parts, by recursion on the tree. -/
theorem stmt_visited :
    ∀ {t t' : Stmt} {s s' : State} {place : Place}, At true s place →
      stmt t s = .ok t' s' → s'.registry.Below final → Visited final (t'.places place)
  | ⟨_, .assign _ _, _, _⟩, _, _, _, _, hs, h, hbelow => by
    have hself := Gives.stmt h
    obtain ⟨target', value', i, htarget, _, hvalue, rfl, rfl⟩ := stmt_assign_ok.mp h
    have hparts := List.forall_mem_append.mpr
      ⟨checkLValue_gives htarget, checkExpr_gives hvalue⟩
    rw [Stmt.places, StmtKind.places]
    exact (Visited.all hs hparts hbelow).last hs hself hbelow
  | ⟨_, .expr none, _, _⟩, _, _, _, _, hs, h, hbelow => by
    have hself := Gives.stmt h
    obtain ⟨rfl, rfl⟩ := stmt_empty_ok.mp h
    rw [Stmt.places, StmtKind.places]
    exact Visited.nil.last hs hself hbelow
  | ⟨_, .expr (some _), _, _⟩, _, _, _, _, hs, h, hbelow => by
    have hself := Gives.stmt h
    obtain ⟨value', i, hvalue, rfl, rfl⟩ := stmt_expr_ok.mp h
    rw [Stmt.places, StmtKind.places]
    exact (Visited.all hs (checkExpr_gives hvalue) hbelow).last hs hself hbelow
  | ⟨_, .block _, _, _⟩, _, _, _, _, hs, h, hbelow => by
    have hself := Gives.stmt h
    obtain ⟨b', hb, rfl⟩ := stmt_block_ok.mp h
    rw [Stmt.places, StmtKind.places]
    exact (block_visited hs hb hbelow).last hs hself hbelow
  | ⟨_, .cond _ thenBranch none, _, _⟩, _, _, _, _, hs, h, hbelow => by
    have hself := Gives.stmt h
    obtain ⟨test', i, then', htest, _, hthen, rfl⟩ := stmt_if_ok.mp h
    have hearlier := (stmt_keeps thenBranch).below hthen
    rw [Stmt.places, StmtKind.places]
    exact ((Visited.all hs (checkExpr_gives htest) (hearlier.trans hbelow)).append
      (stmt_visited hs hthen hbelow)).last hs hself hbelow
  | ⟨_, .cond _ thenBranch (some elseBranch), _, _⟩, _, _, _, _, hs, h, hbelow => by
    have hself := Gives.stmt h
    obtain ⟨test', i, then', else', s₁, htest, _, hthen, helse, rfl⟩ := stmt_ifElse_ok.mp h
    have hs₁ := hs.keep (stmt_keeps thenBranch) hthen
    have hearlier := (stmt_keeps thenBranch).below hthen
    have hbelow₁ := ((stmt_keeps elseBranch).below helse).trans hbelow
    rw [Stmt.places, StmtKind.places]
    exact ((Visited.all hs (checkExpr_gives htest) (hearlier.trans hbelow₁)).append
      ((stmt_visited hs hthen hbelow₁).append (stmt_visited hs₁ helse hbelow))).last hs hself hbelow
  | ⟨id, .loop _ body, _, _⟩, _, s, _, _, hs, h, hbelow => by
    have hself := Gives.stmt h
    obtain ⟨test', i, body', s₁, htest, _, hbody, rfl, rfl⟩ := stmt_loop_ok.mp h
    have hearlier := (stmt_keeps body).below hbody
    rw [Stmt.places, StmtKind.places]
    exact ((Visited.all hs (checkExpr_gives htest) (hearlier.trans hbelow)).append
      (stmt_visited (hs.inLoop id) hbody hbelow)).last hs hself hbelow
  | ⟨_, .leave _, _, _⟩, _, _, _, _, hs, h, hbelow => by
    have hself := Gives.stmt h
    obtain ⟨loop, _, rfl, rfl⟩ := stmt_leave_ok.mp h
    rw [Stmt.places, StmtKind.places]
    exact Visited.nil.last hs hself hbelow
  | ⟨_, .next _, _, _⟩, _, _, _, _, hs, h, hbelow => by
    have hself := Gives.stmt h
    obtain ⟨loop, _, rfl, rfl⟩ := stmt_next_ok.mp h
    rw [Stmt.places, StmtKind.places]
    exact Visited.nil.last hs hself hbelow
  | ⟨_, .ret _ _, _, _⟩, _, _, _, place, hs, h, hbelow => by
    have hself := Gives.stmt h
    obtain ⟨k, hk, rfl⟩ := stmt_ret_ok.mp h
    obtain ⟨rfl, ns, hplaces, hns⟩ := returning_gives place hk
    rw [Stmt.places, hplaces]
    exact (Visited.all hs hns hbelow).last hs hself hbelow

theorem block_visited :
    ∀ {b b' : Block} {s s' : State} {place : Place}, At true s place →
      block b s = .ok b' s' → s'.registry.Below final → Visited final (b'.places place)
  | ⟨_, items, _, _, _⟩, _, s, _, _, hs, h, hbelow => by
    have hself := Gives.block h
    obtain ⟨items', _, s₁, hitems, rfl, rfl⟩ := block_ok.mp h
    rw [Block.places]
    exact (blockItems_visited hs.inScope hitems hbelow).last hs hself hbelow

theorem blockItems_visited :
    ∀ {items items' : List BlockItem} {hasReturn : Bool} {s s' : State} {place : Place},
      At true s place → blockItems items s = .ok (items', hasReturn) s' →
      s'.registry.Below final → Visited final (BlockItem.allPlaces place items')
  | [], _, _, _, _, _, _, h, _ => by
    rw [(blockItems_nil_ok.mp h).1, BlockItem.allPlaces]
    exact .nil
  | .decl _ :: rest, _, _, _, _, _, hs, h, hbelow => by
    obtain ⟨d', rest', s₁, hd, hrest, rfl⟩ := blockItems_decl_ok.mp h
    have hearlier := (blockItems_keeps rest).below hrest
    rw [BlockItem.allPlaces]
    exact (decl_visited hs hd (hearlier.trans hbelow)).append
      (blockItems_visited (hs.decl hd) hrest hbelow)
  | .stmt t :: rest, _, _, _, _, _, hs, h, hbelow => by
    obtain ⟨t', rest', _, s₁, ht, hrest, rfl, _⟩ := blockItems_stmt_ok.mp h
    have hearlier := (blockItems_keeps rest).below hrest
    rw [BlockItem.allPlaces]
    exact (stmt_visited hs ht (hearlier.trans hbelow)).append
      (blockItems_visited (hs.keep (stmt_keeps t) ht) hrest hbelow)

end

/-! ## Functions and programs -/

/-- Parameters are visited one after the other. -/
theorem params_visited {function : FunctionId} :
    ∀ {ps ps' : List Param} {s s' : State} {place : Place}, At true s place →
      params function ps s = .ok ps' s' → s'.registry.Below final →
      Visited final (Param.allPlaces place ps')
  | [], _, _, _, _, _, h, _ => by
    rw [(params_nil_ok.mp h).1, Param.allPlaces]
    exact .nil
  | p :: ps, _, s, s', place, hs, h, hbelow => by
    obtain ⟨p', ps', s₁, hp, hps, rfl⟩ := params_cons_ok.mp h
    -- the function gains more parameters, so only the variables stay for certain
    have hfirst : Visit final place (.param p') s s₁ :=
      ⟨hs, .param hp, fun hy => hbelow.symbol (params_symbol hps hy),
        fun hne => absurd rfl (hne p')⟩
    rw [Param.allPlaces]
    exact List.forall_mem_cons.mpr ⟨⟨s, s₁, hfirst⟩, params_visited (hs.param hp) hps hbelow⟩

/-- A function definition is visited after its parameters and its body. -/
theorem funcDef_visited {f f' : FuncDef} {s s' : State}
    {globals : List (String × Option SymbolId)} (hs : At true s (.top globals))
    (h : funcDef f s = .ok f' s') (hbelow : s'.registry.Below final) :
    Visited final (f'.places globals) := by
  have hself := Gives.func h
  obtain ⟨_, hname, ps, s₁, body, s₂, hps, hbody, rfl, rfl⟩ := funcDef_ok.mp h
  have hearlier := (block_keeps f.body).below hbody
  have hin := hs.inFunction f (g := ⟨f.id, f.name, f.returns, ps, body, f.span,
    some ⟨s.registry.functions.size⟩, some ⟨s.registry.scopes.size⟩⟩) hname (fun _ => rfl)
  rw [FuncDef.places]
  exact (params_visited hin hps (hearlier.trans hbelow)).append
    ((block_visited (hin.params hps) hbody hbelow).last hs hself hbelow)

/-- The items of a program are visited in order. -/
theorem items_visited :
    ∀ {is is' : List Item} {s s' : State} {globals : List (String × Option SymbolId)},
      At true s (.top globals) → items is s = .ok is' s' → s'.registry.Below final →
      Visited final (Item.allPlaces globals is')
  | [], _, _, _, _, _, h, _ => by
    rw [(items_nil_ok.mp h).1, Item.allPlaces]
    exact .nil
  | .decl _ :: _, _, _, _, _, hs, h, hbelow => by
    obtain ⟨d', rest', s₁, hd, hrest, rfl⟩ := items_decl_ok.mp h
    rw [Item.allPlaces]
    exact (decl_visited hs hd ((items_below hrest).trans hbelow)).append
      (items_visited (hs.decl hd) hrest hbelow)
  | .func _ :: _, _, _, _, _, hs, h, hbelow => by
    obtain ⟨f', rest', s₁, hf, hrest, rfl⟩ := items_func_ok.mp h
    rw [Item.allPlaces]
    exact (funcDef_visited hs hf ((items_below hrest).trans hbelow)).append
      (items_visited (hs.funcDef hf) hrest hbelow)

end

/-- Every node of an accepted program is visited at its place. -/
theorem typeCheck_visited {withBuiltins : Bool} {p p' : Program} {r : Registry}
    (h : typeCheck withBuiltins p = (.ok p', r)) : Visited r p'.places := by
  obtain ⟨is, s, hi, rfl, rfl⟩ := typeCheck_ok.mp h
  exact items_visited (at_start true withBuiltins) hi (.refl _)

end CactLang.Typing
