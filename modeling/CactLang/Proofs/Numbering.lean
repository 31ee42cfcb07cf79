import CactLang.Proofs.Accepted.Statement
import CactLang.Proofs.Nodes
import Mathlib.Data.List.Nodup

/-!
# The numbers of variables

A variable is entered in the registry when its declaration has been checked, and the
declarations are checked in the order in which they stand in the program. So the
handles that the tree has for them count up from zero, without a gap.

> `Numbered r r' ns`: the declarations among the nodes have the handles of the variables
> that `r'` has and `r` has not, in order.

In particular no two declarations have the same handle (`typeCheck_symbols_nodup`).
-/

namespace CactLang

/-- For a node that declares a variable, what the tree has for that variable. -/
def Node.symbol? : Node → Option (Option SymbolId)
  | varDef d => some d.symbol
  | param p => some p.symbol
  | _ => none

/-- The variables that nodes declare, in order. -/
def declaredSymbols (ns : List Node) : List (Option SymbolId) :=
  ns.filterMap Node.symbol?

theorem declaredSymbols_append (ns ms : List Node) :
    declaredSymbols (ns ++ ms) = declaredSymbols ns ++ declaredSymbols ms :=
  List.filterMap_append

/-- Expressions and initializers declare nothing. -/
theorem declaredSymbols_of_isValue {ns : List Node} (h : ∀ n ∈ ns, n.isValue = true) :
    declaredSymbols ns = [] := by
  rw [declaredSymbols, List.filterMap_eq_nil_iff]
  intro n hn
  have hvalue := h n hn
  cases n with
  | varDef d => cases hvalue
  | param p => cases hvalue
  | _ => rfl

theorem Expr.declaredSymbols_nodes (e : Expr) : declaredSymbols e.nodes = [] :=
  declaredSymbols_of_isValue e.isValue_nodes

theorem LValue.declaredSymbols_nodes (l : LValue) : declaredSymbols l.nodes = [] :=
  declaredSymbols_of_isValue l.isValue_nodes

theorem Initializer.declaredSymbols_nodes (x : Initializer) : declaredSymbols x.nodes = [] :=
  declaredSymbols_of_isValue x.isValue_nodes

namespace Typing

/-! ## Counting up -/

/-- The declarations have the handles that are new in `r'`, in order. -/
def Numbered (r r' : Registry) (ns : List Node) : Prop :=
  ∃ n, r'.symbols.size = r.symbols.size + n ∧
    declaredSymbols ns = (List.range' r.symbols.size n).map fun k => some ⟨k⟩

namespace Numbered

variable {r r₁ r' : Registry} {ns ms : List Node}

/-- Nodes that declare nothing leave the registry with the variables it had. -/
theorem silent (hns : declaredSymbols ns = []) (hr : r'.symbols = r.symbols) :
    Numbered r r' ns :=
  ⟨0, by rw [hr, Nat.add_zero], by rw [hns, List.range'_zero, List.map_nil]⟩

theorem append (h : Numbered r r₁ ns) (h' : Numbered r₁ r' ms) : Numbered r r' (ns ++ ms) := by
  obtain ⟨n, hsize, hns⟩ := h
  obtain ⟨m, hsize', hms⟩ := h'
  refine ⟨n + m, by omega, ?_⟩
  rw [declaredSymbols_append, hns, hms, hsize, ← List.map_append, List.range'_append_1]

/-- A node that declares nothing may come last. -/
theorem last {n : Node} (h : Numbered r r' ns) (hn : n.symbol? = none) :
    Numbered r r' (ns ++ [n]) :=
  h.append (silent (by simp [declaredSymbols, hn]) rfl)

theorem nodup (h : Numbered r r' ns) : (declaredSymbols ns).Nodup := by
  obtain ⟨n, _, hns⟩ := h
  rw [hns]
  refine List.Nodup.map ?_ List.nodup_range'
  intro a b hab
  exact SymbolId.mk.inj (Option.some.inj hab)

end Numbered

/-- A declaration takes the next number. -/
theorem register_numbered {r r' : Registry} {c : ScopeId} {name : String} {y : Symbol}
    {v : SymbolId} {n : Node} (h : r.register c name y = .ok (v, r'))
    (hn : n.symbol? = some (some v)) : Numbered r r' [n] := by
  obtain ⟨_, _, _, _, rfl, rfl⟩ := Registry.register_ok.mp h
  exact ⟨1, Array.size_push .., by simp [declaredSymbols, hn]⟩

theorem varDef_numbered {isConstant : Bool} {basic : BasicType} {d d' : VarDef} {s s' : State}
    (h : varDef isConstant basic d s = .ok d' s') :
    Numbered s.registry s'.registry d'.nodes := by
  obtain ⟨_, init, v, r, _, _, hreg, rfl, rfl⟩ := varDef_ok.mp h
  have hinit : declaredSymbols (init.elim [] Initializer.nodes) = [] := by
    cases init with
    | none => rfl
    | some x => exact Initializer.declaredSymbols_nodes x
  rw [VarDef.nodes]
  exact (Numbered.silent hinit rfl).append (register_numbered hreg rfl)

theorem varDefs_numbered {isConstant : Bool} {basic : BasicType} :
    ∀ {ds ds' : List VarDef} {s s' : State}, varDefs isConstant basic ds s = .ok ds' s' →
      Numbered s.registry s'.registry (ds'.flatMap VarDef.nodes)
  | [], _, _, _, h => by
    obtain ⟨rfl, rfl⟩ := varDefs_nil_ok.mp h
    exact .silent rfl rfl
  | _ :: _, _, _, _, h => by
    obtain ⟨d', ds', s₁, hd, hds, rfl⟩ := varDefs_cons_ok.mp h
    rw [List.flatMap_cons]
    exact (varDef_numbered hd).append (varDefs_numbered hds)

theorem decl_numbered {d d' : Decl} {s s' : State} (h : decl d s = .ok d' s') :
    Numbered s.registry s'.registry d'.nodes := by
  obtain ⟨defs, hdefs, rfl⟩ := decl_ok.mp h
  exact (varDefs_numbered hdefs).last rfl

theorem optional_numbered {r : Registry} (value : Option Expr) :
    Numbered r r (value.elim [] Expr.nodes) := by
  cases value with
  | none => exact .silent rfl rfl
  | some e => exact .silent (Expr.declaredSymbols_nodes e) rfl

theorem expr_numbered {r : Registry} (e : Expr) : Numbered r r e.nodes :=
  .silent (Expr.declaredSymbols_nodes e) rfl

mutual

theorem stmt_numbered :
    ∀ {t t' : Stmt} {s s' : State}, stmt t s = .ok t' s' →
      Numbered s.registry s'.registry t'.nodes
  | ⟨_, .assign _ _, _, _⟩, _, _, _, h => by
    obtain ⟨target', value', _, _, _, _, rfl, rfl⟩ := stmt_assign_ok.mp h
    rw [Stmt.nodes, StmtKind.nodes]
    exact ((Numbered.silent (LValue.declaredSymbols_nodes target') rfl).append
      (expr_numbered value')).last rfl
  | ⟨_, .expr none, _, _⟩, _, _, _, h => by
    obtain ⟨rfl, rfl⟩ := stmt_empty_ok.mp h
    rw [Stmt.nodes, StmtKind.nodes]
    exact (optional_numbered none).last rfl
  | ⟨_, .expr (some _), _, _⟩, _, _, _, h => by
    obtain ⟨value', _, _, rfl, rfl⟩ := stmt_expr_ok.mp h
    rw [Stmt.nodes, StmtKind.nodes]
    exact (optional_numbered (some value')).last rfl
  | ⟨_, .block _, _, _⟩, _, _, _, h => by
    obtain ⟨b', hb, rfl⟩ := stmt_block_ok.mp h
    rw [Stmt.nodes, StmtKind.nodes]
    exact (block_numbered hb).last rfl
  | ⟨_, .cond _ _ none, _, _⟩, _, _, _, h => by
    obtain ⟨test', _, then', _, _, hthen, rfl⟩ := stmt_if_ok.mp h
    rw [Stmt.nodes, StmtKind.nodes]
    exact ((expr_numbered test').append (stmt_numbered hthen)).last rfl
  | ⟨_, .cond _ _ (some _), _, _⟩, _, _, _, h => by
    obtain ⟨test', _, then', else', s₁, _, _, hthen, helse, rfl⟩ := stmt_ifElse_ok.mp h
    rw [Stmt.nodes, StmtKind.nodes]
    exact ((expr_numbered test').append
      ((stmt_numbered hthen).append (stmt_numbered helse))).last rfl
  | ⟨_, .loop _ _, _, _⟩, _, _, _, h => by
    obtain ⟨test', _, body', s₁, _, _, hbody, rfl, rfl⟩ := stmt_loop_ok.mp h
    -- the loop that is noted around the body leaves the registry alone
    have hbody' := stmt_numbered hbody
    rw [Stmt.nodes, StmtKind.nodes]
    exact ((expr_numbered test').append hbody').last rfl
  | ⟨_, .leave _, _, _⟩, _, _, _, h => by
    obtain ⟨_, _, rfl, rfl⟩ := stmt_leave_ok.mp h
    rw [Stmt.nodes, StmtKind.nodes]
    exact (optional_numbered none).last rfl
  | ⟨_, .next _, _, _⟩, _, _, _, h => by
    obtain ⟨_, _, rfl, rfl⟩ := stmt_next_ok.mp h
    rw [Stmt.nodes, StmtKind.nodes]
    exact (optional_numbered none).last rfl
  | ⟨_, .ret none _, _, _⟩, _, _, _, h => by
    obtain ⟨_, hk, rfl⟩ := stmt_ret_ok.mp h
    obtain ⟨_, _, _, _, _, rfl, rfl⟩ := returning_none_ok.mp hk
    rw [Stmt.nodes, StmtKind.nodes]
    exact (optional_numbered none).last rfl
  | ⟨_, .ret (some _) _, _, _⟩, _, _, _, h => by
    obtain ⟨_, hk, rfl⟩ := stmt_ret_ok.mp h
    obtain ⟨_, _, value', _, _, _, _, _, _, rfl, rfl⟩ := returning_some_ok.mp hk
    rw [Stmt.nodes, StmtKind.nodes]
    exact (optional_numbered (some value')).last rfl

theorem block_numbered :
    ∀ {b b' : Block} {s s' : State}, block b s = .ok b' s' →
      Numbered s.registry s'.registry b'.nodes
  | ⟨_, _, _, _, _⟩, _, _, _, h => by
    obtain ⟨items', _, s₁, hitems, rfl, rfl⟩ := block_ok.mp h
    -- the new scope comes without variables
    have hitems' := blockItems_numbered hitems
    rw [Block.nodes]
    exact hitems'.last rfl

theorem blockItems_numbered :
    ∀ {items items' : List BlockItem} {hasReturn : Bool} {s s' : State},
      blockItems items s = .ok (items', hasReturn) s' →
      Numbered s.registry s'.registry (BlockItem.allNodes items')
  | [], _, _, _, _, h => by
    obtain ⟨rfl, _, rfl⟩ := blockItems_nil_ok.mp h
    rw [BlockItem.allNodes]
    exact .silent rfl rfl
  | .decl _ :: _, _, _, _, _, h => by
    obtain ⟨d', rest', s₁, hd, hrest, rfl⟩ := blockItems_decl_ok.mp h
    rw [BlockItem.allNodes]
    exact (decl_numbered hd).append (blockItems_numbered hrest)
  | .stmt _ :: _, _, _, _, _, h => by
    obtain ⟨t', rest', _, s₁, ht, hrest, rfl, _⟩ := blockItems_stmt_ok.mp h
    rw [BlockItem.allNodes]
    exact (stmt_numbered ht).append (blockItems_numbered hrest)

end

theorem params_numbered {function : FunctionId} :
    ∀ {ps ps' : List Param} {s s' : State}, params function ps s = .ok ps' s' →
      Numbered s.registry s'.registry (ps'.map .param)
  | [], _, _, _, h => by
    obtain ⟨rfl, rfl⟩ := params_nil_ok.mp h
    exact .silent rfl rfl
  | _ :: _, _, s, _, h => by
    obtain ⟨p', ps', s₁, hp, hps, rfl⟩ := params_cons_ok.mp h
    obtain ⟨_, r₁, v, r₂, _, hadd, hreg, rfl, rfl⟩ := param_ok.mp hp
    obtain ⟨_, _, rfl⟩ := Registry.addParameter_ok.mp hadd
    have hrest := params_numbered hps
    exact (register_numbered hreg rfl).append hrest

theorem funcDef_numbered {f f' : FuncDef} {s s' : State} (h : funcDef f s = .ok f' s') :
    Numbered s.registry s'.registry f'.nodes := by
  obtain ⟨_, _, ps, s₁, body, s₂, hps, hbody, rfl, rfl⟩ := funcDef_ok.mp h
  -- declaring the function and its scope adds no variable
  have hparams := params_numbered hps
  have hbody' := block_numbered hbody
  rw [FuncDef.nodes]
  exact hparams.append (hbody'.last rfl)

theorem items_numbered :
    ∀ {is is' : List Item} {s s' : State}, items is s = .ok is' s' →
      Numbered s.registry s'.registry (is'.flatMap Item.nodes)
  | [], _, _, _, h => by
    obtain ⟨rfl, rfl⟩ := items_nil_ok.mp h
    exact .silent rfl rfl
  | .decl _ :: _, _, _, _, h => by
    obtain ⟨d', rest', s₁, hd, hrest, rfl⟩ := items_decl_ok.mp h
    rw [List.flatMap_cons]
    exact (decl_numbered hd).append (items_numbered hrest)
  | .func _ :: _, _, _, _, h => by
    obtain ⟨f', rest', s₁, hf, hrest, rfl⟩ := items_func_ok.mp h
    rw [List.flatMap_cons]
    exact (funcDef_numbered hf).append (items_numbered hrest)

/-- No two declarations of an accepted program have the same variable. -/
theorem typeCheck_symbols_nodup {withBuiltins : Bool} {p p' : Program} {r : Registry}
    (h : typeCheck withBuiltins p = (.ok p', r)) : (declaredSymbols p'.nodes).Nodup := by
  obtain ⟨is, s, hi, rfl, rfl⟩ := typeCheck_ok.mp h
  exact (items_numbered hi).nodup

end Typing

end CactLang
