import CactLang.Proofs.Refinement.Expression

/-!
# Type checking refines the typing rules

A program passes the check just when the typing rules derive it, and the tree that
comes back then carries on every expression what the rules derive for it.

> `typeCheck_iff_wellTyped`

The registry keeps all scopes for good and gains parameters while a function is
checked; the rules know only the frames around a place. `Shows` is the bridge: at
every point of the walk the registry looks like the table and the environment of the
rule that is applied there.
-/

namespace CactLang.Typing

open Rules

variable {F : Table} {Γ : Env} {note : Expr → ExprInfo → Prop}

/-- In this state the registry is the table, and from the current scope it is the
environment. -/
structure Shows (s : State) (F : Table) (Γ : Env) : Prop where
  functions : table s.registry = F
  frames : Sees s.registry s.context.scope Γ

/-- A check that binds nothing around it leaves the view as it was. -/
theorem Shows.keep {α : Type} {m : Check α} {s s' : State} {a : α} (hs : Shows s F Γ)
    (hm : Keeps nowhere m) (h : m s = .ok a s') : Shows s' F Γ := by
  obtain ⟨hcontext, hgrows⟩ := hm.ok h
  refine ⟨?_, ?_⟩
  · rw [← hs.functions]
    exact table_congr hgrows.functions
  · rw [hcontext]
    exact hs.frames.grow hgrows (by simp [nowhere])

/-- A new scope shows an environment with an empty frame on top. -/
theorem Shows.inScope {s : State} (hs : Shows s F Γ) : Shows s.inScope F ([] :: Γ) :=
  ⟨hs.functions, hs.frames.push⟩

/-! ## Declarations -/

/-- A name that is bound was free, and is one more variable of the innermost frame. -/
theorem Shows.bind {s : State} {r : Registry} {name : String} {y : Symbol} {v : SymbolId}
    (hs : Shows s F Γ) (h : s.registry.register s.context.scope name y = .ok (v, r)) :
    Γ.Free F name ∧ Shows { s with registry := r } F (Γ.add name ⟨y.ty, y.isConstant⟩) := by
  refine ⟨?_, ?_, hs.frames.add h⟩
  · rw [← hs.functions]
    exact (hs.frames.register y).mp ⟨v, r, h⟩
  · obtain ⟨_, _, _, _, _, rfl⟩ := Registry.register_ok.mp h
    exact hs.functions

/-- Definitions that pass are derived, each in the environment that those before it leave. -/
theorem varDefs_derives {isConstant : Bool} {basic : BasicType} :
    ∀ {ds ds' : List VarDef} {s s' : State} {Γ : Env}, Shows s F Γ →
      varDefs isConstant basic ds s = .ok ds' s' →
      ∃ Γ', Defines Unread F isConstant basic Γ ds Γ' ∧
        Defines Noted F isConstant basic Γ ds' Γ' ∧ Shows s' F Γ'
  | [], _, _, _, Γ, hs, h => by
    obtain ⟨rfl, rfl⟩ := varDefs_nil_ok.mp h
    exact ⟨Γ, .nil, .nil, hs⟩
  | d :: ds, _, s, _, Γ, hs, h => by
    obtain ⟨x, xs, s₁, hx, hxs, rfl⟩ := varDefs_cons_ok.mp h
    obtain ⟨ty, init, v, r, hty, hinit, hreg, rfl, rfl⟩ := varDef_ok.mp hx
    obtain ⟨extents, hextents, rfl⟩ := typeOf_iff.mp hty
    have hfits : (∀ x ∈ d.init, Fits Unread F Γ ⟨basic, extents⟩ 0 x) ∧
        ∀ x ∈ init, Fits Noted F Γ ⟨basic, extents⟩ 0 x := by
      rw [← hs.functions]
      rcases rel_cases hinit with ⟨hd, rfl⟩ | ⟨y, y', hd, rfl, hcheck⟩
      · simp [hd]
      · simpa [hd] using checkInitializer_derives hs.frames hcheck
    -- the value is checked before the name is bound, so it does not see the name
    obtain ⟨hfree, hs₁⟩ := hs.bind hreg
    rw [declaredSymbol_ty, declaredSymbol_isConstant] at hs₁
    obtain ⟨Γ', hds, hds', hs'⟩ := varDefs_derives hs₁ hxs
    exact ⟨Γ', .cons hextents hfits.1 hfree hds, .cons hextents hfits.2 hfree hds', hs'⟩

/-- Definitions that are derived pass. -/
theorem varDefs_accepts {isConstant : Bool} {basic : BasicType} :
    ∀ {ds : List VarDef} {s : State} {Γ Γ' : Env}, Shows s F Γ →
      Defines note F isConstant basic Γ ds Γ' →
      ∃ ds' s', varDefs isConstant basic ds s = .ok ds' s' ∧ Shows s' F Γ'
  | [], s, _, _, hs, h => by
    cases h with
    | nil => exact ⟨[], s, varDefs_nil_ok.mpr ⟨rfl, rfl⟩, hs⟩
  | d :: ds, s, Γ, Γ', hs, h => by
    cases h with
    | @cons _ _ _ _ extents hextents hfits hfree hds =>
      obtain ⟨init, hinit⟩ : ∃ init, Option.Rel (fun x x' =>
          checkInitializer s.registry s.context.scope ⟨basic, extents⟩ 0 x = .ok x')
          d.init init := by
        rw [← hs.functions] at hfits
        cases hd : d.init with
        | none => exact ⟨none, .none⟩
        | some x =>
          obtain ⟨x', hx'⟩ := checkInitializer_accepts hs.frames (hfits x hd)
          exact ⟨some x', .some hx'⟩
      have hty : typeOf basic d.dims false d.id = .ok ⟨basic, extents⟩ :=
        typeOf_iff.mpr ⟨extents, hextents, rfl⟩
      rw [← hs.functions] at hfree
      obtain ⟨v, r, hreg⟩ := (hs.frames.register
        (declaredSymbol isConstant d ⟨basic, extents⟩)).mpr hfree
      obtain ⟨_, hs₁⟩ := hs.bind hreg
      rw [declaredSymbol_ty, declaredSymbol_isConstant] at hs₁
      obtain ⟨ds', s', hds', hs'⟩ := varDefs_accepts hs₁ hds
      exact ⟨_, s', varDefs_cons_ok.mpr ⟨_, ds', _, varDef_ok.mpr
        ⟨_, init, v, r, hty, hinit, hreg, rfl, rfl⟩, hds', rfl⟩, hs'⟩

/-! ## Statements -/

/-- The walk is in the body of a function that returns `returns`. -/
structure InBody (s : State) (F : Table) (returns : BasicType) (inLoop : Bool) (Γ : Env) :
    Prop where
  shows : Shows s F Γ
  function : ∃ f signature, s.context.function = some f ∧
    s.registry.function? f = some signature ∧ signature.returns = .scalar returns
  loops : inLoop = !s.context.loops.isEmpty

section

variable {returns : BasicType} {inLoop : Bool}

/-- A check that binds nothing in the current scope leaves the environment as it is. -/
theorem InBody.keep {α : Type} {m : Check α} {s s' : State} {a : α}
    (hs : InBody s F returns inLoop Γ) (hm : Keeps nowhere m) (h : m s = .ok a s') :
    InBody s' F returns inLoop Γ := by
  obtain ⟨hcontext, hgrows⟩ := hm.ok h
  refine ⟨hs.shows.keep hm h, ?_, by rw [hcontext]; exact hs.loops⟩
  rw [hcontext]
  simp only [hgrows.function]
  exact hs.function

/-- A block is checked with an empty frame on top. -/
theorem InBody.inScope {s : State} (hs : InBody s F returns inLoop Γ) :
    InBody s.inScope F returns inLoop ([] :: Γ) :=
  ⟨hs.shows.inScope, hs.function, hs.loops⟩

/-- The body of a loop is checked inside of it. -/
theorem InBody.enterLoop {s : State} (hs : InBody s F returns inLoop Γ) (loop : NodeId) :
    InBody (s.inLoop loop) F returns true Γ :=
  ⟨⟨hs.shows.functions, hs.shows.frames⟩, hs.function, rfl⟩

/-- Declarations leave the walk where it is, with more variables around. -/
theorem InBody.declare {s s' : State} {Γ' : Env} (hs : InBody s F returns inLoop Γ)
    {isConstant : Bool} {basic : BasicType} {ds ds' : List VarDef}
    (h : varDefs isConstant basic ds s = .ok ds' s') (hs' : Shows s' F Γ') :
    InBody s' F returns inLoop Γ' := by
  obtain ⟨hcontext, hgrows⟩ := (varDefs_keeps isConstant basic ds).ok h
  refine ⟨hs', ?_, by rw [hcontext]; exact hs.loops⟩
  rw [hcontext]
  simp only [hgrows.function]
  exact hs.function

/-- There is a loop to jump to just when the rules allow the jump. -/
theorem InBody.head? {s : State} (hs : InBody s F returns inLoop Γ) :
    (∃ loop, s.context.loops.head? = some loop) ↔ inLoop = true := by
  rw [hs.loops]
  cases s.context.loops <;> simp

/-- The function around a place returns what the rules say. -/
theorem InBody.signature_returns {s : State} (hs : InBody s F returns inLoop Γ) {f : FunctionId}
    {signature : Signature} (hf : s.context.function = some f)
    (hsignature : s.registry.function? f = some signature) :
    signature.returns = .scalar returns := by
  obtain ⟨f', signature', hf', hsignature', hreturns⟩ := hs.function
  obtain rfl : f = f' := Option.some.inj (hf.symm.trans hf')
  obtain rfl : signature = signature' := Option.some.inj (hsignature.symm.trans hsignature')
  exact hreturns

/-- An expression that passes is derived, before and after its types are written on it. -/
theorem InBody.expr_derives {s : State} (hs : InBody s F returns inLoop Γ) {e e' : Expr}
    {i : ExprInfo} (h : checkExpr s.registry s.context.scope false e = .ok (e', i)) :
    HasType Unread F Γ false e i ∧ HasType Noted F Γ false e' i := by
  rw [← hs.shows.functions]
  exact checkExpr_derives hs.shows.frames h

/-- An expression that is derived passes. -/
theorem InBody.expr_accepts {s : State} (hs : InBody s F returns inLoop Γ) {e : Expr}
    {i : ExprInfo} (h : HasType note F Γ false e i) :
    ∃ e', checkExpr s.registry s.context.scope false e = .ok (e', i) := by
  rw [← hs.shows.functions] at h
  exact checkExpr_accepts hs.shows.frames h

mutual

/-- A statement that passes is derived, by recursion on the tree. -/
theorem stmt_derives :
    ∀ {t t' : Stmt} {s s' : State} {inLoop : Bool} {Γ : Env}, InBody s F returns inLoop Γ →
      stmt t s = .ok t' s' →
      Passes Unread F returns inLoop Γ t.kind ∧ Passes Noted F returns inLoop Γ t'.kind
  | ⟨_, .assign _ _, _, _⟩, _, s, _, _, Γ, hs, h => by
    obtain ⟨target', value', i, htarget, hassign, hvalue, rfl, _⟩ := stmt_assign_ok.mp h
    obtain ⟨x, hx, hx', hx''⟩ := checkLValue_derives hs.shows.frames htarget
    rw [hs.shows.functions] at hx hx'
    obtain ⟨hi, hi'⟩ := hs.expr_derives hvalue
    have hconst : x.isConstant = false := by simpa [hassign] using hx''
    exact ⟨.assign hx hconst hi, .assign hx' hconst hi'⟩
  | ⟨_, .expr none, _, _⟩, _, _, _, _, _, _, h => by
    obtain ⟨rfl, _⟩ := stmt_empty_ok.mp h
    exact ⟨.empty, .empty⟩
  | ⟨_, .expr (some _), _, _⟩, _, _, _, _, _, hs, h => by
    obtain ⟨value', i, hvalue, rfl, _⟩ := stmt_expr_ok.mp h
    obtain ⟨hi, hi'⟩ := hs.expr_derives hvalue
    exact ⟨.expr hi, .expr hi'⟩
  | ⟨_, .block _, _, _⟩, _, _, _, _, _, hs, h => by
    obtain ⟨b', hb, rfl⟩ := stmt_block_ok.mp h
    obtain ⟨hpass, hpass'⟩ := block_derives hs hb
    exact ⟨.block hpass, .block hpass'⟩
  | ⟨_, .cond _ _ none, _, _⟩, _, _, _, _, _, hs, h => by
    obtain ⟨test', i, then', htest, hbool, hthen, rfl⟩ := stmt_if_ok.mp h
    obtain ⟨hi, hi'⟩ := hs.expr_derives htest
    obtain ⟨hpass, hpass'⟩ := stmt_derives hs hthen
    exact ⟨.cond hi hbool hpass, .cond hi' hbool hpass'⟩
  | ⟨_, .cond _ thenBranch (some _), _, _⟩, _, _, _, _, _, hs, h => by
    obtain ⟨test', i, then', else', s₁, htest, hbool, hthen, helse, rfl⟩ := stmt_ifElse_ok.mp h
    obtain ⟨hi, hi'⟩ := hs.expr_derives htest
    obtain ⟨hpass, hpass'⟩ := stmt_derives hs hthen
    obtain ⟨helse, helse'⟩ := stmt_derives (hs.keep (stmt_keeps thenBranch) hthen) helse
    exact ⟨.condElse hi hbool hpass helse, .condElse hi' hbool hpass' helse'⟩
  | ⟨id, .loop _ _, _, _⟩, _, _, _, _, _, hs, h => by
    obtain ⟨test', i, body', s₁, htest, hbool, hbody, rfl, _⟩ := stmt_loop_ok.mp h
    obtain ⟨hi, hi'⟩ := hs.expr_derives htest
    obtain ⟨hpass, hpass'⟩ := stmt_derives (hs.enterLoop id) hbody
    exact ⟨.loop hi hbool hpass, .loop hi' hbool hpass'⟩
  | ⟨_, .leave _, _, _⟩, _, _, _, _, _, hs, h => by
    obtain ⟨loop, hloop, rfl, _⟩ := stmt_leave_ok.mp h
    obtain rfl := hs.head?.mp ⟨loop, hloop⟩
    exact ⟨.leave, .leave⟩
  | ⟨_, .next _, _, _⟩, _, _, _, _, _, hs, h => by
    obtain ⟨loop, hloop, rfl, _⟩ := stmt_next_ok.mp h
    obtain rfl := hs.head?.mp ⟨loop, hloop⟩
    exact ⟨.next, .next⟩
  | ⟨_, .ret none _, _, _⟩, _, _, _, _, _, hs, h => by
    obtain ⟨k, hk, rfl⟩ := stmt_ret_ok.mp h
    obtain ⟨f, signature, hf, hsignature, hvoid, rfl, _⟩ := returning_none_ok.mp hk
    rw [hs.signature_returns hf hsignature] at hvoid
    exact ⟨.done hvoid, .done hvoid⟩
  | ⟨_, .ret (some _) _, _, _⟩, _, _, _, _, _, hs, h => by
    obtain ⟨k, hk, rfl⟩ := stmt_ret_ok.mp h
    obtain ⟨f, signature, value', i, hf, hsignature, hvoid, hvalue, hty, rfl, _⟩ :=
      returning_some_ok.mp hk
    obtain ⟨hi, hi'⟩ := hs.expr_derives hvalue
    rw [hs.signature_returns hf hsignature] at hvoid hty
    exact ⟨.ret hvoid hi hty, .ret hvoid hi' hty⟩

theorem block_derives :
    ∀ {b b' : Block} {s s' : State} {inLoop : Bool} {Γ : Env}, InBody s F returns inLoop Γ →
      block b s = .ok b' s' →
      BlockPasses Unread F returns inLoop Γ b ∧ BlockPasses Noted F returns inLoop Γ b'
  | ⟨_, _, _, _, _⟩, _, _, _, _, _, hs, h => by
    obtain ⟨items', _, s₁, hitems, rfl, _⟩ := block_ok.mp h
    obtain ⟨hpass, hpass'⟩ := blockItems_derives hs.inScope hitems
    exact ⟨.intro hpass, .intro hpass'⟩

theorem blockItems_derives :
    ∀ {items items' : List BlockItem} {hasReturn : Bool} {s s' : State} {inLoop : Bool} {Γ : Env},
      InBody s F returns inLoop Γ → blockItems items s = .ok (items', hasReturn) s' →
      ItemsPass Unread F returns inLoop Γ items ∧ ItemsPass Noted F returns inLoop Γ items'
  | [], _, _, _, _, _, _, _, h => by
    obtain ⟨rfl, _, _⟩ := blockItems_nil_ok.mp h
    exact ⟨.nil, .nil⟩
  | .decl _ :: _, _, _, _, _, _, _, hs, h => by
    obtain ⟨d', rest', s₁, hd, hrest, rfl⟩ := blockItems_decl_ok.mp h
    obtain ⟨defs', hdefs, rfl⟩ := decl_ok.mp hd
    obtain ⟨Γ', hdef, hdef', hs₁⟩ := varDefs_derives hs.shows hdefs
    obtain ⟨hpass, hpass'⟩ := blockItems_derives (hs.declare hdefs hs₁) hrest
    exact ⟨.decl hdef hpass, .decl hdef' hpass'⟩
  | .stmt t :: _, _, _, _, _, _, _, hs, h => by
    obtain ⟨t', rest', _, s₁, ht, hrest, rfl, _⟩ := blockItems_stmt_ok.mp h
    obtain ⟨hstmt, hstmt'⟩ := stmt_derives hs ht
    obtain ⟨hpass, hpass'⟩ := blockItems_derives (hs.keep (stmt_keeps t) ht) hrest
    exact ⟨.stmt hstmt hpass, .stmt hstmt' hpass'⟩

end

mutual

/-- A statement that is derived passes, by recursion on the tree. -/
theorem stmt_accepts :
    ∀ {t : Stmt} {s : State} {inLoop : Bool} {Γ : Env}, InBody s F returns inLoop Γ →
      Passes note F returns inLoop Γ t.kind → ∃ t' s', stmt t s = .ok t' s'
  | ⟨_, .assign _ _, _, _⟩, s, _, _, hs, h => by
    cases h with
    | assign hx hconst hi =>
      rw [← hs.shows.functions] at hx
      obtain ⟨target', htarget, hassign⟩ := checkLValue_accepts hs.shows.frames hx
      obtain ⟨value', hvalue⟩ := hs.expr_accepts hi
      rw [hconst] at hassign
      exact ⟨_, s, stmt_assign_ok.mpr ⟨target', value', _, htarget, hassign, hvalue, rfl, rfl⟩⟩
  | ⟨_, .expr none, _, _⟩, s, _, _, _, _ => ⟨_, s, stmt_empty_ok.mpr ⟨rfl, rfl⟩⟩
  | ⟨_, .expr (some _), _, _⟩, s, _, _, hs, h => by
    cases h with
    | expr hi =>
      obtain ⟨value', hvalue⟩ := hs.expr_accepts hi
      exact ⟨_, s, stmt_expr_ok.mpr ⟨value', _, hvalue, rfl, rfl⟩⟩
  | ⟨_, .block _, _, _⟩, _, _, _, hs, h => by
    cases h with
    | block hpass =>
      obtain ⟨b', s', hb⟩ := block_accepts hs hpass
      exact ⟨_, s', stmt_block_ok.mpr ⟨b', hb, rfl⟩⟩
  | ⟨_, .cond _ _ none, _, _⟩, _, _, _, hs, h => by
    cases h with
    | cond hi hbool hpass =>
      obtain ⟨test', htest⟩ := hs.expr_accepts hi
      obtain ⟨then', s', hthen⟩ := stmt_accepts hs hpass
      exact ⟨_, s', stmt_if_ok.mpr ⟨test', _, then', htest, hbool, hthen, rfl⟩⟩
  | ⟨_, .cond _ thenBranch (some _), _, _⟩, _, _, _, hs, h => by
    cases h with
    | condElse hi hbool hpass hpass' =>
      obtain ⟨test', htest⟩ := hs.expr_accepts hi
      obtain ⟨then', s₁, hthen⟩ := stmt_accepts hs hpass
      obtain ⟨else', s', helse⟩ := stmt_accepts (hs.keep (stmt_keeps thenBranch) hthen) hpass'
      exact ⟨_, s', stmt_ifElse_ok.mpr ⟨test', _, then', else', s₁, htest, hbool, hthen, helse,
        rfl⟩⟩
  | ⟨id, .loop _ _, _, _⟩, s, _, _, hs, h => by
    cases h with
    | loop hi hbool hpass =>
      obtain ⟨test', htest⟩ := hs.expr_accepts hi
      obtain ⟨body', s₁, hbody⟩ := stmt_accepts (hs.enterLoop id) hpass
      exact ⟨_, _, stmt_loop_ok.mpr ⟨test', _, body', s₁, htest, hbool, hbody, rfl, rfl⟩⟩
  | ⟨_, .leave _, _, _⟩, s, _, _, hs, h => by
    cases h with
    | leave =>
      obtain ⟨loop, hloop⟩ := hs.head?.mpr rfl
      exact ⟨_, s, stmt_leave_ok.mpr ⟨loop, hloop, rfl, rfl⟩⟩
  | ⟨_, .next _, _, _⟩, s, _, _, hs, h => by
    cases h with
    | next =>
      obtain ⟨loop, hloop⟩ := hs.head?.mpr rfl
      exact ⟨_, s, stmt_next_ok.mpr ⟨loop, hloop, rfl, rfl⟩⟩
  | ⟨_, .ret none _, _, _⟩, s, _, _, hs, h => by
    cases h with
    | done hvoid =>
      obtain ⟨f, signature, hf, hsignature, hreturns⟩ := hs.function
      exact ⟨_, s, stmt_ret_ok.mpr ⟨_, returning_none_ok.mpr
        ⟨f, signature, hf, hsignature, by rw [hreturns]; exact hvoid, rfl, rfl⟩, rfl⟩⟩
  | ⟨_, .ret (some _) _, _, _⟩, s, _, _, hs, h => by
    cases h with
    | ret hvoid hi hty =>
      obtain ⟨f, signature, hf, hsignature, hreturns⟩ := hs.function
      obtain ⟨value', hvalue⟩ := hs.expr_accepts hi
      exact ⟨_, s, stmt_ret_ok.mpr ⟨_, returning_some_ok.mpr ⟨f, signature, value', _, hf,
        hsignature, by rw [hreturns]; exact hvoid, hvalue, hty.trans hreturns.symm, rfl, rfl⟩, rfl⟩⟩

theorem block_accepts :
    ∀ {b : Block} {s : State} {inLoop : Bool} {Γ : Env}, InBody s F returns inLoop Γ →
      BlockPasses note F returns inLoop Γ b → ∃ b' s', block b s = .ok b' s'
  | ⟨_, _, _, _, _⟩, _, _, _, hs, h => by
    cases h with
    | intro hpass =>
      obtain ⟨items', hasReturn, s₁, hitems⟩ := blockItems_accepts hs.inScope hpass
      exact ⟨_, _, block_ok.mpr ⟨items', hasReturn, s₁, hitems, rfl, rfl⟩⟩

theorem blockItems_accepts :
    ∀ {items : List BlockItem} {s : State} {inLoop : Bool} {Γ : Env},
      InBody s F returns inLoop Γ → ItemsPass note F returns inLoop Γ items →
      ∃ items' hasReturn s', blockItems items s = .ok (items', hasReturn) s'
  | [], s, _, _, _, _ => ⟨[], false, s, blockItems_nil_ok.mpr ⟨rfl, rfl, rfl⟩⟩
  | .decl _ :: _, _, _, _, hs, h => by
    cases h with
    | decl hdef hpass =>
      obtain ⟨defs', s₁, hdefs, hs₁⟩ := varDefs_accepts hs.shows hdef
      obtain ⟨rest', hasReturn, s', hrest⟩ := blockItems_accepts (hs.declare hdefs hs₁) hpass
      exact ⟨_, hasReturn, s', blockItems_decl_ok.mpr
        ⟨_, rest', s₁, decl_ok.mpr ⟨defs', hdefs, rfl⟩, hrest, rfl⟩⟩
  | .stmt t :: _, _, _, _, hs, h => by
    cases h with
    | stmt hstmt hpass =>
      obtain ⟨t', s₁, ht⟩ := stmt_accepts hs hstmt
      obtain ⟨rest', hasReturn, s', hrest⟩ := blockItems_accepts (hs.keep (stmt_keeps t) ht) hpass
      exact ⟨_, _, s', blockItems_stmt_ok.mpr ⟨t', rest', hasReturn, s₁, ht, hrest, rfl, rfl⟩⟩

end

end

/-! ## Functions -/

/-- Away from the outermost frame, functions do not matter for which names are free. -/
theorem free_inner {G : Table} {name : String} (hΓ : 1 < Γ.length) :
    Γ.Free F name ↔ Γ.Free G name := by
  match Γ, hΓ with
  | _ :: _ :: _, _ => exact Iff.rfl

theorem length_add (Γ : Env) (name : String) (x : Variable) : (Γ.add name x).length = Γ.length := by
  cases Γ <;> rfl

/-- Parameters that pass are derived, with the types that the function has for them. -/
theorem params_derives {function : FunctionId} :
    ∀ {ps ps' : List Param} {tys : List Ty} {s s' : State} {Γ : Env},
      Sees s.registry s.context.scope Γ → 1 < Γ.length →
      List.Forall₂ (fun p ty => typeOf p.basic p.dims p.isOpen p.id = .ok ty) ps tys →
      params function ps s = .ok ps' s' →
      ∃ Γ', Receives F Γ ps tys Γ' ∧ Receives F Γ ps' tys Γ' ∧
        Sees s'.registry s'.context.scope Γ'
  | [], _, _, _, _, Γ, hs, _, htys, h => by
    obtain ⟨rfl, rfl⟩ := params_nil_ok.mp h
    cases htys
    exact ⟨Γ, .nil, .nil, hs⟩
  | p :: ps, _, _, s, _, Γ, hs, hΓ, htys, h => by
    obtain ⟨x, xs, s₁, hx, hxs, rfl⟩ := params_cons_ok.mp h
    obtain ⟨ty, r₁, v, r₂, hty, hadd, hreg, rfl, rfl⟩ := param_ok.mp hx
    obtain ⟨f, hf, rfl⟩ := Registry.addParameter_ok.mp hadd
    cases htys with
    | cons hty' htys =>
      obtain rfl := Except.ok.inj (hty.symm.trans hty')
      obtain ⟨extents, hextents, htype⟩ := typeOf_iff.mp hty
      -- the signature grows first, which nothing can see; then the name is bound
      have hs₁ := hs.updated (f := { f with parameters := f.parameters ++ [⟨p.name, ty⟩] }) hf rfl
      have hfree := (free_inner (G := F) hΓ).mp ((hs₁.register _).mp ⟨v, r₂, hreg⟩)
      have hΓ₁ : 1 < (Γ.add p.name ⟨ty, false⟩).length := by rw [length_add]; exact hΓ
      obtain ⟨Γ', hrest, hrest', hs'⟩ := params_derives (s := { s with registry := r₂ })
        (hs₁.add hreg) hΓ₁ htys hxs
      exact ⟨Γ', .cons hextents htype hfree hrest, .cons hextents htype hfree hrest', hs'⟩

/-- Parameters that are derived pass. -/
theorem params_accepts {function : FunctionId} :
    ∀ {ps : List Param} {tys : List Ty} {s : State} {f : Signature} {Γ Γ' : Env},
      Sees s.registry s.context.scope Γ → 1 < Γ.length →
      s.registry.function? function = some f → Receives F Γ ps tys Γ' →
      ∃ ps' s', params function ps s = .ok ps' s' ∧ Sees s'.registry s'.context.scope Γ'
  | [], _, s, _, _, _, hs, _, _, h => by
    cases h
    exact ⟨[], s, params_nil_ok.mpr ⟨rfl, rfl⟩, hs⟩
  | p :: ps, _, s, f, Γ, Γ', hs, hΓ, hf, h => by
    cases h with
    | @cons _ _ _ _ extents ty tys hextents htype hfree hrest =>
      have hs₁ := hs.updated (f := { f with parameters := f.parameters ++ [⟨p.name, ty⟩] }) hf rfl
      obtain ⟨v, r₂, hreg⟩ := (hs₁.register (.ofParameter p.name ty)).mpr
        ((free_inner hΓ).mp hfree)
      have hlt := (Array.getElem?_eq_some_iff.mp hf).1
      -- the next parameter is added to the signature as it is now
      have hf₁ : r₂.function? function = some
          { f with parameters := f.parameters ++ [⟨p.name, ty⟩] } := by
        obtain ⟨_, _, _, _, _, rfl⟩ := Registry.register_ok.mp hreg
        exact Array.getElem?_setIfInBounds_self_of_lt hlt
      have hΓ₁ : 1 < (Γ.add p.name ⟨ty, false⟩).length := by rw [length_add]; exact hΓ
      obtain ⟨ps', s', hps, hs'⟩ := params_accepts (s := { s with registry := r₂ })
        (hs₁.add hreg) hΓ₁ hf₁ hrest
      exact ⟨_, s', params_cons_ok.mpr ⟨_, ps', _, param_ok.mpr ⟨ty, _, v, r₂,
        typeOf_iff.mpr ⟨extents, hextents, htype⟩, Registry.addParameter_ok.mpr ⟨f, hf, rfl⟩, hreg,
        rfl, rfl⟩, hps, rfl⟩, hs'⟩

/-- Parameters are received with the types that were written. -/
theorem receives_types :
    ∀ {ps : List Param} {tys : List Ty} {Γ Γ' : Env}, Receives F Γ ps tys Γ' →
      List.Forall₂ (fun p ty => typeOf p.basic p.dims p.isOpen p.id = .ok ty) ps tys
  | _, _, _, _, .nil => .nil
  | _, _, _, _, .cons hextents htype _ hrest =>
    .cons (typeOf_iff.mpr ⟨_, hextents, htype⟩) (receives_types hrest)

theorem declaredParameters_types {R : Param → Ty → Prop} {ps : List Param} {tys : List Ty}
    (h : List.Forall₂ R ps tys) : (declaredParameters ps tys).map (·.ty) = tys := by
  induction h with
  | nil => rfl
  | cons _ _ ih =>
    rw [declaredParameters, List.zipWith_cons_cons, List.map_cons]
    exact congrArg _ ih

/-- With its parameters checked, the function of a definition is the last of the table. -/
theorem table_inFunction {f : FuncDef} {ps : List Param} {s s' : State} {tys : List Ty}
    (hs : table s.registry = F)
    (htys : List.Forall₂ (fun p ty => typeOf p.basic p.dims p.isOpen p.id = .ok ty) f.params tys)
    (h : params ⟨s.registry.functions.size⟩ f.params (s.inFunction f) = .ok ps s') :
    table s'.registry = F ++ [(f.name, ⟨.scalar f.returns, tys⟩)] := by
  obtain ⟨tys', htys', hgrows⟩ := inFunction_grows h
  obtain rfl : tys = tys' := List.right_unique_forall₂'
    (fun _ _ _ h₁ h₂ => Except.ok.inj (h₁.symm.trans h₂)) htys htys'
  rw [table_congr hgrows.functions, table_declared, prototype, declaredSignature,
    declaredParameters_types htys]
  exact congrArg (· ++ _) hs

/-- The walk is between the items of a program. -/
structure AtTop (s : State) (F : Table) (globals : Frame) : Prop where
  shows : Shows s F [globals]
  scope : s.registry.global = some s.context.scope
  loops : s.context.loops = []

/-- After the parameters, the walk is in the body, and the function is in the table. -/
theorem AtTop.body {f : FuncDef} {ps : List Param} {s s' : State} {globals : Frame} {F' : Table}
    (hs : AtTop s F globals) (hF' : table s'.registry = F')
    (h : params ⟨s.registry.functions.size⟩ f.params (s.inFunction f) = .ok ps s')
    (hΓ : Sees s'.registry s'.context.scope Γ) :
    InBody s' F' f.returns false Γ := by
  obtain ⟨tys, _, hgrows⟩ := inFunction_grows h
  have hcontext := params_context h
  refine ⟨⟨hF', hΓ⟩, ⟨⟨s.registry.functions.size⟩, declaredSignature f tys, ?_, ?_, rfl⟩, ?_⟩
  · rw [hcontext]
    rfl
  · rw [Registry.function?, hgrows.functions]
    exact Array.getElem?_push_size
  · rw [hcontext, show (s.inFunction f).context.loops = s.context.loops from rfl, hs.loops]
    rfl

/-- After a definition the walk is back between items, with the globals as they were. -/
theorem AtTop.next {f f' : FuncDef} {s s' : State} {globals : Frame} {F' : Table}
    (hs : AtTop s F globals) (h : funcDef f s = .ok f' s') (hF' : table s'.registry = F') :
    AtTop s' F' globals := by
  obtain ⟨tys, _, hgrows⟩ := funcDef_grows h
  obtain ⟨_, hname, _, _, _, _, _, _, _, rfl⟩ := funcDef_ok.mp h
  have hdeclared := hs.shows.frames.declared (f := declaredSignature f tys) hname
  exact ⟨⟨hF', hdeclared.grow hgrows (by simp)⟩,
    hgrows.global.trans hs.scope, hs.loops⟩

/-- A function can be declared just when its name is new among the functions and the
variables of the outermost frame. -/
theorem AtTop.declares {s : State} {globals : Frame} (hs : AtTop s F globals) (name : String) :
    (s.inScope.registry.globalBinds name = .ok false ∧ s.registry.findFunction? name = none) ↔
      F.lookup name = none ∧ globals.lookup name = none := by
  have hscope := Registry.pushScope_grows s.registry (some s.context.scope)
  have hbinds := (hs.shows.frames.grow hscope (by simp)).globalBinds name
  have hinscope : s.inScope.registry.globalBinds name = .ok (globals.lookup name).isSome := hbinds
  rw [hinscope, ← hs.shows.functions, table_lookup_none hs.shows.frames.functions]
  cases globals.lookup name <;> simp

/-- A program that passes is derived, item by item. -/
theorem items_derives :
    ∀ {is is' : List Item} {s s' : State} {F : Table} {globals : Frame}, AtTop s F globals →
      items is s = .ok is' s' → Declares Unread F globals is ∧ Declares Noted F globals is'
  | [], _, _, _, _, _, _, h => by
    obtain ⟨rfl, _⟩ := items_nil_ok.mp h
    exact ⟨.nil, .nil⟩
  | .decl d :: _, _, _, _, _, _, hs, h => by
    obtain ⟨d', rest', s₁, hd, hrest, rfl⟩ := items_decl_ok.mp h
    obtain ⟨hcontext, hgrows⟩ := (decl_keeps d).ok hd
    obtain ⟨defs', hdefs, rfl⟩ := decl_ok.mp hd
    obtain ⟨Γ', hdef, hdef', hs₁⟩ := varDefs_derives hs.shows hdefs
    -- a declaration stays in the scope it was met in, so we are at the top still
    have hglobal : s₁.registry.global = some s₁.context.scope := by
      rw [hgrows.global, hcontext]
      exact hs.scope
    obtain ⟨globals', rfl⟩ := hs₁.frames.outermost hglobal
    obtain ⟨hnext, hnext'⟩ :=
      items_derives ⟨hs₁, hglobal, by rw [hcontext]; exact hs.loops⟩ hrest
    exact ⟨.decl hdef hnext, .decl hdef' hnext'⟩
  | .func f :: _, _, s, _, F, globals, hs, h => by
    obtain ⟨f', rest', s', hf, hrest, rfl⟩ := items_func_ok.mp h
    obtain ⟨hglobal, hname, ps, s₁, body, s₂, hps, hbody, rfl, rfl⟩ := funcDef_ok.mp hf
    obtain ⟨hF, hglobals⟩ := (hs.declares f.name).mp ⟨hglobal, hname⟩
    obtain ⟨tys, htys, _⟩ := inFunction_grows hps
    -- the body sees the function itself with all parameters, and changes no function
    have hF' := table_inFunction hs.shows.functions htys hps
    have hF'' := (table_congr ((block_keeps f.body).ok hbody).2.functions).trans hF'
    have hsees : Sees (s.inFunction f).registry (s.inFunction f).context.scope [[], globals] :=
      hs.shows.frames.push.declared hname
    obtain ⟨Γ', hreceives, hreceives', hs₁⟩ := params_derives hsees (by simp) htys hps
    obtain ⟨hpass, hpass'⟩ := block_derives (hs.body hF' hps hs₁) hbody
    obtain ⟨hnext, hnext'⟩ := items_derives (hs.next hf hF'') hrest
    exact ⟨.func hF hglobals rfl hreceives hpass hnext,
      .func hF hglobals rfl hreceives' hpass' hnext'⟩

/-- A program that is derived passes, item by item. -/
theorem items_accepts :
    ∀ {is : List Item} {s : State} {F : Table} {globals : Frame}, AtTop s F globals →
      Declares note F globals is → ∃ is' s', items is s = .ok is' s'
  | [], s, _, _, _, _ => ⟨[], s, items_nil_ok.mpr ⟨rfl, rfl⟩⟩
  | .decl d :: _, _, _, _, hs, h => by
    cases h with
    | decl hdef hnext =>
      obtain ⟨defs', s₁, hdefs, hs₁⟩ := varDefs_accepts hs.shows hdef
      have hd : decl d _ = .ok _ s₁ := decl_ok.mpr ⟨defs', hdefs, rfl⟩
      obtain ⟨hcontext, hgrows⟩ := (decl_keeps d).ok hd
      have hglobal : s₁.registry.global = some s₁.context.scope := by
        rw [hgrows.global, hcontext]
        exact hs.scope
      obtain ⟨rest', s', hrest⟩ :=
        items_accepts ⟨hs₁, hglobal, by rw [hcontext]; exact hs.loops⟩ hnext
      exact ⟨_, s', items_decl_ok.mpr ⟨_, rest', s₁, hd, hrest, rfl⟩⟩
  | .func f :: _, s, F, globals, hs, h => by
    cases h with
    | func hF hglobals hF' hreceives hpass hnext =>
      subst hF'
      obtain ⟨hglobal, hname⟩ := (hs.declares f.name).mpr ⟨hF, hglobals⟩
      have hsees : Sees (s.inFunction f).registry (s.inFunction f).context.scope [[], globals] :=
        hs.shows.frames.push.declared hname
      obtain ⟨ps, s₁, hps, hs₁⟩ :=
        params_accepts hsees (by simp) Array.getElem?_push_size hreceives
      have hF' := table_inFunction hs.shows.functions (receives_types hreceives) hps
      obtain ⟨body, s₂, hbody⟩ := block_accepts (hs.body hF' hps hs₁) hpass
      have hF'' := (table_congr ((block_keeps f.body).ok hbody).2.functions).trans hF'
      have hf : funcDef f s = .ok _ ⟨s₂.registry, s.context⟩ := funcDef_ok.mpr
        ⟨hglobal, hname, ps, s₁, body, s₂, hps, hbody, rfl, rfl⟩
      obtain ⟨rest', s', hrest⟩ := items_accepts (hs.next hf hF'') hnext
      exact ⟨_, s', items_func_ok.mpr ⟨_, rest', _, hf, hrest, rfl⟩⟩

/-! ## Programs -/

/-- Checking starts with the built-in functions and no variable. -/
theorem atTop_start (withBuiltins : Bool) :
    AtTop (start withBuiltins) (if withBuiltins then builtins else []) [] :=
  ⟨⟨table_start withBuiltins, sees_start withBuiltins⟩, by cases withBuiltins <;> decide +kernel,
    rfl⟩

/-- **Type checking refines the typing rules.** A program is accepted just when the
rules derive it. The tree that comes back is the tree that was checked, and every
expression in it carries what the rules derive for that expression. -/
theorem typeCheck_iff_wellTyped (withBuiltins : Bool) (p : Program) :
    ((∃ p' r, typeCheck withBuiltins p = (.ok p', r)) ↔ WellTyped Unread withBuiltins p) ∧
    ∀ p' r, typeCheck withBuiltins p = (.ok p', r) →
      p'.erase = p.erase ∧ WellTyped Noted withBuiltins p' := by
  have hstart := atTop_start withBuiltins
  refine ⟨⟨?_, ?_⟩, ?_⟩
  · intro h
    obtain ⟨p', r, h⟩ := h
    obtain ⟨is, s, hi, rfl, _⟩ := typeCheck_ok.mp h
    exact (items_derives hstart hi).1
  · intro h
    obtain ⟨is, s, hi⟩ := items_accepts hstart h
    exact ⟨_, _, typeCheck_ok.mpr ⟨is, s, hi, rfl, rfl⟩⟩
  · intro p' r h
    refine ⟨typeCheck_erase h, ?_⟩
    obtain ⟨is, s, hi, rfl, _⟩ := typeCheck_ok.mp h
    exact (items_derives hstart hi).2

theorem typeCheck_iff_wellTyped_sample :
    ∃ p p' r, readSource? sampleSource = some p ∧ typeCheck true p = (.ok p', r) ∧
      WellTyped Unread true p ∧ p'.erase = p.erase ∧ WellTyped Noted true p' := by
  obtain ⟨p, p', r, hp, h⟩ := typeCheck_sampleSource
  obtain ⟨hiff, hnotes⟩ := typeCheck_iff_wellTyped true p
  obtain ⟨herase, hnoted⟩ := hnotes p' r h
  exact ⟨p, p', r, hp, h, hiff.mp ⟨p', r, h⟩, herase, hnoted⟩

end CactLang.Typing
