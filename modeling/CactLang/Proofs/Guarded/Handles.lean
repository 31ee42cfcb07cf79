import CactLang.Proofs.Effects
import CactLang.Proofs.Rejected.Statement

/-!
# Handles that name something

The type checker gets at scopes, variables and functions by their handles. It keeps a handle of
the current scope and of the function whose body it is in, and all others it gets by looking up
a name.

> `typeCheck_named`: no handle that it uses names nothing.

The registry is well-formed in every state that checking comes to, so what a name is bound to is
there. Scopes and functions are never dropped, so the handles that are kept go on naming
something.
-/

namespace CactLang

namespace Registry

variable {r : Registry} {id : ScopeId} {frames : List Bindings} {name : String} {v : SymbolId}

/-! ## Names that are looked up -/

/-- What a search outwards finds is bound in some scope. -/
theorem Stack.binds (h : Stack r id frames) (hv : search frames name = some v) :
    ∃ c, r.Binds c name v := by
  have hmem : ∀ {bindings : Bindings}, bindings.lookup name = some v → (name, v) ∈ bindings := by
    intro bindings hlookup
    obtain ⟨before, after, rfl, _⟩ := List.lookup_eq_some_iff.mp hlookup
    exact List.mem_append_right _ List.mem_cons_self
  induction h with
  | @global id s _ hs _ =>
    rw [search_cons, search, List.findSome?_nil, Option.or_none] at hv
    exact ⟨id, s, hs, hmem hv⟩
  | @inner id parent s frames _ hs _ _ _ ih =>
    rw [search_cons] at hv
    cases hlookup : s.bindings.lookup name with
    | some w =>
      rw [hlookup] at hv
      obtain rfl := Option.some.inj hv
      exact ⟨id, s, hs, hmem hlookup⟩
    | none =>
      rw [hlookup] at hv
      exact ih hv

/-- Names are looked up along parents that are there. -/
theorem WellFormed.lookup_ne_dangling (h : WellFormed r) (hid : (r.scope? id).isSome = true)
    (name : String) : r.lookup id name ≠ .error .dangling := by
  obtain ⟨s, hs⟩ := Option.isSome_iff_exists.mp hid
  obtain ⟨frames, hstack⟩ := h.stack hs
  rw [hstack.lookup]
  cases search frames name <;> simp

/-- The variable that a name stands for is there. -/
theorem WellFormed.symbol?_of_lookup (h : WellFormed r) (hid : (r.scope? id).isSome = true)
    (hv : r.lookup id name = .ok v) : (r.symbol? v).isSome = true := by
  obtain ⟨s, hs⟩ := Option.isSome_iff_exists.mp hid
  obtain ⟨frames, hstack⟩ := h.stack hs
  rw [hstack.lookup] at hv
  cases hsearch : search frames name with
  | none =>
    rw [hsearch] at hv
    cases hv
  | some w =>
    rw [hsearch] at hv
    obtain rfl := Except.ok.inj hv
    obtain ⟨c, hbinds⟩ := hstack.binds hsearch
    exact h.range hbinds

/-- The name of a function is looked up in the list of names, without a handle. -/
theorem lookupFunction_ne_dangling (r : Registry) (name : String) :
    r.lookupFunction name ≠ .error .dangling := by
  unfold lookupFunction
  cases r.findFunction? name <;> simp

/-- The function that a name stands for is there. -/
theorem WellFormed.function?_of_lookupFunction (h : WellFormed r) {f : FunctionId}
    (hf : r.lookupFunction name = .ok f) : (r.function? f).isSome = true := by
  unfold lookupFunction at hf
  cases hfind : r.findFunction? name with
  | none =>
    rw [hfind] at hf
    cases hf
  | some g =>
    rw [hfind] at hf
    obtain rfl := Except.ok.inj hf
    obtain ⟨signature, hsignature, _⟩ := (h.indexed name g).mp hfind
    rw [hsignature]
    rfl

end Registry

namespace Typing

open Registry (Reaches)

variable {α β : Type}

/-! ## Outcomes -/

/-- The outcome is not that a handle names nothing. -/
def Named (x : Except Failure α) : Prop :=
  x ≠ .error .dangling

namespace Named

theorem ok (a : α) : Named (.ok a) := by
  intro h
  cases h

theorem reject (cause : Cause) (id : NodeId) (span : Span) :
    Named (Typing.reject cause id span : Except Failure α) := by
  intro h
  cases h

/-- Both parts answer without meeting a handle that names no entry. -/
theorem bind {x : Except Failure α} {f : α → Except Failure β} (hx : Named x)
    (hf : ∀ a, x = .ok a → Named (f a)) : Named (x >>= f) := by
  cases x with
  | error e =>
    intro h
    exact hx (by cases h; rfl)
  | ok a => exact hf a rfl

theorem locate (id : NodeId) (span : Span) (x : Except Cause α) :
    Named (Typing.locate id span x) := by
  cases x with
  | error cause => exact reject cause id span
  | ok a => exact ok a

/-- A refusal with a cause is placed at a node. -/
theorem locateRefusal {id : NodeId} {span : Span} {x : Except Registry.Refusal α}
    (hx : x ≠ .error .dangling) : Named (Typing.locateRefusal id span x) := by
  cases x with
  | ok a => exact ok a
  | error refusal =>
    cases refusal with
    | cause cause => exact reject cause id span
    | dangling => exact absurd rfl hx

/-- The entry of a handle that is there. -/
theorem entry {x : Option α} (hx : x.isSome = true) : Named (Typing.entry x) := by
  obtain ⟨a, rfl⟩ := Option.isSome_iff_exists.mp hx
  exact ok a

theorem ite {p : Prop} [Decidable p] {x y : Except Failure α} (hx : Named x) (hy : Named y) :
    Named (if p then x else y) := by
  split
  · exact hx
  · exact hy

end Named

/-! ## Expressions and initializers -/

section

variable {r : Registry} {scope : ScopeId}

mutual

/-- Checking an expression meets no handle without an entry: the scope it starts from is there,
and the handles found in it are. -/
theorem checkExpr_named (hr : r.WellFormed) (hscope : (r.scope? scope).isSome = true) :
    ∀ (e : Expr) (negated : Bool), Named (checkExpr r scope negated e)
  | ⟨_, .number _ _, _, _⟩, _ => by
    rw [checkExpr]
    exact .ite (.ok _) (.reject _ _ _)
  | ⟨_, .bool _, _, _⟩, _ => by
    rw [checkExpr]
    exact .ok _
  | ⟨_, .lvalue l, _, _⟩, _ => by
    rw [checkExpr]
    exact .bind (checkLValue_named hr hscope l) fun _ _ => .ok _
  | ⟨_, .paren inner, _, _⟩, _ => by
    rw [checkExpr]
    refine .bind (checkExpr_named hr hscope inner false) fun _ _ => ?_
    exact .bind (.locate _ _ _) fun _ _ => .ok _
  | ⟨_, .unary _ operand, _, _⟩, _ => by
    rw [checkExpr]
    refine .bind (checkExpr_named hr hscope operand _) fun _ _ => ?_
    exact .bind (.locate _ _ _) fun _ _ => .ok _
  | ⟨_, .binary _ left right, _, _⟩, _ => by
    rw [checkExpr]
    refine .bind (checkExpr_named hr hscope left false) fun _ _ => ?_
    refine .bind (checkExpr_named hr hscope right false) fun _ _ => ?_
    exact .bind (.locate _ _ _) fun _ _ => .ok _
  | ⟨_, .call callee arguments _, _, _⟩, _ => by
    rw [checkExpr]
    refine .bind (.locateRefusal (r.lookupFunction_ne_dangling callee)) fun function hf => ?_
    have hfunction := hr.function?_of_lookupFunction (locateRefusal_ok.mp hf)
    refine .bind (.entry hfunction) fun signature _ => ?_
    dsimp only
    cases arguments.drop signature.parameters.length with
    | cons extra _ => exact .reject _ _ _
    | nil =>
      refine .ite (.reject _ _ _) ?_
      exact .bind (checkArguments_named hr hscope arguments 0 _) fun _ _ => .ok _
  termination_by structural e => e

/-- A variable that is found has an entry. -/
theorem checkLValue_named (hr : r.WellFormed) (hscope : (r.scope? scope).isSome = true) :
    ∀ l : LValue, Named (checkLValue r scope l)
  | ⟨_, name, indices, _, _, _⟩ => by
    rw [checkLValue]
    refine .bind (.locateRefusal (hr.lookup_ne_dangling hscope name)) fun v hv => ?_
    have hsymbol := hr.symbol?_of_lookup hscope (locateRefusal_ok.mp hv)
    refine .bind (.entry hsymbol) fun symbol _ => ?_
    refine .ite (.reject _ _ _) ?_
    exact .bind (checkIndices_named hr hscope indices) fun _ _ => .ok _
  termination_by structural l => l

theorem checkIndices_named (hr : r.WellFormed) (hscope : (r.scope? scope).isSome = true) :
    ∀ es : List Expr, Named (checkIndices r scope es)
  | [] => by
    rw [checkIndices]
    exact .ok _
  | e :: es => by
    rw [checkIndices]
    refine .bind (checkExpr_named hr hscope e false) fun _ _ => ?_
    exact .ite (.bind (checkIndices_named hr hscope es) fun _ _ => .ok _) (.reject _ _ _)
  termination_by structural es => es

theorem checkArguments_named (hr : r.WellFormed) (hscope : (r.scope? scope).isSome = true)
    {callee : String} : ∀ (es : List Expr) (index : Nat)
    (ps : List Parameter), Named (checkArguments r scope callee index ps es)
  | [], _, ps => by
    cases ps <;> exact .ok _
  | e :: es, index, ps => by
    cases ps with
    | nil => exact .ok _
    | cons p ps =>
      rw [checkArguments]
      refine .bind (checkExpr_named hr hscope e false) fun _ _ => ?_
      refine .ite ?_ (.reject _ _ _)
      exact .bind (checkArguments_named hr hscope es (index + 1) ps) fun _ _ => .ok _
  termination_by structural es => es

end

mutual

/-- Initial values are checked by their expressions. -/
theorem checkInitializer_named (hr : r.WellFormed) (hscope : (r.scope? scope).isSome = true)
    {target : Ty} : ∀ (x : Initializer) (depth : Nat),
    Named (checkInitializer r scope target depth x)
  | .scalar _ value _, _ => by
    rw [checkInitializer]
    refine .ite (.reject _ _ _) ?_
    refine .bind (checkExpr_named hr hscope value false) fun _ _ => ?_
    exact .ite (.reject _ _ _) (.ite (.reject _ _ _) (.ok _))
  | .list _ items _, depth => by
    rw [checkInitializer]
    cases target.dims[depth]? with
    | none => exact .reject _ _ _
    | some extent =>
      refine .bind (.locate _ _ _) fun inner _ => ?_
      exact .bind (checkInitializers_named hr hscope items inner) fun _ _ => .ok _

theorem checkInitializers_named (hr : r.WellFormed) (hscope : (r.scope? scope).isSome = true)
    {target : Ty} : ∀ (xs : List Initializer) (depth : Nat),
    Named (checkInitializers r scope target depth xs)
  | [], _ => .ok _
  | x :: xs, depth => by
    rw [checkInitializers]
    refine .bind (checkInitializer_named hr hscope x depth) fun _ _ => ?_
    exact .bind (checkInitializers_named hr hscope xs depth) fun _ _ => .ok _

end

end

/-- Types are put together without the registry. -/
theorem typeOf_named (basic : BasicType) (dims : List Dimension) (isOpen : Bool) (id : NodeId) :
    Named (typeOf basic dims isOpen id) := by
  unfold typeOf
  cases declaredType basic dims isOpen id with
  | ok ty => exact .ok ty
  | error d =>
    intro h
    cases h

/-! ## Checks -/

/-- The handles that the walk keeps name something. -/
structure State.Stands (s : State) : Prop where
  reachable : s.Reachable
  function : ∀ f ∈ s.context.function, (s.registry.function? f).isSome = true

/-- Nothing has been dropped, and the walk is where it was. -/
structure State.Leads (s s' : State) : Prop where
  registry : Reaches s.registry s'.registry
  context : s'.context = s.context

namespace State

variable {s s' s'' : State}

theorem Stands.wellFormed (h : s.Stands) : s.registry.WellFormed :=
  h.reachable.registry.wellFormed Registry.wellFormed_empty

theorem Leads.refl (s : State) : s.Leads s :=
  ⟨.refl, rfl⟩

/-- One state leads to the other by way of a third. -/
theorem Leads.trans (h : s.Leads s') (h' : s'.Leads s'') : s.Leads s'' :=
  ⟨h.registry.trans h'.registry, h'.context.trans h.context⟩

/-- What stands keeps standing. -/
theorem Stands.leads (hs : s.Stands) (h : s.Leads s') : s'.Stands := by
  refine ⟨⟨hs.reachable.registry.trans h.registry, ?_⟩, ?_⟩
  · rw [h.context]
    exact h.registry.scope? hs.reachable.scope
  · rw [h.context]
    intro f hf
    exact h.registry.function? (hs.function f hf)

end State

/-- From a state, the check comes upon no handle that names nothing. If it passes, nothing has
been dropped, and the walk is where it was. -/
structure Sure (m : Check α) (s : State) : Prop where
  named : ¬Fails m s .dangling
  leads : ∀ a s', m s = .ok a s' → s.Leads s'

namespace Sure

variable {s : State}

theorem pure (a : α) : Sure (Pure.pure a) s := by
  refine ⟨Fails.pure.mp, fun a' s' h => ?_⟩
  obtain ⟨rfl, rfl⟩ := Check.pure_ok.mp h
  exact .refl s

/-- A look answers as the registry does. -/
theorem look {f : Registry → Context → Except Failure α} (h : Named (f s.registry s.context)) :
    Sure (Check.look f) s := by
  refine ⟨fun hfails => h (Fails.look.mp hfails), fun a s' hs' => ?_⟩
  obtain ⟨_, rfl⟩ := Check.look_ok.mp hs'
  exact .refl s

/-- A declaration leads on if the new registry can be reached from the old one. -/
theorem declare {f : Registry → Context → Except Failure (α × Registry)}
    (h : Named (f s.registry s.context))
    (hreaches : ∀ a r, f s.registry s.context = .ok (a, r) → Reaches s.registry r) :
    Sure (Check.declare f) s := by
  refine ⟨fun hfails => h (Fails.declare.mp hfails), fun a s' hs' => ?_⟩
  obtain ⟨r, hr, rfl⟩ := Check.declare_ok.mp hs'
  exact ⟨hreaches a r hr, rfl⟩

/-- The second check may use that the first one passed. -/
theorem bind_ok {x : Check α} {f : α → Check β} (hx : Sure x s)
    (hf : ∀ a s', x s = .ok a s' → s.Leads s' → Sure (f a) s') : Sure (x >>= f) s := by
  refine ⟨fun hfails => ?_, fun b s' h => ?_⟩
  · rcases Fails.bind.mp hfails with hfails | ⟨a, s₁, hs₁, hfails⟩
    · exact hx.named hfails
    · exact (hf a s₁ hs₁ (hx.leads a s₁ hs₁)).named hfails
  · obtain ⟨a, s₁, hs₁, h⟩ := Check.bind_ok.mp h
    have hleads := hx.leads a s₁ hs₁
    exact hleads.trans ((hf a s₁ hs₁ hleads).leads b s' h)

/-- Both checks answer, the second one from wherever the first has led. -/
theorem bind {x : Check α} {f : α → Check β} (hx : Sure x s)
    (hf : ∀ a s', s.Leads s' → Sure (f a) s') : Sure (x >>= f) s :=
  hx.bind_ok fun a s' _ => hf a s'

theorem map {x : Check α} {f : α → β} (hx : Sure x s) : Sure (f <$> x) s :=
  bind hx fun a _ _ => pure (f a)

theorem refuse (cause : Cause) (id : NodeId) (span : Span) :
    Sure (Typing.refuse cause id span : Check α) s :=
  look (.reject cause id span)

theorem ite {p : Prop} [Decidable p] {x y : Check α} (hx : Sure x s) (hy : Sure y s) :
    Sure (if p then x else y) s := by
  split
  · exact hx
  · exact hy

/-- What is checked in a changed context that is changed back. -/
theorem within {enter : Context → Context} {leave : Context → Context → Context} {part : Check α}
    (hpart : Sure part ⟨s.registry, enter s.context⟩)
    (hleave : leave s.context (enter s.context) = s.context) :
    Sure (Check.within enter leave part) s := by
  refine ⟨fun hfails => hpart.named (Fails.within.mp hfails), fun a s' h => ?_⟩
  obtain ⟨s₁, hs₁, rfl⟩ := Check.within_ok.mp h
  have hleads := hpart.leads a s₁ hs₁
  refine ⟨hleads.registry, ?_⟩
  rw [hleads.context]
  exact hleave

/-- A part that answers in a scope of its own. -/
theorem inScope (hs : s.Stands) {part : Check α} (hpart : Sure part s.inScope) :
    Sure (Check.inScope part) s := by
  refine ⟨fun hfails => hpart.named (Fails.inScope.mp hfails), fun a s' h => ?_⟩
  obtain ⟨c, a⟩ := a
  obtain ⟨s₁, hs₁, _, rfl⟩ := Check.inScope_ok.mp h
  have hleads := hpart.leads a s₁ hs₁
  have hnew : Reaches s.registry s.inScope.registry :=
    .step (.newScope s.context.scope) .refl hs.reachable.scope
  refine ⟨hnew.trans hleads.registry, ?_⟩
  rw [hleads.context]
  rfl

end Sure

/-- The handles that are kept name something in a new scope as well. -/
theorem State.Stands.inScope {s : State} (hs : s.Stands) : s.inScope.Stands :=
  ⟨hs.reachable.inScope, hs.function⟩

section

variable {s : State}

theorem expr_sure (hs : s.Stands) (e : Expr) : Sure (expr e) s :=
  .look (checkExpr_named hs.wellFormed hs.reachable.scope e false)

theorem lvalue_sure (hs : s.Stands) (l : LValue) : Sure (lvalue l) s :=
  .look (checkLValue_named hs.wellFormed hs.reachable.scope l)

theorem condition_sure (hs : s.Stands) (e : Expr) : Sure (condition e) s := by
  refine .bind (expr_sure hs e) fun e' s₁ hs₁ => ?_
  exact .ite (.pure _) (.refuse _ _ _)

theorem assignment_sure (hs : s.Stands) (target : LValue) (value : Expr) :
    Sure (assignment target value) s := by
  refine .bind (lvalue_sure hs target) fun found s₁ hs₁ => ?_
  refine .ite (.refuse _ _ _) ?_
  refine .bind (expr_sure (hs.leads hs₁) value) fun value' s₂ hs₂ => ?_
  exact .ite (.pure _) (.refuse _ _ _)

/-- Outside of all loops there is a cause to give. -/
theorem innermostLoop_sure (keyword : String) (id : NodeId) (span : Span) :
    Sure (innermostLoop keyword id span) s := by
  refine .look ?_
  cases s.context.loops with
  | nil => exact .reject _ _ _
  | cons loop _ => exact .ok loop

/-- The function around a statement has an entry. -/
theorem enclosingFunction_sure (hs : s.Stands) (id : NodeId) (span : Span) :
    Sure (enclosingFunction id span) s := by
  refine .look ?_
  cases hf : s.context.function with
  | none => exact .reject _ _ _
  | some f => exact .bind (.entry (hs.function f hf)) fun _ _ => .ok _

/-- A return looks at the function around it and at its value. -/
theorem returning_sure (hs : s.Stands) (id : NodeId) (span : Span) (value : Option Expr) :
    Sure (returning id span value) s := by
  refine .bind (enclosingFunction_sure hs id span) fun found s₁ hs₁ => ?_
  cases value with
  | none => exact .ite (.pure _) (.refuse _ _ _)
  | some e =>
    refine .bind (expr_sure (hs.leads hs₁) e) fun e' s₂ hs₂ => ?_
    exact .ite (.pure _) (.refuse _ _ _)

/-! ## Declarations -/

/-- The current scope has an entry, so a name that is refused is refused with a cause. -/
theorem bindName_sure (hs : s.Stands) (id : NodeId) (span : Span) (name : String) (y : Symbol) :
    Sure (bindName id span name y) s := by
  have hscope := hs.reachable.scope
  refine .declare (.locateRefusal fun h => ?_) fun v r h => ?_
  · cases ((hs.wellFormed.indexed.register_error_iff hscope).mp h).1
  · have hstep : Reaches s.registry
        ((Registry.Operation.register s.context.scope name y).run s.registry).2 :=
      .step _ .refl hscope
    rwa [Registry.Operation.run_register (locateRefusal_ok.mp h)] at hstep

/-- A definition looks at its type and its initial value, then it binds its name. -/
theorem varDef_sure (hs : s.Stands) (isConstant : Bool) (basic : BasicType) (d : VarDef) :
    Sure (varDef isConstant basic d) s := by
  unfold varDef
  refine .bind (.look (typeOf_named _ _ _ _)) fun ty s₁ hs₁ => ?_
  have hstands := hs.leads hs₁
  -- with or without an initial value, the name is bound last
  have hname : ∀ init s₂, s₁.Leads s₂ → Sure (do
      let symbol ← bindName d.id d.span d.name (declaredSymbol isConstant d ty)
      return { d with init, symbol := some symbol }) s₂ := by
    intro init s₂ hs₂
    exact .bind (bindName_sure (hstands.leads hs₂) _ _ _ _) fun _ _ _ => .pure _
  dsimp only
  cases d.init with
  | none => exact .bind (.pure none) hname
  | some init =>
    refine .bind (.map (.look ?_)) hname
    exact checkInitializer_named hstands.wellFormed hstands.reachable.scope init 0

/-- Definitions are checked along the list. -/
theorem varDefs_sure (hs : s.Stands) (isConstant : Bool) (basic : BasicType) (ds : List VarDef) :
    Sure (varDefs isConstant basic ds) s := by
  induction ds generalizing s with
  | nil => exact .pure _
  | cons d ds ih =>
    refine .bind (varDef_sure hs isConstant basic d) fun _ _ hs₁ => ?_
    exact .bind (ih (hs.leads hs₁)) fun _ _ _ => .pure _

theorem decl_sure (hs : s.Stands) (d : Decl) : Sure (decl d) s :=
  .bind (varDefs_sure hs d.isConstant d.basic d.defs) fun _ _ _ => .pure _

/-- The function a parameter is added to has an entry. -/
theorem param_sure (hs : s.Stands) {function : FunctionId}
    (hf : (s.registry.function? function).isSome = true) (p : Param) :
    Sure (param function p) s := by
  unfold param
  refine .bind (.look (typeOf_named _ _ _ _)) fun ty s₁ hs₁ => ?_
  have hf₁ := hs₁.registry.function? hf
  refine .bind (.declare (.locateRefusal fun h => ?_) fun u r h => ?_) fun _ s₂ hs₂ => ?_
  · obtain ⟨signature, hsignature⟩ := Option.isSome_iff_exists.mp hf₁
    rw [Registry.addParameter_eq, hsignature] at h
    cases h
  · have hstep : Reaches s₁.registry
        ((Registry.Operation.addParameter function ⟨p.name, ty⟩).run s₁.registry).2 :=
      .step _ .refl hf₁
    rwa [Registry.Operation.run_addParameter
      (Registry.map_pair_ok.mp (locateRefusal_ok.mp h))] at hstep
  · exact .bind (bindName_sure ((hs.leads hs₁).leads hs₂) _ _ _ _) fun _ _ _ => .pure _

/-- Parameters are checked along the list. The function keeps its entry. -/
theorem params_sure (hs : s.Stands) {function : FunctionId}
    (hf : (s.registry.function? function).isSome = true) (ps : List Param) :
    Sure (params function ps) s := by
  induction ps generalizing s with
  | nil => exact .pure _
  | cons p ps ih =>
    -- the entry of the function is changed by each parameter, but stays
    refine .bind (param_sure hs hf p) fun _ _ hs₁ => ?_
    exact .bind (ih (hs.leads hs₁) (hs₁.registry.function? hf)) fun _ _ _ => .pure _

end

/-! ## Statements and programs -/

mutual

/-- Statements answer, by recursion on the tree. -/
theorem stmt_sure : ∀ (t : Stmt) {s : State}, s.Stands → Sure (stmt t) s
  | ⟨_, .assign target value, _, _⟩, _, hs => by
    rw [stmt]
    exact .bind (assignment_sure hs target value) fun _ _ _ => .pure _
  | ⟨_, .expr none, _, _⟩, _, _ => by
    rw [stmt]
    exact .pure _
  | ⟨_, .expr (some value), _, _⟩, _, hs => by
    rw [stmt]
    exact .bind (expr_sure hs value) fun _ _ _ => .pure _
  | ⟨_, .block b, _, _⟩, _, hs => by
    rw [stmt]
    exact .bind (block_sure b hs) fun _ _ _ => .pure _
  | ⟨_, .cond test thenBranch none, _, _⟩, _, hs => by
    rw [stmt]
    refine .bind (condition_sure hs test) fun _ _ hs₁ => ?_
    exact .bind (stmt_sure thenBranch (hs.leads hs₁)) fun _ _ _ => .pure _
  | ⟨_, .cond test thenBranch (some elseBranch), _, _⟩, _, hs => by
    rw [stmt]
    refine .bind (condition_sure hs test) fun _ _ hs₁ => ?_
    refine .bind (stmt_sure thenBranch (hs.leads hs₁)) fun _ _ hs₂ => ?_
    exact .bind (stmt_sure elseBranch ((hs.leads hs₁).leads hs₂)) fun _ _ _ => .pure _
  | ⟨id, .loop test body, _, _⟩, _, hs => by
    rw [stmt]
    refine .bind (condition_sure hs test) fun _ s₁ hs₁ => ?_
    have hstands := hs.leads hs₁
    -- the loop is no handle of the registry, so the same things stand inside of it
    have hbody : State.Stands ⟨s₁.registry, { s₁.context with loops := id :: s₁.context.loops }⟩ :=
      ⟨⟨hstands.reachable.registry, hstands.reachable.scope⟩, hstands.function⟩
    exact .bind (.within (stmt_sure body hbody) rfl) fun _ _ _ => .pure _
  | ⟨_, .leave _, _, _⟩, _, _ => by
    rw [stmt]
    exact .bind (innermostLoop_sure _ _ _) fun _ _ _ => .pure _
  | ⟨_, .next _, _, _⟩, _, _ => by
    rw [stmt]
    exact .bind (innermostLoop_sure _ _ _) fun _ _ _ => .pure _
  | ⟨id, .ret value _, span, _⟩, _, hs => by
    rw [stmt]
    exact .bind (returning_sure hs id span value) fun _ _ _ => .pure _
  termination_by structural t => t

theorem block_sure : ∀ (b : Block) {s : State}, s.Stands → Sure (block b) s
  | ⟨_, items, _, _, _⟩, _, hs => by
    rw [block]
    exact .bind (.inScope hs (blockItems_sure items hs.inScope)) fun _ _ _ => .pure _
  termination_by structural b => b

theorem blockItems_sure : ∀ (items : List BlockItem) {s : State}, s.Stands →
    Sure (blockItems items) s
  | [], _, _ => by
    rw [blockItems]
    exact .pure _
  | .decl d :: rest, _, hs => by
    rw [blockItems]
    refine .bind (decl_sure hs d) fun _ _ hs₁ => ?_
    exact .bind (blockItems_sure rest (hs.leads hs₁)) fun _ _ _ => .pure _
  | .stmt t :: rest, _, hs => by
    rw [blockItems]
    refine .bind (stmt_sure t hs) fun _ _ hs₁ => ?_
    exact .bind (blockItems_sure rest (hs.leads hs₁)) fun _ _ _ => .pure _
  termination_by structural items => items

end

section

variable {s : State}

/-- A function that is refused is refused with a cause. -/
theorem declareFunction_sure (hs : s.Stands) (f : FuncDef) : Sure (declareFunction f) s := by
  refine .declare (.locateRefusal fun h => ?_) fun function r h => ?_
  · cases (hs.wellFormed.newFunction_error_iff.mp h).1
  · have hstep : Reaches s.registry
        ((Registry.Operation.newFunction f.name f.returns).run s.registry).2 :=
      .step _ .refl rfl
    rwa [Registry.Operation.run_newFunction (locateRefusal_ok.mp h)] at hstep

/-- A function that was declared has an entry. -/
theorem function?_of_declareFunction {f : FuncDef} {function : FunctionId} {s' : State}
    (h : declareFunction f s = .ok function s') :
    (s'.registry.function? function).isSome = true := by
  obtain ⟨r, hr, rfl⟩ := Check.declare_ok.mp h
  obtain ⟨_, _, rfl, rfl⟩ := Registry.newFunction_ok.mp (locateRefusal_ok.mp hr)
  simp [Registry.function?, Registry.declared, Registry.withFunctions]

/-- The parameters and the body are checked with the function there. -/
theorem funcDef_sure (hs : s.Stands) (f : FuncDef) : Sure (funcDef f) s := by
  refine .bind (.inScope hs ?_) fun _ _ _ => .pure _
  refine .bind_ok (declareFunction_sure hs.inScope f) fun function s₁ hf hs₁ => ?_
  -- From here on the walk keeps a handle of the function that was just declared.
  have hfunction := function?_of_declareFunction hf
  have hstands := hs.inScope.leads hs₁
  have hinside : State.Stands ⟨s₁.registry, { s₁.context with function := some function }⟩ := by
    refine ⟨⟨hstands.reachable.registry, hstands.reachable.scope⟩, ?_⟩
    rintro g hg
    obtain rfl := Option.some.inj hg
    exact hfunction
  refine .bind (.within ?_ rfl) fun _ _ _ => .pure _
  refine .bind (params_sure hinside hfunction f.params) fun _ _ hs₂ => ?_
  exact .bind (block_sure f.body (hinside.leads hs₂)) fun _ _ _ => .pure _

/-- The items of a program are checked along the list. -/
theorem items_sure (hs : s.Stands) (is : List Item) : Sure (items is) s := by
  induction is generalizing s with
  | nil => exact .pure _
  | cons item is ih =>
    cases item with
    | decl d =>
      refine .bind (decl_sure hs d) fun _ _ hs₁ => ?_
      exact .bind (ih (hs.leads hs₁)) fun _ _ _ => .pure _
    | func f =>
      refine .bind (funcDef_sure hs f) fun _ _ hs₁ => ?_
      exact .bind (ih (hs.leads hs₁)) fun _ _ _ => .pure _

end

/-- **Every handle names something.** -/
theorem typeCheck_named (withBuiltins : Bool) (p : Program) :
    (typeCheck withBuiltins p).1 ≠ .error .dangling := by
  intro h
  obtain ⟨s, hfails, _⟩ := typeCheck_error.mp (Prod.ext h rfl)
  have hstart : (start withBuiltins).Stands := ⟨start_reachable withBuiltins, nofun⟩
  exact (items_sure hstart p.items).named ⟨s, hfails⟩

end Typing

end CactLang
