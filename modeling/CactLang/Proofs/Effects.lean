import CactLang.Proofs.RegistryRuns
import CactLang.Proofs.Restoration

/-!
# What a check leaves in the registry

A check that fails is not undone: what it declared before it failed stays in the
registry. This module says what that can be, for every part of a program.

> `Appends added r r'`: `r'` is `r` with scopes and variables after those it had, and
> with the functions `added` and their names.
>
> `Declares c ys r r'`: `r'` is `r` with the variables `ys`, bound in the scope `c`.

Statements and blocks append, so they cannot change what a name means in a scope that was
there before. A declaration declares its definitions up to the first that fails
(`varDefs_passesUpTo`). A function definition appends one function at most.
-/

namespace CactLang

namespace Registry

variable {r r' r'' : Registry} {added : List Signature} {c : ScopeId} {s : Scope}
  {name : String} {y : Symbol}

/-! ## Entries added at the end -/

/-- Every scope and every variable of `r` is in `r'`, unchanged and at its place, with
others after them. The functions of `r'` are those of `r` and then `added`, and so are the
names of functions. -/
structure Appends (added : List Signature) (r r' : Registry) : Prop where
  global : r'.global = r.global
  scopes : r.scopes.toList <+: r'.scopes.toList
  symbols : r.symbols.toList <+: r'.symbols.toList
  functions : r'.functions.toList = r.functions.toList ++ added
  functionNames : r'.functionNames = r.functionNames ++ namesFrom r.functions.size added

/-- Entries that stay at their places are the first ones. -/
theorem toList_isPrefix {α : Type} {xs ys : Array α}
    (h : ∀ {k : Nat} {x : α}, xs[k]? = some x → ys[k]? = some x) : xs.toList <+: ys.toList := by
  rw [List.prefix_iff_getElem?]
  intro k hk
  rw [Array.getElem?_toList]
  exact h (Array.getElem?_eq_getElem hk)

/-- The first entries stay at their places. -/
theorem getElem?_of_isPrefix {α : Type} {xs ys : Array α} (h : xs.toList <+: ys.toList) {k : Nat}
    {x : α} (hk : xs[k]? = some x) : ys[k]? = some x := by
  obtain ⟨hlt, rfl⟩ := Array.getElem?_eq_some_iff.mp hk
  rw [← Array.getElem?_toList]
  exact List.prefix_iff_getElem?.mp h k hlt

/-- A scope that was there is unchanged. -/
theorem Appends.scope? (h : Appends added r r') {id : ScopeId} (hs : r.scope? id = some s) :
    r'.scope? id = some s :=
  getElem?_of_isPrefix h.scopes hs

/-- Growth that binds nothing appends. -/
theorem Grows.appends (h : Grows none r r') : Appends [] r r' where
  global := h.global
  scopes := toList_isPrefix fun {k x} hs =>
    show r'.scope? ⟨k⟩ = some x from h.scope_eq (by simp) hs
  symbols := toList_isPrefix fun {k y} hy => show r'.symbol? ⟨k⟩ = some y from h.symbol hy
  functions := by rw [h.functions, List.append_nil]
  functionNames := by
    rw [h.functionNames, namesFrom, List.zipIdx_nil, List.map_nil, List.append_nil]

/-- Growth that binds nothing can come after appending. -/
theorem Appends.grow (h : Appends added r r') (hg : Grows none r' r'') : Appends added r r'' where
  global := hg.global.trans h.global
  scopes := h.scopes.trans hg.appends.scopes
  symbols := h.symbols.trans hg.appends.symbols
  functions := by rw [hg.functions, h.functions]
  functionNames := by rw [hg.functionNames, h.functionNames]

/-- A name that is bound in a new scope changes no old one. -/
theorem Appends.bind (h : Appends added r r') (hs : r'.scope? c = some s)
    (hc : r.scopes.size ≤ c.index) : Appends added r (r'.bound c s name y) where
  global := h.global
  scopes := toList_isPrefix fun {k x} hk => by
    have hlt := (Array.getElem?_eq_some_iff.mp hk).1
    have hne : (⟨k⟩ : ScopeId) ≠ c := by
      rintro rfl
      exact absurd hlt (Nat.not_lt.mpr hc)
    have hx : (r'.bound c s name y).scope? ⟨k⟩ = r'.scope? ⟨k⟩ := by
      rw [bound_scope? hs, if_neg hne]
    exact hx.trans (h.scope? hk)
  symbols := h.symbols.trans (by simp [bound])
  functions := h.functions
  functionNames := h.functionNames

/-- A new function is appended, under the next handle. -/
theorem Appends.newFunction {returns : BasicType} {f : FunctionId} (h : Appends [] r r')
    (hadd : r'.newFunction name returns = .ok (f, r'')) :
    f = ⟨r.functions.size⟩ ∧ Appends [{ name, returns := .scalar returns }] r r'' := by
  obtain ⟨_, _, rfl, rfl⟩ := newFunction_ok.mp hadd
  have hfunctions : r'.functions = r.functions := by
    rw [← Array.toList_inj, h.functions, List.append_nil]
  have hnames : r'.functionNames = r.functionNames := by
    rw [h.functionNames, namesFrom, List.zipIdx_nil, List.map_nil, List.append_nil]
  refine ⟨by rw [hfunctions], h.global, h.scopes, h.symbols, ?_, ?_⟩
  · rw [declared, withFunctions, Array.toList_push, hfunctions]
  · rw [declared, withFunctions, hnames, hfunctions]
    rfl

/-- A parameter of the new function changes no old one. -/
theorem Appends.addParameter {g : Signature} {p : Parameter} (h : Appends [g] r r')
    (hadd : r'.addParameter ⟨r.functions.size⟩ p = .ok r'') :
    Appends [{ g with parameters := g.parameters ++ [p] }] r r'' := by
  obtain ⟨f, hf, rfl⟩ := addParameter_ok.mp hadd
  have hlast : r'.functions.toList[r.functions.size]? = some g := by
    rw [h.functions]
    simp
  obtain rfl : f = g := by
    rw [Array.getElem?_toList] at hlast
    exact Option.some.inj (hf.symm.trans hlast)
  refine ⟨h.global, h.scopes, h.symbols, ?_, h.functionNames⟩
  rw [updated, withFunctions, Array.toList_setIfInBounds, h.functions]
  simp

/-! ## Variables declared in one scope -/

/-- Names bound to variables one after the other, the first of them at `k`. -/
def numbered : Nat → List String → Bindings
  | _, [] => []
  | k, name :: names => (name, ⟨k⟩) :: numbered (k + 1) names

/-- `r'` is `r` with the variables `ys`, bound in this order in the scope `c`. -/
structure Declares (c : ScopeId) (ys : List Symbol) (r r' : Registry) : Prop where
  global : r'.global = r.global
  functions : r'.functions = r.functions
  functionNames : r'.functionNames = r.functionNames
  symbols : r'.symbols.toList = r.symbols.toList ++ ys
  scope : ∀ id, r'.scope? id = (r.scope? id).map fun s =>
    if id = c then
      { s with bindings := s.bindings ++ numbered r.symbols.size (ys.map Symbol.name) }
    else s

theorem Declares.nil (c : ScopeId) (r : Registry) : Declares c [] r r := by
  refine ⟨rfl, rfl, rfl, by rw [List.append_nil], fun id => ?_⟩
  cases r.scope? id <;> simp [numbered]

/-- A variable is bound before the others. -/
theorem Declares.cons {ys : List Symbol} (hs : r.scope? c = some s)
    (h : Declares c ys (r.bound c s y.name y) r') : Declares c (y :: ys) r r' := by
  refine ⟨h.global, h.functions, h.functionNames, ?_, fun id => ?_⟩
  · rw [h.symbols, bound, Array.toList_push, List.append_assoc, List.singleton_append]
  · rw [h.scope, bound_scope? hs]
    by_cases hid : id = c
    · subst hid
      simp [hs, bound, numbered]
    · simp [hid]

/-! ## Runs drop nothing -/

/-- There are at least as many scopes and functions. -/
structure Larger (r r' : Registry) : Prop where
  scopes : r.scopes.size ≤ r'.scopes.size
  functions : r.functions.size ≤ r'.functions.size

theorem Larger.refl (r : Registry) : Larger r r :=
  ⟨Nat.le_refl _, Nat.le_refl _⟩

theorem Larger.trans (h : Larger r r') (h' : Larger r' r'') : Larger r r'' :=
  ⟨Nat.le_trans h.scopes h'.scopes, Nat.le_trans h.functions h'.functions⟩

theorem Larger.pushScope (r : Registry) (parent : Option ScopeId) :
    Larger r (r.pushScope parent).2 :=
  ⟨by simp [Registry.pushScope], Nat.le_refl _⟩

/-- Binding a name makes no registry smaller. -/
theorem Larger.register (c : ScopeId) (name : String) (y : Symbol) :
    (Change.register c name y).Maintains (Larger r) := by
  refine (Change.register_atomic c name y).maintains fun h hrun => ?_
  obtain ⟨s, _, _, _, _, rfl⟩ := register_ok.mp (Change.attempt_ok.mpr hrun)
  exact h.trans ⟨by simp [bound], Nat.le_refl _⟩

/-- Adding a function makes no registry smaller. -/
theorem Larger.newFunction (name : String) (returns : BasicType) :
    (Change.newFunction name returns).Maintains (Larger r) := by
  refine (Change.newFunction_atomic name returns).maintains fun h hrun => ?_
  obtain ⟨_, _, _, rfl⟩ := Change.newFunction_ok.mp hrun
  exact h.trans ⟨Nat.le_refl _, by simp [declared, withFunctions]⟩

/-- Changing a function makes no registry smaller. -/
theorem Larger.updateFunction (f : FunctionId) (update : Signature → Signature) :
    (Change.updateFunction f update).Maintains (Larger r) := by
  refine (Change.updateFunction_atomic f update).maintains fun h hrun => ?_
  obtain ⟨_, _, rfl⟩ := Change.updateFunction_ok.mp hrun
  exact h.trans ⟨Nat.le_refl _, by simp [updated, withFunctions]⟩

/-- No operation makes a registry smaller. -/
theorem Larger.run (op : Operation) (r : Registry) : Larger r (op.run r).2 := by
  cases op with
  | ensureGlobal =>
    show Larger r r.ensureGlobal.2
    rw [ensureGlobal]
    cases r.global with
    | some id => exact .refl r
    | none => exact ⟨(Larger.pushScope r none).scopes, Nat.le_refl _⟩
  | newScope parent => exact .pushScope r (some parent)
  | register c name y => exact (Larger.register c name y).bind (fun _ => .pure _) r (.refl r)
  | newFunction name returns =>
    exact (Larger.newFunction name returns).bind (fun _ => .pure _) r (.refl r)
  | addParameter f p => exact Larger.updateFunction f _ r (.refl r)
  | addBuiltins =>
    exact Change.Maintains.addBuiltins Larger.newFunction
      (fun f update _ => Larger.updateFunction f update) builtins r (.refl r)

/-- What can be reached is no smaller. -/
theorem Reaches.larger (h : Reaches r r') : Larger r r' := by
  induction h with
  | refl => exact .refl r
  | step op _ _ ih => exact ih.trans (.run op _)

/-- A scope that has an entry keeps having one. -/
theorem Reaches.scope? (h : Reaches r r') (hc : (r.scope? c).isSome = true) :
    (r'.scope? c).isSome = true := by
  obtain ⟨s, hs⟩ := Option.isSome_iff_exists.mp hc
  have hlt := Nat.lt_of_lt_of_le (lt_size_of_scope? hs) h.larger.scopes
  rw [Registry.scope?, Array.getElem?_eq_getElem hlt]
  rfl

/-- A function that has an entry keeps having one. -/
theorem Reaches.function? {f : FunctionId} (h : Reaches r r')
    (hf : (r.function? f).isSome = true) : (r'.function? f).isSome = true := by
  obtain ⟨signature, hs⟩ := Option.isSome_iff_exists.mp hf
  have hlt := Nat.lt_of_lt_of_le (Array.getElem?_eq_some_iff.mp hs).1 h.larger.functions
  rw [Registry.function?, Array.getElem?_eq_getElem hlt]
  rfl

end Registry

namespace Typing

open Registry (Appends Declares Reaches)

variable {α β : Type}

/-! ## Declarations stop at the first failure -/

/-- A check that leaves the state as it found it when it fails. -/
def Unmoved (m : Check α) : Prop :=
  ∀ (s s' : State) (e : Failure), m s = .error e s' → s' = s

namespace Unmoved

theorem of_reads {m : Check α} (hm : Reads m) : Unmoved m := by
  intro s s' e h
  rw [← hm s, Check.after_of_error h]

theorem declare (f : Registry → Context → Except Failure (α × Registry)) :
    Unmoved (Check.declare f) := by
  intro s s' e h
  unfold Check.declare at h
  split at h
  next => cases h
  next =>
    cases h
    rfl

/-- After a part that only reads, nothing has moved yet. -/
theorem after_reads {x : Check α} {f : α → Check β} (hx : Reads x) (hf : ∀ a, Unmoved (f a)) :
    Unmoved (x >>= f) := by
  intro s s' e h
  simp only [Bind.bind, EStateM.bind] at h
  cases hxs : x s with
  | error e₁ s₁ =>
    rw [hxs] at h
    cases h
    exact of_reads hx s s' e hxs
  | ok a s₁ =>
    rw [hxs] at h
    have hs : s₁ = s := by rw [← hx s, Check.after_of_ok hxs]
    rw [hs] at h
    exact hf a s s' e h

/-- What cannot fail may come after. -/
theorem map {x : Check α} (f : α → β) (hx : Unmoved x) :
    Unmoved (x >>= fun a => Pure.pure (f a)) := by
  intro s s' e h
  simp only [Bind.bind, EStateM.bind] at h
  cases hxs : x s with
  | error e₁ s₁ =>
    rw [hxs] at h
    cases h
    exact hx s s' e hxs
  | ok a s₁ =>
    rw [hxs] at h
    cases h

end Unmoved

/-- A definition that fails declares nothing: its name is bound last. -/
theorem varDef_unmoved (isConstant : Bool) (basic : BasicType) (d : VarDef) :
    Unmoved (varDef isConstant basic d) := by
  unfold varDef
  have hname : ∀ ty init, Unmoved (do
      let symbol ← bindName d.id d.span d.name (declaredSymbol isConstant d ty)
      return { d with init, symbol := some symbol }) := fun ty init =>
    Unmoved.map _ (.declare _)
  refine .after_reads (.look _) fun ty => ?_
  dsimp only
  cases d.init with
  | none => exact .after_reads (.pure none) (hname ty)
  | some init => exact .after_reads ((Reads.look _).map some) (hname ty)

/-- A definition that passes declares its name. -/
theorem varDef_declares {isConstant : Bool} {basic : BasicType} {d d' : VarDef} {s s' : State}
    (h : varDef isConstant basic d s = .ok d' s') :
    s'.context = s.context ∧ ∃ c y, s.registry.scope? s.context.scope = some c ∧
      y.name = d.name ∧ s'.registry = s.registry.bound s.context.scope c y.name y := by
  obtain ⟨ty, init, v, r, _, _, hr, _, rfl⟩ := varDef_ok.mp h
  obtain ⟨c, hc, _, _, _, rfl⟩ := Registry.register_ok.mp hr
  have hname : (declaredSymbol isConstant d ty).name = d.name := by cases isConstant <;> rfl
  exact ⟨rfl, c, declaredSymbol isConstant d ty, hc, hname, by rw [hname]⟩

/-- From `s`, the definitions `passed` pass and lead to `s'`. If there are more, the first of
them fails there, and with it the whole check. -/
structure PassesUpTo (isConstant : Bool) (basic : BasicType) (passed rest : List VarDef)
    (whole : Check α) (s s' : State) : Prop where
  passed : ∃ ds', varDefs isConstant basic passed s = .ok ds' s'
  done : rest = [] → ∃ a, whole s = .ok a s'
  stopped : ∀ d later, rest = d :: later →
    ∃ e, varDef isConstant basic d s' = .error e s' ∧ whole s = .error e s'

/-- Definitions are declared up to the first that fails. -/
theorem varDefs_passesUpTo (isConstant : Bool) (basic : BasicType) (ds : List VarDef)
    (s : State) :
    ∃ passed rest ys s', ds = passed ++ rest ∧
      PassesUpTo isConstant basic passed rest (varDefs isConstant basic ds) s s' ∧
      ys.map Symbol.name = passed.map VarDef.name ∧
      Declares s.context.scope ys s.registry s'.registry := by
  induction ds generalizing s with
  | nil => exact ⟨[], [], [], s, rfl, ⟨⟨[], rfl⟩, fun _ => ⟨[], rfl⟩, nofun⟩, rfl, .nil _ _⟩
  | cons d ds ih =>
    cases hd : varDef isConstant basic d s with
    | error e s₁ =>
      -- the first definition fails and leaves the state alone, so nothing has passed
      obtain rfl := varDef_unmoved isConstant basic d s s₁ e hd
      refine ⟨[], d :: ds, [], s₁, rfl, ⟨⟨[], rfl⟩, nofun, ?_⟩, rfl, .nil _ _⟩
      rintro d' later hrest
      obtain ⟨rfl, rfl⟩ := List.cons.inj hrest
      exact ⟨e, hd, by simp only [varDefs, Bind.bind, EStateM.bind, hd]⟩
    | ok d' s₁ =>
      -- it passes: what the rest does is added to the variable it declares
      obtain ⟨hcontext, c, y, hc, hy, hr⟩ := varDef_declares hd
      obtain ⟨passed, rest, ys, s', rfl, hpasses, hnames, hdeclares⟩ := ih s₁
      obtain ⟨ds', hds'⟩ := hpasses.passed
      rw [hcontext, hr] at hdeclares
      refine ⟨d :: passed, rest, y :: ys, s', rfl, ⟨?_, ?_, ?_⟩, ?_, .cons hc hdeclares⟩
      · exact ⟨d' :: ds', varDefs_cons_ok.mpr ⟨d', ds', s₁, hd, hds', rfl⟩⟩
      · intro hrest
        obtain ⟨all, hall⟩ := hpasses.done hrest
        exact ⟨d' :: all, varDefs_cons_ok.mpr ⟨d', all, s₁, hd, hall, rfl⟩⟩
      · intro d₀ later hrest
        obtain ⟨e, hfails, hwhole⟩ := hpasses.stopped d₀ later hrest
        exact ⟨e, hfails, by simp only [varDefs, Bind.bind, EStateM.bind, hd, hwhole]⟩
      · rw [List.map_cons, List.map_cons, hy, hnames]

/-- The state after a check that went up to some point. -/
theorem PassesUpTo.after {isConstant : Bool} {basic : BasicType} {passed rest : List VarDef}
    {whole : Check α} {s s' : State} (h : PassesUpTo isConstant basic passed rest whole s s') :
    whole.after s = s' := by
  cases rest with
  | nil =>
    obtain ⟨a, ha⟩ := h.done rfl
    exact Check.after_of_ok ha
  | cons d later =>
    obtain ⟨e, _, he⟩ := h.stopped d later rfl
    exact Check.after_of_error he

/-- A declaration declares the definitions before the first that fails. -/
theorem decl_passesUpTo (d : Decl) (s : State) :
    ∃ passed rest ys, d.defs = passed ++ rest ∧
      PassesUpTo d.isConstant d.basic passed rest (decl d) s ((decl d).after s) ∧
      ys.map Symbol.name = passed.map VarDef.name ∧
      Declares s.context.scope ys s.registry ((decl d).after s).registry := by
  obtain ⟨passed, rest, ys, s', hdefs, hpasses, hnames, hdeclares⟩ :=
    varDefs_passesUpTo d.isConstant d.basic d.defs s
  have hdecl : PassesUpTo d.isConstant d.basic passed rest (decl d) s s' := by
    refine ⟨hpasses.passed, fun hrest => ?_, fun d₀ later hrest => ?_⟩
    · obtain ⟨ds', hds'⟩ := hpasses.done hrest
      exact ⟨_, decl_ok.mpr ⟨ds', hds', rfl⟩⟩
    · obtain ⟨e, hfails, hwhole⟩ := hpasses.stopped d₀ later hrest
      exact ⟨e, hfails, by simp only [decl, Bind.bind, EStateM.bind, hwhole]⟩
  rw [hdecl.after]
  exact ⟨passed, rest, ys, hdefs, hdecl, hnames, hdeclares⟩

/-! ## Properties that every outcome keeps -/

/-- The check keeps a property of the state, passed or failed. -/
def Maintains (I : State → Prop) (m : Check α) : Prop :=
  ∀ s, I s → I (m.after s)

namespace Maintains

variable {I : State → Prop}

theorem of_reads {m : Check α} (hm : Reads m) : Maintains I m := by
  intro s hs
  rw [hm s]
  exact hs

/-- A property that both checks maintain is maintained by the two in a row. -/
theorem bind {x : Check α} {f : α → Check β} (hx : Maintains I x) (hf : ∀ a, Maintains I (f a)) :
    Maintains I (x >>= f) := by
  intro s hs
  have hs₁ := hx s hs
  rw [Check.after_bind]
  cases hxs : x s with
  | error e s₁ =>
    rw [Check.after_of_error hxs] at hs₁
    exact hs₁
  | ok a s₁ =>
    rw [Check.after_of_ok hxs] at hs₁
    exact hf a s₁ hs₁

theorem map {m : Check α} (f : α → β) (hm : Maintains I m) : Maintains I (f <$> m) := by
  intro s hs
  rw [Check.after_map]
  exact hm s hs

/-- A property of the registry is maintained in whatever context the part is checked. -/
theorem within {enter : Context → Context} {leave : Context → Context → Context} {part : Check α}
    (henter : ∀ s, I s → I ⟨s.registry, enter s.context⟩)
    (hleave : ∀ s s', I s → I s' → I ⟨s'.registry, leave s.context s'.context⟩)
    (hpart : Maintains I part) : Maintains I (Check.within enter leave part) := by
  intro s hs
  rw [Check.after_within]
  exact hleave s _ hs (hpart _ (henter s hs))

/-- A declaration maintains a property that the new registry has. -/
theorem declare {f : Registry → Context → Except Failure (α × Registry)}
    (hf : ∀ {s : State} {a : α} {r : Registry}, I s → f s.registry s.context = .ok (a, r) →
      I { s with registry := r }) :
    Maintains I (Check.declare f) := by
  intro s hs
  unfold Check.after Check.declare
  cases h : f s.registry s.context with
  | error e => exact hs
  | ok p => exact hf hs h

end Maintains

/-! ## Function definitions -/

/-- The function of a definition has been added after those of `r`, and the current scope is
new, as everything else is. -/
structure Opened (r : Registry) (f : FuncDef) (s : State) : Prop where
  scope : r.scopes.size ≤ s.context.scope.index
  appends : ∃ g : Signature, g.name = f.name ∧ Appends [g] r s.registry

section

variable {r : Registry} {f : FuncDef}

/-- In the scope of a function, binding a name adds to this scope only. -/
theorem Opened.bindName (id : NodeId) (span : Span) (name : String) (y : Symbol) :
    Maintains (Opened r f) (bindName id span name y) := by
  refine .declare fun hs hr => ?_
  obtain ⟨c, hc, _, _, _, rfl⟩ := Registry.register_ok.mp (locateRefusal_ok.mp hr)
  obtain ⟨g, hg, happends⟩ := hs.appends
  exact ⟨hs.scope, g, hg, happends.bind hc hs.scope⟩

/-- A parameter is added to the function and bound in its scope. -/
theorem Opened.param (p : Param) :
    Maintains (Opened r f) (param ⟨r.functions.size⟩ p) := by
  refine .bind (.of_reads (.look _)) fun ty => ?_
  refine .bind (.declare fun hs hr => ?_) fun _ => ?_
  · obtain ⟨g, hg, happends⟩ := hs.appends
    exact ⟨hs.scope, { g with parameters := g.parameters ++ [⟨p.name, ty⟩] }, hg,
      happends.addParameter (Registry.map_pair_ok.mp (locateRefusal_ok.mp hr))⟩
  · exact .bind (Opened.bindName _ _ _ _) fun _ => .of_reads (.pure _)

/-- Parameters are added to the function and bound in its scope. -/
theorem Opened.params (ps : List Param) :
    Maintains (Opened r f) (params ⟨r.functions.size⟩ ps) := by
  induction ps with
  | nil => exact .of_reads (.pure _)
  | cons p ps ih =>
    refine .bind (.param p) fun _ => ?_
    exact .bind ih fun _ => .of_reads (.pure _)

/-- The body of a function adds scopes and variables of its own. -/
theorem Opened.block (b : Block) : Maintains (Opened r f) (block b) := by
  intro s hs
  obtain ⟨hcontext, hgrows⟩ := block_keeps b s
  obtain ⟨g, hg, happends⟩ := hs.appends
  exact ⟨by rw [hcontext]; exact hs.scope, g, hg, happends.grow hgrows⟩

/-- The parts of a definition are checked after its function has been added. -/
theorem Opened.parts (ps : List Param) (b : Block) :
    Maintains (Opened r f) (Check.inFunction ⟨r.functions.size⟩ do
      let ps ← Typing.params ⟨r.functions.size⟩ ps
      let b ← Typing.block b
      return (ps, b)) := by
  refine .within (fun s hs => ⟨hs.scope, hs.appends⟩)
    (fun s s' _ hs' => ⟨hs'.scope, hs'.appends⟩) ?_
  refine .bind (Opened.params ps) fun _ => ?_
  exact .bind (Opened.block b) fun _ => .of_reads (.pure _)

end

/-- A function definition appends one function at most, and changes none. -/
theorem funcDef_appends (f : FuncDef) (s : State) :
    ∃ added : List Signature, added.length ≤ 1 ∧ (∀ g ∈ added, g.name = f.name) ∧
      Appends added s.registry ((funcDef f).after s).registry := by
  have hscope := (Registry.pushScope_grows s.registry (some s.context.scope)).appends
  unfold funcDef
  rw [Reads.after_bind fun _ => .pure _, Check.after_inScope, Check.after_bind]
  cases hf : declareFunction f s.inScope with
  | error e s₁ =>
    -- the function is refused, and only the scope is new
    obtain rfl := Unmoved.declare _ _ _ _ hf
    exact ⟨[], Nat.zero_le 1, nofun, hscope⟩
  | ok function s₁ =>
    obtain ⟨r, hr, rfl⟩ := Check.declare_ok.mp hf
    obtain ⟨rfl, happends⟩ := hscope.newFunction (locateRefusal_ok.mp hr)
    have hopened : Opened s.registry f { s.inScope with registry := r } :=
      ⟨Nat.le_refl _, _, rfl, happends⟩
    have hparts := Maintains.bind (Opened.parts f.params f.body)
      (fun p => .of_reads (.pure ((⟨s.registry.functions.size⟩ : FunctionId), p.1, p.2))) _ hopened
    obtain ⟨g, hg, hlast⟩ := hparts.appends
    exact ⟨[g], Nat.le_refl 1, by simpa using hg, hlast⟩

/-! ## Reachable states -/

/-- The registry is reached from `r`, and the current scope is there. -/
structure State.ReachedFrom (r : Registry) (s : State) : Prop where
  registry : Reaches r s.registry
  scope : (s.registry.scope? s.context.scope).isSome = true

/-- A state that checking may come to. -/
def State.Reachable (s : State) : Prop :=
  s.ReachedFrom {}

/-- From wherever a state is reached, so is the one that the check leaves. -/
def Runs (m : Check α) : Prop :=
  ∀ r, Maintains (State.ReachedFrom r) m

section

variable {r : Registry} {s : State}

/-- An operation on the registry leads on. -/
theorem State.ReachedFrom.run (hs : s.ReachedFrom r) (op : Registry.Operation)
    (hfits : op.fits s.registry = true) :
    State.ReachedFrom r ⟨(op.run s.registry).2, s.context⟩ :=
  ⟨.step op hs.registry hfits, (Reaches.step op .refl hfits).scope? hs.scope⟩

theorem State.ReachedFrom.inScope (hs : s.ReachedFrom r) : s.inScope.ReachedFrom r :=
  ⟨.step (.newScope s.context.scope) hs.registry hs.scope,
    Option.isSome_iff_exists.mpr ⟨_, Registry.pushScope_scope?_new s.registry _⟩⟩

namespace Runs

/-- A part in a scope of its own is run from a registry that has this scope. -/
theorem inScope {part : Check α} (hpart : Runs part) : Runs (Check.inScope part) := by
  intro r s hs
  rw [Check.after_inScope]
  -- seen from the state at the start, so that its scope is known to be there at the end
  have hafter := hpart s.registry s.inScope (State.ReachedFrom.inScope ⟨.refl, hs.scope⟩)
  exact ⟨hs.registry.trans hafter.registry, hafter.registry.scope? hs.scope⟩

/-- What changes of the context around a part is not its scope. -/
theorem within {enter : Context → Context} {leave : Context → Context → Context} {part : Check α}
    (henter : ∀ c, (enter c).scope = c.scope) (hleave : ∀ c c', (leave c c').scope = c'.scope)
    (hpart : Runs part) : Runs (Check.within enter leave part) := by
  intro r
  refine Maintains.within (fun s hs => ⟨hs.registry, ?_⟩) (fun s s' _ hs' => ⟨hs'.registry, ?_⟩)
    (hpart r)
  · rw [henter]
    exact hs.scope
  · rw [hleave]
    exact hs'.scope

/-- Binding a name is one operation on the registry. -/
theorem bindName (id : NodeId) (span : Span) (name : String) (y : Symbol) :
    Runs (bindName id span name y) := by
  intro r
  refine Maintains.declare fun {s _ r'} hs hr => ?_
  have hrun := hs.run (.register s.context.scope name y) hs.scope
  rwa [Registry.Operation.run_register (locateRefusal_ok.mp hr)] at hrun

theorem bind {x : Check α} {f : α → Check β} (hx : Runs x) (hf : ∀ a, Runs (f a)) :
    Runs (x >>= f) :=
  fun r => (hx r).bind fun a => hf a r

theorem of_reads {m : Check α} (hm : Reads m) : Runs m :=
  fun _ => .of_reads hm

end Runs

/-- The rules for the ways in which checks are put together. -/
theorem runs_composes : Composes (fun _ m => Runs m) (fun _ m => Runs m) where
  reads := Runs.of_reads
  bind := Runs.bind
  weaken := id
  bindItem := Runs.bind
  bindName := Runs.bindName
  inLoop _ := Runs.within (fun _ => rfl) (fun _ _ => rfl)
  inScope := Runs.inScope

/-- A parameter goes to a function that is there. -/
theorem param_runs {function : FunctionId} (hf : (r.function? function).isSome = true)
    (p : Param) : Maintains (State.ReachedFrom r) (param function p) := by
  refine .bind (.of_reads (.look _)) fun ty => ?_
  refine .bind (.declare fun {s _ r'} hs hr => ?_) fun _ => ?_
  · have hrun := hs.run (.addParameter function ⟨p.name, ty⟩) (hs.registry.function? hf)
    rwa [Registry.Operation.run_addParameter
      (Registry.map_pair_ok.mp (locateRefusal_ok.mp hr))] at hrun
  · exact .bind (Runs.bindName _ _ _ _ r) fun _ => .of_reads (.pure _)

/-- Parameters go to a function that is there. -/
theorem params_runs {function : FunctionId} (hf : (r.function? function).isSome = true)
    (ps : List Param) : Maintains (State.ReachedFrom r) (params function ps) := by
  induction ps with
  | nil => exact .of_reads (.pure _)
  | cons p ps ih =>
    refine .bind (param_runs hf p) fun x => ?_
    exact .bind ih fun xs => .of_reads (.pure _)

/-- Checking a function definition is a run of operations on the registry. -/
theorem funcDef_runs (f : FuncDef) : Runs (funcDef f) := by
  refine .bind (.inScope ?_) fun _ => .of_reads (.pure _)
  intro r s hs
  rw [Check.after_bind]
  cases hf : declareFunction f s with
  | error e s₁ =>
    obtain rfl := Unmoved.declare _ _ _ _ hf
    exact hs
  | ok function s₁ =>
    obtain ⟨r', hr, rfl⟩ := Check.declare_ok.mp hf
    have hrun := hs.run (.newFunction f.name f.returns) rfl
    rw [Registry.Operation.run_newFunction (locateRefusal_ok.mp hr)] at hrun
    -- the parameters are added to the function that has just been declared, so its handle is good
    have hfunction : (r'.function? function).isSome = true := by
      obtain ⟨_, _, rfl, rfl⟩ := Registry.newFunction_ok.mp (locateRefusal_ok.mp hr)
      simp [Registry.function?, Registry.declared, Registry.withFunctions]
    -- from here on everything is within one scope, and the function is noted in the context
    have hparts : Maintains (State.ReachedFrom r') (Check.inFunction function do
        let ps ← params function f.params
        let body ← block f.body
        return (ps, body)) := by
      refine .within (fun s hs => ⟨hs.registry, hs.scope⟩)
        (fun s s' _ hs' => ⟨hs'.registry, hs'.scope⟩) ?_
      refine .bind (params_runs hfunction f.params) fun ps => ?_
      exact .bind (runs_composes.block f.body r') fun body => .of_reads (.pure _)
    have hafter := Maintains.bind hparts
      (fun p => .of_reads (.pure (function, p.1, p.2))) _ ⟨.refl, hrun.scope⟩
    exact ⟨hrun.registry.trans hafter.registry, hafter.scope⟩

/-- Checking a part leads from a reachable state to another, passed or failed. -/
theorem Fragment.runs (part : Fragment) : Runs part.check := by
  intro r
  cases part with
  | expr e => exact .map _ (.of_reads (.look _))
  | lvalue l => exact .map _ (.of_reads (.look _))
  | initializer target depth init => exact .map _ (.of_reads (.look _))
  | stmt t => exact .map _ (runs_composes.stmt t r)
  | block b => exact .map _ (runs_composes.block b r)
  | decl d => exact .map _ (runs_composes.decl d r)
  | funcDef f => exact .map _ (funcDef_runs f r)

/-- Going into a part is a run of operations on the registry. -/
theorem CheckFrame.enter_reachedFrom (frame : CheckFrame) (hs : s.ReachedFrom r) :
    (frame.enter s).ReachedFrom r := by
  cases frame with
  | scope => exact hs.inScope
  | function id => exact ⟨hs.registry, hs.scope⟩
  | loop id => exact ⟨hs.registry, hs.scope⟩

/-- Checking a program starts from a state that can be reached. -/
theorem start_reachable (withBuiltins : Bool) : (start withBuiltins).Reachable := by
  have hglobal : State.Reachable ⟨({} : Registry).ensureGlobal.2, ⟨⟨0⟩, none, []⟩⟩ :=
    ⟨.step .ensureGlobal .refl rfl, rfl⟩
  cases withBuiltins with
  | false => exact hglobal
  | true => exact State.ReachedFrom.run hglobal .addBuiltins rfl

end

/-- Where no scope gains bindings, a name means what it meant. -/
theorem State.Reachable.lookup_eq {s : State} (hs : s.Reachable) {r : Registry}
    (hgrows : Registry.Grows none s.registry r) {id : ScopeId}
    (hid : (s.registry.scope? id).isSome = true) (name : String) :
    r.lookup id name = s.registry.lookup id name := by
  obtain ⟨c, hc⟩ := Option.isSome_iff_exists.mp hid
  obtain ⟨frames, hframes⟩ := (hs.registry.wellFormed Registry.wellFormed_empty).stack hc
  rw [hframes.lookup, (hframes.grow hgrows nofun).lookup]

/-- **What a check leaves in the registry**, passed or failed.

* Expressions, variables and initializers leave it as it is.
* Statements and blocks append scopes and variables.
* A declaration declares, in the current scope, its definitions up to the first that fails.
* A function definition appends scopes, variables and at most one function.
* From a reachable state, checks, frames and registry operations lead to reachable states;
  after any statement, every name means the same in every scope that was there. -/
theorem registry_effects (s : State) :
    (∀ e, ((expr e).after s).registry = s.registry) ∧
    (∀ l, ((lvalue l).after s).registry = s.registry) ∧
    (∀ target depth init, ((initializer target depth init).after s).registry = s.registry) ∧
    (∀ t, Appends [] s.registry ((stmt t).after s).registry) ∧
    (∀ b, Appends [] s.registry ((block b).after s).registry) ∧
    (∀ d, ∃ passed rest ys, d.defs = passed ++ rest ∧
      PassesUpTo d.isConstant d.basic passed rest (decl d) s ((decl d).after s) ∧
      ys.map Symbol.name = passed.map VarDef.name ∧
      Declares s.context.scope ys s.registry ((decl d).after s).registry) ∧
    (∀ f, ∃ added : List Signature, added.length ≤ 1 ∧ (∀ g ∈ added, g.name = f.name) ∧
      Appends added s.registry ((funcDef f).after s).registry) ∧
    (∀ withBuiltins, (start withBuiltins).Reachable) ∧
    (s.Reachable →
      (∀ part : Fragment, (part.check.after s).Reachable) ∧
      (∀ frame : CheckFrame, (frame.enter s).Reachable) ∧
      (∀ op : Registry.Operation, op.fits s.registry = true →
        State.Reachable ⟨(op.run s.registry).2, s.context⟩) ∧
      ∀ t id name, (s.registry.scope? id).isSome = true →
        ((stmt t).after s).registry.lookup id name = s.registry.lookup id name) := by
  refine ⟨fun _ => congrArg State.registry (Reads.look _ s),
    fun _ => congrArg State.registry (Reads.look _ s),
    fun _ _ _ => congrArg State.registry (Reads.look _ s),
    fun t => (stmt_keeps t s).2.appends, fun b => (block_keeps b s).2.appends,
    fun d => decl_passesUpTo d s, fun f => funcDef_appends f s, start_reachable, fun hs => ?_⟩
  exact ⟨fun part => part.runs {} s hs, fun frame => frame.enter_reachedFrom hs,
    fun op hfits => hs.run op hfits, fun t _ name hid => hs.lookup_eq (stmt_keeps t s).2 hid name⟩

/-- `int32 b, c = d, e;` where `d` is not declared. -/
def failingDecl : Decl :=
  ⟨⟨30⟩, false, .int32, [⟨⟨31⟩, "b", [], none, default, none⟩,
    ⟨⟨32⟩, "c", [], some (.scalar ⟨33⟩ (.plain ⟨34⟩ (.lvalue (.plain ⟨35⟩ "d" [] default)) default)
      default), default, none⟩,
    ⟨⟨36⟩, "e", [], none, default, none⟩], default⟩

/-- The operations that lead to a scope inside of the global one, which has a variable `a`. -/
def belowGlobalRun : List Registry.Operation :=
  [.ensureGlobal, .newScope ⟨0⟩, .register ⟨0⟩ "a" (.ofVariable "a" (.scalar .int32))]

/-- The state in that scope. -/
def belowGlobal : State :=
  ⟨(Registry.Operation.runAll belowGlobalRun {}).getD {}, ⟨⟨1⟩, none, []⟩⟩

theorem registry_effects_belowGlobal :
    belowGlobal.Reachable ∧
    ((Fragment.stmt failingLoop).check.outcome belowGlobal =
        .error (.diagnostic ⟨.undeclaredVariable "b", default, some ⟨12⟩⟩) ∧
      ((stmt failingLoop).after belowGlobal).registry.lookup ⟨3⟩ "a" = .ok ⟨1⟩ ∧
      ((stmt failingLoop).after belowGlobal).registry.lookup ⟨1⟩ "a" = .ok ⟨0⟩) ∧
    ∃ passed rest ys, failingDecl.defs = passed ++ rest ∧ passed.length = 1 ∧
      PassesUpTo false .int32 passed rest (decl failingDecl) belowGlobal
        ((decl failingDecl).after belowGlobal) ∧
      Declares ⟨1⟩ ys belowGlobal.registry ((decl failingDecl).after belowGlobal).registry := by
  have hrun : Registry.Operation.runAll belowGlobalRun {} = some belowGlobal.registry := by
    decide +kernel
  have hreachable : belowGlobal.Reachable :=
    ⟨Registry.reaches_of_runAll hrun, by decide +kernel⟩
  obtain ⟨_, _, _, _, _, hdecl, _, _, hreached⟩ := registry_effects belowGlobal
  obtain ⟨_, _, _, hlookup⟩ := hreached hreachable
  obtain ⟨passed, rest, ys, hdefs, hpasses, hnames, hdeclares⟩ := hdecl failingDecl
  refine ⟨hreachable, ⟨by decide +kernel, by decide +kernel, ?_⟩, passed, rest, ys, hdefs, ?_,
    hpasses, hdeclares⟩
  · rw [hlookup failingLoop ⟨1⟩ "a" (by decide +kernel)]
    decide +kernel
  · -- one variable has been added, and it is that of the definition that passed
    have hsize := congrArg List.length hdeclares.symbols
    have hlength := congrArg List.length hnames
    have hbefore : belowGlobal.registry.symbols.toList.length = 1 := by decide +kernel
    have hafter : ((decl failingDecl).after belowGlobal).registry.symbols.toList.length = 2 := by
      decide +kernel
    rw [List.length_append, hbefore, hafter] at hsize
    rw [List.length_map, List.length_map] at hlength
    omega

end Typing

end CactLang
