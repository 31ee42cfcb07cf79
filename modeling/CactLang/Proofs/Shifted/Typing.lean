import CactLang.Proofs.Contents
import CactLang.Proofs.InPlace.Annotate
import CactLang.Proofs.Nodes
import CactLang.Proofs.Shifted.Tree
import CactLang.Proofs.Unplaced.Tree

/-!
# Checking with the built-in functions in front

Two runs side by side: one from an empty registry and one with the built-in functions in front
of it. The table of functions is asked for names that are called, for the names of function
definitions and for those of global variables. If none of them is the name of a built-in
function, the two runs do the same, step by step, and differ in the handles of functions only.

> `annotate_shifted`: with the built-in functions, a program that does not name them is checked
> with the same outcome and the same registry behind theirs, and every function that is noted
> down on the tree is shifted.
-/

namespace CactLang

/-! ## Names that may be those of functions -/

/-- The name that is called at the node. -/
def Node.callee? : Node → Option String
  | .expr ⟨_, .call callee _ _, _, _⟩ => some callee
  | _ => none

/-- The names that an item declares next to the other items. -/
def Item.names : Item → List String
  | .decl d => d.defs.map VarDef.name
  | .func f => [f.name]

/-- The names that are called, and those of function definitions and of global variables. -/
def Program.queriedNames (p : Program) : List String :=
  p.nodes.filterMap Node.callee? ++ p.items.flatMap Item.names

/-! ## The registry -/

namespace Registry

/-- The names of the built-in functions. -/
def builtinNames : List String :=
  builtins.map Signature.name

/-- The registry with the built-in functions and their names in front. -/
def shifted (r : Registry) : Registry :=
  r.withFunctions (builtins.toArray ++ r.functions)
    (namesFrom 0 builtins ++ r.functionNames.map (Prod.map id FunctionId.shifted))

variable {r : Registry} {name : String}

/-- Shifting the handles of a table shifts what is found in it. -/
theorem lookup_map_shifted (entries : List (String × FunctionId)) :
    (entries.map (Prod.map id FunctionId.shifted)).lookup name =
      (entries.lookup name).map FunctionId.shifted := by
  induction entries with
  | nil => rfl
  | cons entry entries ih =>
    obtain ⟨other, f⟩ := entry
    rw [List.map_cons, Prod.map_apply, id, List.lookup_cons, List.lookup_cons, ih]
    cases name == other <;> rfl

/-- A name that is not that of a built-in function stands for the same function as before. -/
theorem findFunction?_shifted (h : name ∉ builtinNames) :
    r.shifted.findFunction? name = (r.findFunction? name).map FunctionId.shifted := by
  have hnone : (namesFrom 0 builtins).lookup name = none := lookup_eq_none.mpr h
  unfold findFunction? shifted withFunctions
  rw [List.lookup_append, hnone, Option.none_or, lookup_map_shifted]

/-- Behind a shifted handle stands the function that stood behind the handle. -/
theorem function?_shifted (f : FunctionId) : r.shifted.function? f.shifted = r.function? f := by
  unfold function? shifted withFunctions FunctionId.shifted
  have hsize : builtins.toArray.size ≤ f.index + builtins.length := Nat.le_add_left _ _
  rw [Array.getElem?_append_right hsize]
  exact congrArg (r.functions[·]?) (Nat.add_sub_cancel _ _)

/-- A new function goes behind the built-in ones as it goes behind none. -/
theorem declared_shifted (signature : Signature) :
    r.shifted.declared signature = (r.declared signature).shifted := by
  have hsize : r.shifted.functions.size = r.functions.size + builtins.length := by
    rw [shifted, withFunctions, Array.size_append, Nat.add_comm]
    rfl
  have hpush : r.shifted.functions.push signature =
      builtins.toArray ++ r.functions.push signature := Array.push_append
  unfold declared
  rw [hsize, hpush]
  unfold shifted withFunctions
  rw [List.map_append, List.append_assoc]
  rfl

/-- A function is refused in both registries or in none, and has a shifted handle. -/
theorem newFunction_shifted {returns : BasicType} (h : name ∉ builtinNames) :
    r.shifted.newFunction name returns =
      (r.newFunction name returns).map (Prod.map FunctionId.shifted shifted) := by
  have hsize :
      (⟨r.shifted.functions.size⟩ : FunctionId) = FunctionId.shifted ⟨r.functions.size⟩ := by
    rw [shifted, withFunctions, Array.size_append, Nat.add_comm]
    rfl
  rw [newFunction_eq, newFunction_eq, findFunction?_shifted h, Option.isSome_map, hsize,
    declared_shifted, show r.shifted.globalBinds name = r.globalBinds name from rfl]
  cases r.globalBinds name with
  | error refusal => rfl
  | ok binds => cases binds <;> cases (r.findFunction? name).isSome <;> rfl

/-- A change of a function leaves the built-in ones in front of it alone. -/
theorem updated_shifted (f : FunctionId) (signature : Signature) :
    r.shifted.updated f.shifted signature = (r.updated f signature).shifted := by
  have hset : r.shifted.functions.setIfInBounds f.shifted.index signature =
      builtins.toArray ++ r.functions.setIfInBounds f.index signature := by
    have hsize : builtins.toArray.size ≤ f.shifted.index := Nat.le_add_left _ _
    rw [shifted, withFunctions, Array.setIfInBounds_append_right hsize]
    exact congrArg (builtins.toArray ++ r.functions.setIfInBounds · signature)
      (Nat.add_sub_cancel _ _)
  unfold updated
  rw [hset]
  rfl

/-- A parameter is added to a shifted function as to the function. -/
theorem addParameter_shifted {f : FunctionId} {parameter : Parameter} :
    r.shifted.addParameter f.shifted parameter = (r.addParameter f parameter).map shifted := by
  rw [addParameter_eq, addParameter_eq, function?_shifted]
  cases r.function? f with
  | none => rfl
  | some g => exact congrArg Except.ok (updated_shifted f _)

/-- In a scope other than the global one, any name can be bound. -/
theorem register_shifted {scope : ScopeId} {symbol : Symbol}
    (h : r.global = some scope → name ∉ builtinNames) :
    r.shifted.register scope name symbol =
      (r.register scope name symbol).map (Prod.map id shifted) := by
  have hcond : (r.shifted.global = some scope ∧ (r.shifted.findFunction? name).isSome) ↔
      (r.global = some scope ∧ (r.findFunction? name).isSome) := by
    refine and_congr_right fun hglobal => ?_
    rw [findFunction?_shifted (h hglobal), Option.isSome_map]
  rw [register_eq, register_eq]
  by_cases hfunction : r.global = some scope ∧ (r.findFunction? name).isSome
  · rw [if_pos hfunction, if_pos (hcond.mpr hfunction)]
    rfl
  · rw [if_neg hfunction, if_neg (mt hcond.mp hfunction),
      show r.shifted.scope? scope = r.scope? scope from rfl]
    cases r.scope? scope with
    | none => rfl
    | some s =>
      dsimp only
      cases (s.get? name).isSome <;> rfl

/-- Variables are looked up in the scopes, and these have no built-in functions. -/
theorem lookup_shifted {scope : ScopeId} : r.shifted.lookup scope name = r.lookup scope name := by
  have hwithin : ∀ steps scope, r.shifted.lookupWithin name steps scope =
      r.lookupWithin name steps scope := by
    intro steps
    induction steps with
    | zero =>
      intro scope
      rw [lookupWithin, lookupWithin, show r.shifted.scope? scope = r.scope? scope from rfl]
      cases r.scope? scope with
      | none => rfl
      | some s =>
        dsimp only
        cases s.get? name <;> cases s.parent <;> rfl
    | succ steps ih =>
      intro scope
      rw [lookupWithin, lookupWithin, show r.shifted.scope? scope = r.scope? scope from rfl]
      cases r.scope? scope with
      | none => rfl
      | some s =>
        dsimp only
        -- only a name that is not bound here is looked up further out
        cases s.get? name <;> cases s.parent <;> first | rfl | exact ih _
  exact hwithin _ _

end Registry

namespace Typing

/-! ## Two runs side by side -/

/-- The context with a shifted function. -/
def Context.shifted (c : Context) : Context :=
  { c with function := c.function.map FunctionId.shifted }

/-- The state with the built-in functions in front. -/
def State.shifted (s : State) : State :=
  ⟨s.registry.shifted, s.context.shifted⟩

/-- There is a global scope, and the walk is in another one unless it may be at the top. -/
structure State.Rooted (top : Bool) (s : State) : Prop where
  global : s.registry.global = some ⟨0⟩
  pos : 0 < s.registry.scopes.size
  inner : top = false → s.context.scope ≠ ⟨0⟩

/-- With the built-in functions in front, `m'` does what `m` does. -/
def Check.Shifts (top : Bool) {β : Type} (value : β → β) (m m' : Check β) : Prop :=
  ∀ s : State, s.Rooted top → m' s.shifted = mapResult id State.shifted value (m s) ∧
    ∀ b s', m s = .ok b s' → s'.Rooted top

/-- With the built-in functions in front, `pass'` does what `pass` does and leaves the part with
shifted functions. -/
def InPlace.Shifts (top : Bool) {τ α : Type} (part : τ → τ) (pass pass' : InPlace τ α) : Prop :=
  ∀ s : State, s.Rooted top →
    pass' s.shifted = (pass s).map part (mapResult id State.shifted id) ∧
    ∀ a s', (pass s).2 = .ok a s' → s'.Rooted top

namespace Check.Shifts

variable {top : Bool} {β : Type} {value : β → β}

/-- A look that finds the same, but for shifted functions. -/
theorem look {f f' : Registry → Context → Except Failure β}
    (h : ∀ r c, f' r.shifted c.shifted = (f r c).map value) :
    (Check.look f).Shifts top value (Check.look f') := by
  intro s hs
  unfold Check.look
  rw [show f' s.shifted.registry s.shifted.context = _ from h s.registry s.context]
  cases f s.registry s.context with
  | error e => exact ⟨rfl, fun b s' hrun => by cases hrun⟩
  | ok a =>
    refine ⟨rfl, fun b s' hrun => ?_⟩
    cases hrun
    exact hs

/-- A look that does not ask for functions at all. -/
theorem same {f : Except Failure β} :
    (Check.look fun _ _ => f).Shifts top id (Check.look fun _ _ => f) :=
  look fun _ _ => by cases f <;> rfl

/-- Nothing is checked in either run. -/
theorem pure {b : β} : (Pure.pure b : Check β).Shifts top id (Pure.pure b) := by
  intro s hs
  refine ⟨rfl, fun b s' hrun => ?_⟩
  cases hrun
  exact hs

/-- A condition on what is the same in both runs. -/
theorem ite {p : Prop} [Decidable p] {m n m' n' : Check β} (hm : m.Shifts top value m')
    (hn : n.Shifts top value n') :
    (if p then m else n).Shifts top value (if p then m' else n') := by
  by_cases hp : p
  · rw [if_pos hp, if_pos hp]
    exact hm
  · rw [if_neg hp, if_neg hp]
    exact hn

/-- A change that the registry allows in one run if and only if it does in the other. -/
theorem declare {node : NodeId} {span : Span}
    {f f' : Registry → Context → Except Registry.Refusal (β × Registry)}
    (h : ∀ s : State, s.Rooted top → f' s.shifted.registry s.shifted.context =
      (f s.registry s.context).map (Prod.map value Registry.shifted))
    (hkeeps : ∀ r c b r', f r c = .ok (b, r') →
      r'.global = r.global ∧ r'.scopes.size = r.scopes.size) :
    (Check.declare fun r c => locateRefusal node span (f r c)).Shifts top value
      (Check.declare fun r c => locateRefusal node span (f' r c)) := by
  intro s hs
  unfold Check.declare
  dsimp only
  rw [h s hs]
  cases hf : f s.registry s.context with
  | error refusal =>
    cases refusal <;> exact ⟨rfl, fun b s' hrun => by cases hrun⟩
  | ok x =>
    obtain ⟨hglobal, hsize⟩ := hkeeps _ _ _ _ hf
    refine ⟨rfl, fun b s' hrun => ?_⟩
    cases hrun
    exact ⟨hglobal.trans hs.global, Nat.lt_of_lt_of_eq hs.pos hsize.symm, hs.inner⟩

end Check.Shifts

namespace InPlace.Shifts

variable {top : Bool} {σ τ α β : Type} {f : τ → τ} {g : σ → σ} {part part' : τ}

/-- Both passes are at their end. -/
theorem done {a : α} (h : part' = f part) : (done part a).Shifts top f (done part' a) := by
  intro s hs
  rw [h]
  refine ⟨rfl, fun b s' hrun => ?_⟩
  cases hrun
  exact hs

/-- A check that fails leaves the part as it was, in both runs. -/
theorem step (value : β → β) {check check' : Check β} {next next' : β → InPlace τ α}
    (h : part' = f part) (hcheck : check.Shifts top value check')
    (hnext : ∀ b, (next b).Shifts top f (next' (value b))) :
    (step part check next).Shifts top f (step part' check' next') := by
  intro s hs
  obtain ⟨hrun, hrooted⟩ := hcheck s hs
  unfold InPlace.step
  rw [hrun, h]
  cases hc : check s with
  | ok b s' => exact hnext b s' (hrooted b s' hc)
  | error e s' => exact ⟨rfl, fun a s'' hrun => by cases hrun⟩

/-- What a smaller pass leaves is put back into the part, also where it fails. -/
theorem inside {smaller smaller' : InPlace σ β} {put put' : σ → τ}
    {next next' : σ → β → InPlace τ α} (hsmaller : smaller.Shifts top g smaller')
    (hput : ∀ x, put' (g x) = f (put x))
    (hnext : ∀ x b, (next x b).Shifts top f (next' (g x) b)) :
    (inside smaller put next).Shifts top f (inside smaller' put' next') := by
  intro s hs
  obtain ⟨hrun, hrooted⟩ := hsmaller s hs
  unfold InPlace.inside
  rw [hrun]
  rcases hc : smaller s with ⟨x, ⟨b, s'⟩ | ⟨e, s'⟩⟩
  · rw [hc] at hrooted
    exact hnext x b s' (hrooted b s' rfl)
  · refine ⟨?_, fun a s'' hrun => by cases hrun⟩
    exact congrArg (Prod.mk · _) (hput x)

/-- A pass in a context with another function or other loops. -/
theorem within {enter enter' : Context → Context} {leave leave' : Context → Context → Context}
    {pass pass' : InPlace τ α} {inner : Bool} (hpass : pass.Shifts inner f pass')
    (henter : ∀ c, enter' c.shifted = (enter c).shifted)
    (hleave : ∀ c d, leave' c.shifted d.shifted = (leave c d).shifted)
    (hin : ∀ s : State, s.Rooted top → State.Rooted inner ⟨s.registry, enter s.context⟩)
    (hout : ∀ s s' : State, s.Rooted top → s'.Rooted inner →
      State.Rooted top ⟨s'.registry, leave s.context s'.context⟩) :
    (within enter leave pass).Shifts top f (within enter' leave' pass') := by
  intro s hs
  obtain ⟨hrun, hrooted⟩ := hpass ⟨s.registry, enter s.context⟩ (hin s hs)
  have hstart : ({ s.shifted with context := enter' s.shifted.context } : State) =
      State.shifted ⟨s.registry, enter s.context⟩ :=
    congrArg (State.mk s.registry.shifted) (henter s.context)
  unfold InPlace.within
  rw [hstart, hrun]
  rcases hc : pass ⟨s.registry, enter s.context⟩ with ⟨x, ⟨b, s'⟩ | ⟨e, s'⟩⟩
  · rw [hc] at hrooted
    refine ⟨?_, fun a s'' hrun => ?_⟩
    · exact congrArg (fun c => (f x, EStateM.Result.ok b (State.mk s'.registry.shifted c)))
        (hleave s.context s'.context)
    · cases hrun
      exact hout s s' hs (hrooted b s' rfl)
  · refine ⟨?_, fun a s'' hrun => by cases hrun⟩
    exact congrArg (fun c => (f x, EStateM.Result.error e (State.mk s'.registry.shifted c)))
      (hleave s.context s'.context)

/-- In a new scope the walk is not at the top. -/
theorem inScope {smaller smaller' : InPlace σ β} {put put' : σ → τ}
    {next next' : ScopeId → σ → β → InPlace τ α} (h : part' = f part)
    (hsmaller : smaller.Shifts false g smaller') (hput : ∀ x, put' (g x) = f (put x))
    (hnext : ∀ scope x b, (next scope x b).Shifts top f (next' scope (g x) b)) :
    (inScope part smaller put next).Shifts top f (inScope part' smaller' put' next') := by
  intro s hs
  rw [h]
  -- the new scope has the next handle, which is not that of the global scope
  let scope : ScopeId := ⟨s.registry.scopes.size⟩
  have hscope : scope ≠ ⟨0⟩ := fun hzero => Nat.ne_of_gt hs.pos (ScopeId.mk.inj hzero)
  have hentered : State.Rooted top ⟨(s.registry.newScope s.context.scope).2, s.context⟩ :=
    ⟨hs.global, Nat.lt_of_lt_of_eq (Nat.succ_pos _) (Array.size_push _).symm, hs.inner⟩
  have hpart : (InPlace.within ({ · with scope })
      (fun before after => { after with scope := before.scope }) smaller).Shifts top g
      (InPlace.within ({ · with scope })
        (fun before after => { after with scope := before.scope }) smaller') :=
    within hsmaller (fun _ => rfl) (fun _ _ => rfl)
      (fun _ hs => ⟨hs.global, hs.pos, fun _ => hscope⟩)
      fun _ _ hs hs' => ⟨hs'.global, hs'.pos, hs.inner⟩
  exact inside hpart hput (hnext scope) _ hentered

/-- Inside of a function the scope is the same as outside, and the function is shifted. -/
theorem inFunction {pass pass' : InPlace τ α} (function : FunctionId)
    (h : pass.Shifts top f pass') :
    (inFunction function pass).Shifts top f (inFunction function.shifted pass') := by
  refine within h (fun _ => rfl) (fun _ _ => rfl) (fun s hs => ?_) (fun s s' _ hs' => ?_)
  · exact ⟨hs.global, hs.pos, hs.inner⟩
  · exact ⟨hs'.global, hs'.pos, hs'.inner⟩

/-- Loops are kept by the identity of their node, which no run changes. -/
theorem inLoop {pass pass' : InPlace τ α} (loop : NodeId) (h : pass.Shifts top f pass') :
    (inLoop loop pass).Shifts top f (inLoop loop pass') := by
  refine within h (fun _ => rfl) (fun _ _ => rfl) (fun s hs => ?_) (fun s s' _ hs' => ?_)
  · exact ⟨hs.global, hs.pos, hs.inner⟩
  · exact ⟨hs'.global, hs'.pos, hs'.inner⟩

/-- Parts of one kind, one after the other up to the first that fails. -/
theorem each {pass pass' : τ → InPlace τ Unit} {xs : List τ}
    (h : ∀ x ∈ xs, (pass x).Shifts top f (pass' (f x))) :
    (each pass xs).Shifts top (List.map f) (each pass' (xs.map f)) := by
  induction xs with
  | nil => exact done rfl
  | cons x xs ih =>
    obtain ⟨hx, hxs⟩ := List.forall_mem_cons.mp h
    refine inside hx (fun _ => rfl) fun x' _ => ?_
    exact inside (ih hxs) (fun _ => rfl) fun xs' _ => done rfl

end InPlace.Shifts

/-! ## Expressions -/

/-- No node calls a built-in function. -/
def CallsOthers (ns : List Node) : Prop :=
  ∀ n ∈ ns, ∀ callee, n.callee? = some callee → callee ∉ Registry.builtinNames

theorem callsOthers_append {ms ns : List Node} :
    CallsOthers (ms ++ ns) ↔ CallsOthers ms ∧ CallsOthers ns :=
  List.forall_mem_append

/-- The variable of a use is found in the scopes. -/
theorem variableOf_shifted {r : Registry} {scope : ScopeId} (l : LValue) :
    variableOf r.shifted scope l.shifted = (variableOf r scope l).map id := by
  obtain ⟨id, name, indices, span, symbol, assignable⟩ := l
  have hlength : (Expr.allShifted indices).length = indices.length := by
    rw [Expr.allShifted_eq_map, List.length_map]
  unfold variableOf
  rw [LValue.shifted, Registry.lookup_shifted]
  dsimp only
  rw [hlength, Except.map_id]
  rfl

/-- The function of a call is found behind the built-in ones, and the number of arguments is
compared with the same signature. -/
theorem functionOf_shifted {r : Registry} {node : NodeId} {span : Span} {callee : String}
    {arguments : List Expr} (h : callee ∉ Registry.builtinNames) :
    functionOf r.shifted node span callee (Expr.allShifted arguments) =
      (functionOf r node span callee arguments).map (Prod.map FunctionId.shifted id) := by
  unfold functionOf Registry.lookupFunction
  rw [Registry.findFunction?_shifted h, Expr.allShifted_eq_map, List.length_map]
  cases r.findFunction? callee with
  | none => rfl
  | some function =>
    show (entry (r.shifted.function? function.shifted) >>= _) = Except.map _ (entry _ >>= _)
    rw [Registry.function?_shifted]
    cases r.function? function with
    | none => rfl
    | some signature =>
      show Except.bind (.ok signature) _ = Except.map _ (Except.bind (.ok signature) _)
      simp only [Except.bind, ← List.map_drop]
      -- the same arguments are left over, and the first of them is blamed
      cases arguments.drop signature.parameters.length with
      | cons extra rest =>
        show reject _ extra.shifted.id extra.shifted.span = _
        rw [Expr.id_shifted, Expr.span_shifted]
        rfl
      | nil =>
        by_cases hfew : arguments.length < signature.parameters.length
        · simp only [List.map_nil, if_pos hfew]
          rfl
        · simp only [List.map_nil, if_neg hfew]
          rfl

namespace InPlace

variable {top : Bool}

/-- What is noted down on an expression is noted down on the shifted one. -/
theorem note_shifts {e e' : Expr} {found found' : Except Failure ExprInfo} (he : e' = e.shifted)
    (h : found' = found) : (note e found).Shifts top Expr.shifted (note e' found') := by
  rw [h, he]
  refine .step id rfl .same fun info => .done ?_
  cases e
  rfl

/-- What is demanded of an expression is demanded of the shifted one. -/
theorem demand_shifts {p : Prop} [Decidable p] {cause : Cause} (e : Expr) :
    Check.Shifts top id (if p then pure () else refuse cause e.id e.span)
      (if p then pure () else refuse cause e.shifted.id e.shifted.span) := by
  rw [Expr.id_shifted, Expr.span_shifted]
  exact .ite .pure .same

-- The passes are mutually recursive over the tree. What is known of the nodes of a part, that
-- they call no built-in function, is split along the list of nodes before each step down.
mutual

theorem expr_shifts : ∀ (e : Expr) (negated : Bool), CallsOthers e.nodes →
    (expr negated e).Shifts top Expr.shifted (expr negated e.shifted)
  | ⟨_, .number _ _, _, _⟩, _, _ => note_shifts rfl rfl
  | ⟨_, .bool _, _, _⟩, _, _ => note_shifts rfl rfl
  | ⟨_, .lvalue l, _, _⟩, _, h => by
    rw [Expr.nodes, ExprKind.nodes, callsOthers_append] at h
    refine .inside (lvalue_shifts l h.1) (fun _ => rfl) fun l' ty => note_shifts rfl ?_
    rw [LValue.assignable_shifted]
  | ⟨_, .paren inner, _, _⟩, _, h => by
    rw [Expr.nodes, ExprKind.nodes, callsOthers_append] at h
    refine .inside (expr_shifts inner false h.1) (fun _ => rfl) fun inner' i => ?_
    exact note_shifts rfl rfl
  | ⟨_, .unary _ operand, _, _⟩, _, h => by
    rw [Expr.nodes, ExprKind.nodes, callsOthers_append] at h
    refine .inside (expr_shifts operand _ h.1) (fun _ => rfl) fun operand' i => ?_
    exact note_shifts rfl rfl
  | ⟨_, .binary _ left right, _, _⟩, _, h => by
    rw [Expr.nodes, ExprKind.nodes, callsOthers_append, callsOthers_append] at h
    obtain ⟨⟨hleft, hright⟩, _⟩ := h
    refine .inside (expr_shifts left false hleft) (fun _ => rfl) fun left' i => ?_
    refine .inside (expr_shifts right false hright) (fun _ => rfl) fun right' j => ?_
    exact note_shifts rfl rfl
  | ⟨_, .call callee es _, _, _⟩, _, h => by
    rw [Expr.nodes, ExprKind.nodes, callsOthers_append] at h
    -- the call itself is the last of its nodes
    have hcallee := h.2 _ List.mem_cons_self callee rfl
    refine .step (Prod.map FunctionId.shifted id) rfl
      (.look fun r _ => functionOf_shifted hcallee) fun found => ?_
    refine .inside (arguments_shifts callee es found.2.parameters 0 h.1) (fun _ => rfl)
      fun es' _ => ?_
    exact note_shifts rfl rfl
  termination_by structural e => e

theorem lvalue_shifts : ∀ l : LValue, CallsOthers l.nodes →
    (lvalue l).Shifts top LValue.shifted (lvalue l.shifted)
  | ⟨node, name, es, span, symbol, assignable⟩, h => by
    rw [LValue.nodes, callsOthers_append] at h
    have hlength : (Expr.allShifted es).length = es.length := by
      rw [Expr.allShifted_eq_map, List.length_map]
    rw [LValue.shifted, lvalue, lvalue, hlength]
    refine .step id rfl (.look fun _ _ =>
      variableOf_shifted ⟨node, name, es, span, symbol, assignable⟩) fun found => ?_
    exact .inside (indices_shifts es h.1) (fun _ => rfl) fun es' _ => .done rfl
  termination_by structural l => l

theorem indices_shifts : ∀ es : List Expr, CallsOthers (Expr.allNodes es) →
    (indices es).Shifts top Expr.allShifted (indices (Expr.allShifted es))
  | [], _ => .done rfl
  | e :: es, h => by
    rw [Expr.allNodes, callsOthers_append] at h
    refine .inside (expr_shifts e false h.1) (fun _ => rfl) fun e' i => ?_
    refine .step id rfl (demand_shifts e) fun _ => ?_
    exact .inside (indices_shifts es h.2) (fun _ => rfl) fun es' _ => .done rfl
  termination_by structural es => es

theorem arguments_shifts (callee : String) : ∀ (es : List Expr) (ps : List Parameter)
    (index : Nat), CallsOthers (Expr.allNodes es) →
      (arguments callee index ps es).Shifts top Expr.allShifted
        (arguments callee index ps (Expr.allShifted es))
  | [], ps, _, _ => by
    cases ps <;> exact .done rfl
  | _ :: _, [], _, _ => .done rfl
  | e :: es, _ :: ps, _, h => by
    rw [Expr.allNodes, callsOthers_append] at h
    refine .inside (expr_shifts e false h.1) (fun _ => rfl) fun e' i => ?_
    refine .step id rfl (demand_shifts e) fun _ => ?_
    exact .inside (arguments_shifts callee es ps _ h.2) (fun _ => rfl) fun es' _ => .done rfl
  termination_by structural es => es

end

end InPlace

/-! ## Declarations -/

/-- A name is bound in both runs. At the top it must not be that of a built-in function, which
would be a duplicate in one run only. -/
theorem bindName_shifts {top : Bool} {node : NodeId} {span : Span} {name : String}
    {symbol : Symbol} (h : top = true → name ∉ Registry.builtinNames) :
    (bindName node span name symbol).Shifts top id (bindName node span name symbol) := by
  refine .declare (fun s hs => Registry.register_shifted fun hglobal => h ?_)
    fun r c v r' hr => ?_
  -- the table of functions is asked for names of the global scope only
  · have hscope : s.context.scope = ⟨0⟩ := Option.some.inj (hglobal.symm.trans hs.global)
    cases top with
    | true => rfl
    | false => exact absurd hscope (hs.inner rfl)
  · obtain ⟨sc, _, _, _, _, rfl⟩ := Registry.register_ok.mp hr
    exact ⟨rfl, Array.size_setIfInBounds⟩

/-- A parameter is added to the function that is being defined, which is shifted. -/
theorem addParameter_shifts {top : Bool} {node : NodeId} {span : Span} {function : FunctionId}
    {parameter : Parameter} :
    Check.Shifts top id
      (.declare fun r _ =>
        locateRefusal node span ((r.addParameter function parameter).map ((), ·)))
      (.declare fun r _ =>
        locateRefusal node span ((r.addParameter function.shifted parameter).map ((), ·))) := by
  refine .declare (fun s _ => ?_) fun r c b r' hr => ?_
  · rw [show s.shifted.registry = s.registry.shifted from rfl, Registry.addParameter_shifted]
    cases s.registry.addParameter function parameter <;> rfl
  · cases hadd : r.addParameter function parameter with
    | error refusal =>
      rw [hadd] at hr
      cases hr
    | ok r₁ =>
      rw [hadd] at hr
      cases hr
      obtain ⟨_, _, rfl⟩ := Registry.addParameter_ok.mp hadd
      exact ⟨rfl, rfl⟩

/-- How deep the items of a list stand does not hang on what is noted down on them. -/
theorem itemDepth_shifted (target : Ty) (depth extent : Nat) (items : List Initializer) :
    itemDepth target depth extent (Initializer.allShifted items) =
      itemDepth target depth extent items := by
  have hall : (Initializer.allShifted items).all Initializer.isScalar =
      items.all Initializer.isScalar := by
    simp [Initializer.allShifted_eq_map, Function.comp_def]
  unfold itemDepth
  rw [hall, Initializer.allShifted_eq_map, List.length_map]

namespace InPlace

variable {top : Bool}

mutual

theorem initializer_shifts (target : Ty) : ∀ (x : Initializer) (depth : Nat),
    CallsOthers x.nodes → (initializer target depth x).Shifts top Initializer.shifted
      (initializer target depth x.shifted)
  | .scalar _ value _, _, h => by
    rw [Initializer.nodes, callsOthers_append] at h
    refine .step id rfl (.ite .same .pure) fun _ => ?_
    refine .inside (expr_shifts value false h.1) (fun _ => rfl) fun value' info => ?_
    refine .step id rfl ?_ fun _ => .done rfl
    -- a value of another type, or one that is not constant, is blamed itself
    rw [Expr.id_shifted, Expr.span_shifted]
    exact .ite .same (.ite .same .pure)
  | .list _ items _, depth, h => by
    rw [Initializer.nodes, callsOthers_append] at h
    rw [Initializer.shifted, initializer, initializer]
    simp only [itemDepth_shifted]
    refine .step id rfl .same fun inner => ?_
    exact .inside (initializers_shifts target items inner h.1) (fun _ => rfl) fun items' _ =>
      .done rfl

theorem initializers_shifts (target : Ty) : ∀ (xs : List Initializer) (depth : Nat),
    CallsOthers (Initializer.allNodes xs) →
      (initializers target depth xs).Shifts top Initializer.allShifted
        (initializers target depth (Initializer.allShifted xs))
  | [], _, _ => .done rfl
  | x :: xs, depth, h => by
    rw [Initializer.allNodes, callsOthers_append] at h
    refine .inside (initializer_shifts target x depth h.1) (fun _ => rfl) fun x' _ => ?_
    exact .inside (initializers_shifts target xs depth h.2) (fun _ => rfl) fun xs' _ => .done rfl

end

/-- A variable is bound after its initializer has been checked. -/
theorem varDef_shifts (isConstant : Bool) (basic : BasicType) (d : VarDef)
    (h : CallsOthers d.nodes) (hname : top = true → d.name ∉ Registry.builtinNames) :
    (varDef isConstant basic d).Shifts top VarDef.shifted
      (varDef isConstant basic d.shifted) := by
  obtain ⟨node, name, dims, init, span, symbol⟩ := d
  refine .step id rfl .same fun ty => ?_
  cases init with
  | none => exact .step id rfl (bindName_shifts hname) fun _ => .done rfl
  | some init =>
    have hinit := (callsOthers_append.mp h).1
    refine .inside (initializer_shifts ty init 0 hinit) (fun _ => rfl) fun init' _ => ?_
    exact .step id rfl (bindName_shifts hname) fun _ => .done rfl

/-- The variables of a declaration; only at the top their names matter. -/
theorem decl_shifts (d : Decl) (h : CallsOthers d.nodes)
    (hnames : top = true → ∀ v ∈ d.defs, v.name ∉ Registry.builtinNames) :
    (decl d).Shifts top Decl.shifted (decl d.shifted) := by
  have hdefs := (callsOthers_append.mp h).1
  refine .inside (.each fun v hv => varDef_shifts d.isConstant d.basic v ?_ ?_) (fun _ => rfl)
    fun _ _ => .done rfl
  · intro n hn
    exact hdefs n (List.mem_flatMap_of_mem hv hn)
  · intro htop
    exact hnames htop v hv

/-- A parameter is added to the signature and bound in the scope of the function, where it may
have the name of a built-in function. -/
theorem param_shifts (function : FunctionId) (p : Param) :
    (param function p).Shifts false id (param function.shifted p) := by
  refine .step id rfl .same fun ty => ?_
  refine .step id rfl addParameter_shifts fun _ => ?_
  refine .step id rfl (bindName_shifts fun htop => ?_) fun _ => .done rfl
  cases htop

/-- A condition is an expression of which `bool` is demanded. -/
theorem condition_shifts (e : Expr) (h : CallsOthers e.nodes) :
    (condition e).Shifts top Expr.shifted (condition e.shifted) := by
  refine .inside (expr_shifts e false h) (fun _ => rfl) fun e' i => ?_
  exact .step id rfl (demand_shifts e) fun _ => .done rfl

end InPlace

/-! ## Statements and programs -/

/-- The function around is shifted in the context, and its signature is the same. -/
theorem enclosingFunction_shifts {top : Bool} {node : NodeId} {span : Span} :
    (enclosingFunction node span).Shifts top (Prod.map FunctionId.shifted id)
      (enclosingFunction node span) := by
  refine .look fun r c => ?_
  obtain ⟨scope, function, loops⟩ := c
  cases function with
  | none => rfl
  | some function =>
    show (entry (r.shifted.function? function.shifted) >>= _) = Except.map _ (entry _ >>= _)
    rw [Registry.function?_shifted]
    cases r.function? function <;> rfl

/-- The loops around are the same in both contexts. -/
theorem innermostLoop_shifts {top : Bool} {keyword : String} {node : NodeId} {span : Span} :
    (innermostLoop keyword node span).Shifts top id (innermostLoop keyword node span) := by
  refine .look fun r c => ?_
  obtain ⟨scope, function, loops⟩ := c
  cases loops <;> rfl

/-- A function is declared behind the built-in ones, with none of their names. -/
theorem declareFunction_shifts {top : Bool} {f : FuncDef}
    (h : f.name ∉ Registry.builtinNames) :
    (declareFunction f).Shifts top FunctionId.shifted (declareFunction f.shifted) := by
  refine .declare (fun s _ => Registry.newFunction_shifted h) fun r c b r' hr => ?_
  obtain ⟨_, _, _, rfl⟩ := Registry.newFunction_ok.mp hr
  exact ⟨rfl, rfl⟩

namespace InPlace

mutual

theorem stmt_shifts : ∀ t : Stmt, CallsOthers t.nodes →
    (stmt t).Shifts false Stmt.shifted (stmt t.shifted)
  | ⟨_, .assign target value, _, _⟩, h => by
    rw [Stmt.nodes, StmtKind.nodes, callsOthers_append, callsOthers_append] at h
    obtain ⟨⟨htarget, hvalue⟩, _⟩ := h
    refine .inside (lvalue_shifts target htarget) (fun _ => rfl) fun target' ty => ?_
    refine .step id rfl ?_ fun _ => ?_
    · rw [LValue.assignable_shifted, LValue.name_shifted, LValue.id_shifted, LValue.span_shifted]
      exact .ite .same .pure
    refine .inside (expr_shifts value false hvalue) (fun _ => rfl) fun value' i => ?_
    exact .step id rfl (demand_shifts value) fun _ => .done rfl
  | ⟨_, .expr none, _, _⟩, _ => .done rfl
  | ⟨_, .expr (some value), _, _⟩, h => by
    rw [Stmt.nodes, StmtKind.nodes, callsOthers_append] at h
    exact .inside (expr_shifts value false h.1) (fun _ => rfl) fun value' i => .done rfl
  | ⟨_, .block b, _, _⟩, h => by
    rw [Stmt.nodes, StmtKind.nodes, callsOthers_append] at h
    refine .inside (block_shifts b h.1) (fun _ => rfl) fun b' _ => .done ?_
    -- the flag of the block is copied to the statement
    rw [Block.hasReturn_shifted]
    rfl
  | ⟨_, .cond test thenBranch none, _, _⟩, h => by
    rw [Stmt.nodes, StmtKind.nodes, callsOthers_append, callsOthers_append] at h
    obtain ⟨⟨htest, hthen⟩, _⟩ := h
    refine .inside (condition_shifts test htest) (fun _ => rfl) fun test' _ => ?_
    exact .inside (stmt_shifts thenBranch hthen) (fun _ => rfl) fun thenBranch' _ => .done rfl
  | ⟨_, .cond test thenBranch (some elseBranch), _, _⟩, h => by
    rw [Stmt.nodes, StmtKind.nodes, callsOthers_append, callsOthers_append,
      callsOthers_append] at h
    obtain ⟨⟨htest, hthen, helse⟩, _⟩ := h
    refine .inside (condition_shifts test htest) (fun _ => rfl) fun test' _ => ?_
    refine .inside (stmt_shifts thenBranch hthen) (fun _ => rfl) fun thenBranch' _ => ?_
    refine .inside (stmt_shifts elseBranch helse) (fun _ => rfl) fun elseBranch' _ => .done ?_
    -- the statement returns if both branches do
    rw [Stmt.hasReturn_shifted, Stmt.hasReturn_shifted]
    rfl
  | ⟨_, .loop test body, _, _⟩, h => by
    rw [Stmt.nodes, StmtKind.nodes, callsOthers_append, callsOthers_append] at h
    obtain ⟨⟨htest, hbody⟩, _⟩ := h
    refine .inside (condition_shifts test htest) (fun _ => rfl) fun test' _ => ?_
    exact .inside (.inLoop _ (stmt_shifts body hbody)) (fun _ => rfl) fun body' _ => .done rfl
  | ⟨_, .leave _, _, _⟩, _ => by
    exact .step id rfl innermostLoop_shifts fun loop => .done rfl
  | ⟨_, .next _, _, _⟩, _ => by
    exact .step id rfl innermostLoop_shifts fun loop => .done rfl
  | ⟨_, .ret none _, _, _⟩, _ => by
    refine .step _ rfl enclosingFunction_shifts fun function => ?_
    exact .step id rfl (.ite .pure .same) fun _ => .done rfl
  | ⟨_, .ret (some e) _, _, _⟩, h => by
    rw [Stmt.nodes, StmtKind.nodes, callsOthers_append] at h
    refine .step _ rfl enclosingFunction_shifts fun function => ?_
    refine .inside (expr_shifts e false h.1) (fun _ => rfl) fun e' i => ?_
    exact .step id rfl (demand_shifts e) fun _ => .done rfl

theorem block_shifts : ∀ b : Block, CallsOthers b.nodes →
    (block b).Shifts false Block.shifted (block b.shifted)
  | ⟨_, items, _, _, _⟩, h => by
    rw [Block.nodes, callsOthers_append] at h
    exact .inScope rfl (blockItems_shifts items h.1) (fun _ => rfl) fun scope items' _ => .done rfl

theorem blockItems_shifts : ∀ items : List BlockItem, CallsOthers (BlockItem.allNodes items) →
    (blockItems items).Shifts false BlockItem.allShifted (blockItems (BlockItem.allShifted items))
  | [], _ => .done rfl
  | .decl d :: rest, h => by
    rw [BlockItem.allNodes, callsOthers_append] at h
    have hdecl : (decl d).Shifts false Decl.shifted (decl d.shifted) :=
      decl_shifts d h.1 fun htop => by cases htop
    refine .inside hdecl (fun _ => rfl) fun d' _ => ?_
    exact .inside (blockItems_shifts rest h.2) (fun _ => rfl) fun rest' _ => .done rfl
  | .stmt t :: rest, h => by
    rw [BlockItem.allNodes, callsOthers_append] at h
    refine .inside (stmt_shifts t h.1) (fun _ => rfl) fun t' _ => ?_
    refine .inside (blockItems_shifts rest h.2) (fun _ => rfl) fun rest' _ => ?_
    rw [Stmt.hasReturn_shifted]
    exact .done rfl

end

/-- A function is declared first; its parameters and its body are checked in a scope of their
own and inside of it. -/
theorem funcDef_shifts (f : FuncDef) (h : CallsOthers f.body.nodes)
    (hname : f.name ∉ Registry.builtinNames) :
    (funcDef f).Shifts true FuncDef.shifted (funcDef f.shifted) := by
  have hparts : (funcParts f).Shifts false FuncDef.shifted (funcParts f.shifted) := by
    refine .step _ rfl (declareFunction_shifts hname) fun function => .inFunction function ?_
    -- nothing is noted down on a parameter, so shifting leaves it as it is
    have hparams : (each (param function) f.params).Shifts false id
        (each (param function.shifted) f.params) := by
      have heach : (each (param function) f.params).Shifts false (List.map id)
          (each (param function.shifted) (f.params.map id)) :=
        .each fun p _ => param_shifts function p
      rw [List.map_id, List.map_id_fun] at heach
      exact heach
    refine .inside hparams (fun _ => rfl) fun params' _ => ?_
    exact .inside (block_shifts f.body h) (fun _ => rfl) fun body' _ => .done rfl
  exact .inScope rfl hparts (fun _ => rfl) fun scope f' _ => .done rfl

theorem item_shifts : ∀ i : Item, CallsOthers i.nodes →
    (∀ name ∈ i.names, name ∉ Registry.builtinNames) →
    (item i).Shifts true Item.shifted (item i.shifted)
  | .decl d, h, hnames => by
    have hdecl : (decl d).Shifts true Decl.shifted (decl d.shifted) :=
      decl_shifts d h fun _ v hv => hnames v.name (List.mem_map_of_mem hv)
    exact .inside hdecl (fun _ => rfl) fun d' _ => .done rfl
  | .func f, h, hnames => by
    have hbody : CallsOthers f.body.nodes :=
      (callsOthers_append.mp (callsOthers_append.mp h).2).1
    have hfunc := funcDef_shifts f hbody (hnames f.name List.mem_cons_self)
    exact .inside hfunc (fun _ => rfl) fun f' _ => .done rfl

/-- The two passes over a program that asks for no name of a built-in function. -/
theorem program_shifts (p : Program) (h : ∀ name ∈ p.queriedNames, name ∉ Registry.builtinNames) :
    (program p).Shifts true Program.shifted (program p.shifted) := by
  obtain ⟨hcalls, hnames⟩ := List.forall_mem_append.mp h
  refine .inside (.each fun i hi => item_shifts i ?_ ?_) (fun _ => rfl) fun items' _ => .done rfl
  · intro n hn callee hcallee
    exact hcalls callee (List.mem_filterMap.mpr ⟨n, List.mem_flatMap_of_mem hi hn, hcallee⟩)
  · intro name hname
    exact hnames name (List.mem_flatMap_of_mem hi hname)

end InPlace

/-- The registry that a run starts from has the built-in functions and nothing else in front. -/
theorem start_shifted : start true = (start false).shifted := by
  decide +kernel

/-- A run starts at the top, in the global scope. -/
theorem start_rooted : (start false).Rooted true :=
  ⟨rfl, Nat.one_pos, fun htop => by cases htop⟩

/-- The two runs over a whole program, on a tree with or without annotations. -/
theorem annotate_of_shifted {p : Program}
    (h : ∀ name ∈ p.queriedNames, name ∉ Registry.builtinNames) :
    annotate true p.shifted = ((annotate false p).1.shifted, (annotate false p).2.1,
      (annotate false p).2.2.shifted) := by
  have hinitial : ∀ withBuiltins, initial withBuiltins =
      ((initial withBuiltins).1, .ok (), (initial withBuiltins).2.2) :=
    fun withBuiltins => Prod.ext rfl (Prod.ext (initial_ok withBuiltins) rfl)
  -- the built-in functions can always be declared, so both runs get to the program
  obtain ⟨hrun, _⟩ := InPlace.program_shifts p h (start false) start_rooted
  rw [← start_shifted] at hrun
  unfold annotate
  rw [hinitial true, hinitial false]
  dsimp only
  rw [show InPlace.program p.shifted ⟨(initial true).2.2, _⟩ = _ from hrun,
    show InPlace.program p ⟨(initial false).2.2, { scope := (initial false).1 }⟩ =
      InPlace.program p (start false) from rfl]
  rcases InPlace.program p (start false) with ⟨q, ⟨⟩ | failure⟩ <;> rfl

/-- **The built-in functions show through their names only.** Let a program be read in which
none of their names is called, defined as a function or declared as a global variable; a local
variable or a parameter may have one. Then with and without the built-in functions it is
checked with the same failure or none. The scopes and the variables in the registry are the
same, its functions and their names are those without them behind the built-in ones, and in the
tree, also in one that a failure left unfinished, every function that was noted down is shifted.
A shifted handle is seven further. -/
theorem annotate_shifted {tokens : List Token} {file : String} {p : Program} {c : Cursor}
    (hparse : parse tokens file = .ok p c)
    (hnames : ∀ name ∈ p.queriedNames, name ∉ Registry.builtinNames) :
    annotate true p = ((annotate false p).1.shifted, (annotate false p).2.1,
      (annotate false p).2.2.shifted) ∧
    typeCheck true p = ((typeCheck false p).1.map Program.shifted,
      (typeCheck false p).2.shifted) ∧
    ∀ f : FunctionId, f.shifted.index = f.index + 7 := by
  have hruns := annotate_of_shifted hnames
  rw [parse_shifted hparse] at hruns
  refine ⟨hruns, ?_, FunctionId.index_shifted⟩
  rw [typeCheck_eq_annotate, typeCheck_eq_annotate, hruns]
  cases (annotate false p).2.1 <;> rfl

/-- Names of built-in functions for a parameter and a variable; the last call fails:

```
int twice(int get_int) { int print_int = 2; return print_int * get_int; }
int main() { return twice(1) + twice(true); }
```
-/
def localNamesSource : String :=
  "int twice(int get_int) \x7b int print_int = 2; return print_int * get_int; \x7d " ++
  "int main() \x7b return twice(1) + twice(true); \x7d"

theorem annotate_shifted_localNamesSource :
    ∃ tokens p c, parse tokens "shell" = .ok p c ∧
      p.queriedNames = ["twice", "twice", "twice", "main"] ∧
      annotate true p = ((annotate false p).1.shifted, (annotate false p).2.1,
        (annotate false p).2.2.shifted) ∧
      typeCheck true p = ((typeCheck false p).1.map Program.shifted,
        (typeCheck false p).2.shifted) ∧
      ∀ f : FunctionId, f.shifted.index = f.index + 7 := by
  have hqueried : (readSource? localNamesSource).map Program.queriedNames =
      some ["twice", "twice", "twice", "main"] := by
    decide +kernel
  obtain ⟨p, hp, hnames⟩ := Option.map_eq_some_iff.mp hqueried
  obtain ⟨tokens, c, _, hparse⟩ := exists_of_readSource? hp
  refine ⟨tokens, p, c, hparse, hnames, annotate_shifted hparse ?_⟩
  rw [hnames]
  decide

end Typing

end CactLang
