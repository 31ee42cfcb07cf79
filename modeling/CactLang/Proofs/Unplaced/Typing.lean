import CactLang.Proofs.InPlace.Annotate
import CactLang.Proofs.Unplaced.Reading

/-!
# Type checking does not look at positions

The spans of nodes are put on diagnostics, and nothing is decided by them. So checking a tree
without positions leaves the same registry and the same annotations, and ends in the same way,
with the same failure but for its position.

This is said of the check in place, which leaves a tree even if it fails, with the annotations
made up to then. Two passes are run side by side, one of them over a tree without spans, and
they agree step by step on what they leave.

> `annotate_unplaced`: what is left of `p.unplaced`, after a failure too, is what is left of
> `p`, unplaced.
>
> `typeCheck_unplaced`: the outcome for `p.unplaced` is that for `p`, unplaced.
-/

namespace CactLang

namespace Typing

variable {α β α' β' : Type}

/-! ## Outcomes -/

/-- The outcome without positions. -/
def forgetting (value : α → α') : Except Failure α → Except Failure α'
  | .ok a => .ok (value a)
  | .error e => .error e.unplaced

/-- The second outcome is the first one without positions. -/
def Agrees (value : α → α') (x : Except Failure α) (x' : Except Failure α') : Prop :=
  x' = forgetting value x

namespace Agrees

variable {value : α → α'} {value' : β → β'}

theorem pure {a : α} {a' : α'} (h : a' = value a) :
    Agrees value (Pure.pure a) (Pure.pure a') := by
  rw [h]
  rfl

/-- The second part agrees on whatever the first one gives. -/
theorem bind {x : Except Failure α} {x' : Except Failure α'} {f : α → Except Failure β}
    {f' : α' → Except Failure β'} (hx : Agrees value x x')
    (hf : ∀ a, Agrees value' (f a) (f' (value a))) : Agrees value' (x >>= f) (x' >>= f') := by
  rw [show x' = forgetting value x from hx]
  cases x with
  | ok a => exact hf a
  | error e => rfl

/-- What is decided is not a matter of positions. -/
theorem ite {p p' : Prop} [Decidable p] [Decidable p'] {x y : Except Failure α}
    {x' y' : Except Failure α'} (hp : p' ↔ p) (hx : Agrees value x x') (hy : Agrees value y y') :
    Agrees value (if p then x else y) (if p' then x' else y') := by
  by_cases h : p
  · rw [if_pos h, if_pos (hp.mpr h)]
    exact hx
  · rw [if_neg h, if_neg (mt hp.mp h)]
    exact hy

/-- A rejection keeps its cause and its node. -/
theorem reject {cause : Cause} {id : NodeId} {span : Span} :
    Agrees value (Typing.reject cause id span) (Typing.reject cause id default) :=
  rfl

/-- A cause is placed at the node, whose span is forgotten. -/
theorem locate {id : NodeId} {span : Span} (x : Except Cause α) :
    Agrees (fun a => a) (Typing.locate id span x) (Typing.locate id default x) := by
  cases x <;> rfl

/-- A refusal is placed at the node, whose span is forgotten. -/
theorem locateRefusal {id : NodeId} {span : Span} (x : Except Registry.Refusal α) :
    Agrees (fun a => a) (Typing.locateRefusal id span x) (Typing.locateRefusal id default x) := by
  cases x with
  | ok a => rfl
  | error refusal => cases refusal <;> rfl

theorem entry (a : Option α) : Agrees (fun a => a) (Typing.entry a) (Typing.entry a) := by
  cases a <;> rfl

end Agrees

/-! ## Questions

What a check finds out at one node, from the registry and the node alone. -/

/-- The variable that a name stands for is found whatever the spans are. -/
theorem variableOf_agrees {r : Registry} {scope : ScopeId} (l : LValue) :
    Agrees (fun found => found) (variableOf r scope l) (variableOf r scope l.unplaced) := by
  obtain ⟨id, name, indices, span, symbol, assignable⟩ := l
  have hlength : (Expr.allUnplaced indices).length = indices.length := by
    rw [Expr.allUnplaced_eq_map, List.length_map]
  unfold variableOf
  rw [LValue.unplaced]
  dsimp only
  rw [hlength]
  refine .bind (.locateRefusal _) fun symbolId => ?_
  refine .bind (.entry _) fun entry => ?_
  exact .ite Iff.rfl .reject (.pure rfl)

/-- The function that is called is found whatever the spans are, and the same number of
arguments is too many or too few. -/
theorem functionOf_agrees {r : Registry} {id : NodeId} {span : Span} {callee : String}
    (arguments : List Expr) :
    Agrees (fun found => found) (functionOf r id span callee arguments)
      (functionOf r id default callee (Expr.allUnplaced arguments)) := by
  unfold functionOf
  refine .bind (.locateRefusal _) fun function => ?_
  refine .bind (.entry _) fun signature => ?_
  dsimp only
  rw [Expr.allUnplaced_eq_map, List.length_map, ← List.map_drop]
  -- the same arguments are left over, and the first of them is blamed
  cases arguments.drop signature.parameters.length with
  | cons extra rest =>
    show Agrees _ _ (reject _ extra.unplaced.id extra.unplaced.span)
    rw [Expr.id_unplaced, Expr.span_unplaced]
    exact .reject
  | nil => exact .ite Iff.rfl .reject (.pure rfl)

/-- Whether initial values are a list is not a matter of positions. -/
@[simp] theorem isScalar_unplaced (x : Initializer) : x.unplaced.isScalar = x.isScalar := by
  cases x <;> rfl

/-- How deep the items of a list stand depends on their number and their shape. -/
theorem itemDepth_unplaced (target : Ty) (depth extent : Nat) (items : List Initializer) :
    itemDepth target depth extent (Initializer.allUnplaced items) =
      itemDepth target depth extent items := by
  have hall : (Initializer.allUnplaced items).all Initializer.isScalar =
      items.all Initializer.isScalar := by
    simp [Initializer.allUnplaced_eq_map, Function.comp_def]
  unfold itemDepth
  rw [hall, Initializer.allUnplaced_eq_map, List.length_map]

/-- A dimension is checked by its text. -/
theorem checkDimension_unplaced (id : NodeId) (dim : Dimension) :
    checkDimension id dim.unplaced = (checkDimension id dim).mapError Diagnostic.unplaced := by
  have hextent : extent? dim.unplaced = extent? dim := rfl
  unfold checkDimension
  rw [hextent]
  cases extent? dim <;> rfl

/-- The first dimension that fails is the same. -/
theorem checkDimensions_unplaced (id : NodeId) (dims : List Dimension) :
    checkDimensions id (dims.map Dimension.unplaced) =
      (checkDimensions id dims).mapError Diagnostic.unplaced := by
  induction dims with
  | nil => rfl
  | cons dim dims ih =>
    rw [List.map_cons, checkDimensions, checkDimensions, ih, checkDimension_unplaced]
    cases checkDimension id dim with
    | error d => rfl
    | ok extent => cases checkDimensions id dims <;> rfl

/-- A bad dimension is blamed where it stands, which is the one position that is not taken from
the node. -/
theorem typeOf_agrees (basic : BasicType) (dims : List Dimension) (isOpen : Bool) (id : NodeId) :
    Agrees (fun ty => ty) (typeOf basic dims isOpen id)
      (typeOf basic (dims.map Dimension.unplaced) isOpen id) := by
  unfold Agrees typeOf declaredType
  rw [checkDimensions_unplaced]
  cases checkDimensions id dims <;> rfl

/-! ## Single checks -/

/-- Without positions, `m'` checks what `m` checks. -/
abbrev Check.Forgets (value : α → α') (m : Check α) (m' : Check α') : Prop :=
  Echoes Failure.unplaced (fun s => s) value m m'

open Check (Forgets)

section

variable {value : α → α'}

/-- A look that agrees for every registry. -/
theorem look_forgets {f : Registry → Context → Except Failure α}
    {f' : Registry → Context → Except Failure α'}
    (h : ∀ r context, Agrees value (f r context) (f' r context)) :
    Forgets value (.look f) (.look f') := by
  intro s
  unfold Check.look
  rw [show f' s.registry s.context = _ from h s.registry s.context]
  cases f s.registry s.context <;> rfl

/-- A declaration that agrees leaves the same registry. -/
theorem declare_forgets {f : Registry → Context → Except Failure (α × Registry)}
    {f' : Registry → Context → Except Failure (α' × Registry)}
    (h : ∀ r context, Agrees (Prod.map value id) (f r context) (f' r context)) :
    Forgets value (.declare f) (.declare f') := by
  intro s
  unfold Check.declare
  rw [show f' s.registry s.context = _ from h s.registry s.context]
  cases f s.registry s.context <;> rfl

theorem refuse_forgets {cause : Cause} {id : NodeId} {span : Span} :
    Forgets value (refuse cause id span) (refuse cause id default) :=
  look_forgets fun _ _ => .reject

end

/-- The registry refuses a change whatever the span of the node is that asks for it. -/
theorem declare_located {f : Registry → Context → Except Registry.Refusal (α × Registry)}
    {id : NodeId} {span : Span} :
    Forgets (fun a => a) (.declare fun r context => locateRefusal id span (f r context))
      (.declare fun r context => locateRefusal id default (f r context)) :=
  declare_forgets fun _ _ => .locateRefusal _

/-- A name is bound, or refused at a node whose span is forgotten. -/
theorem bindName_forgets (id : NodeId) (span : Span) (name : String) (symbol : Symbol) :
    Forgets (fun v => v) (bindName id span name symbol) (bindName id default name symbol) :=
  declare_located

/-- What is demanded of an expression is demanded of it without spans. -/
theorem demand_forgets {p : Prop} [Decidable p] {cause : Cause} (e : Expr) :
    Forgets (fun u => u) (if p then pure () else refuse cause e.id e.span)
      (if p then pure () else refuse cause e.unplaced.id e.unplaced.span) := by
  rw [Expr.id_unplaced, Expr.span_unplaced]
  exact .ite Iff.rfl (.pure rfl) refuse_forgets

/-- The loop that a jump goes to is found in the context. -/
theorem innermostLoop_forgets (keyword : String) (id : NodeId) (span : Span) :
    Forgets (fun loop => loop) (innermostLoop keyword id span)
      (innermostLoop keyword id default) := by
  refine look_forgets fun _ context => ?_
  cases context.loops with
  | nil => exact .reject
  | cons loop loops => exact .pure rfl

/-- The function that a return leaves is found in the context. -/
theorem enclosingFunction_forgets (id : NodeId) (span : Span) :
    Forgets (fun f => f) (enclosingFunction id span) (enclosingFunction id default) := by
  refine look_forgets fun r context => ?_
  cases context.function with
  | none => exact .reject
  | some function => exact .bind (.entry _) fun _ => .pure rfl

/-! ## Two passes side by side -/

/-- Without positions, `pass'` does what `pass` does and leaves the part without spans. -/
def InPlace.Forgets {τ : Type} (part : τ → τ) (pass pass' : InPlace τ α) : Prop :=
  ∀ s, pass' s = (pass s).map part (mapResult Failure.unplaced (fun s => s) fun a => a)

namespace InPlace.Forgets

variable {σ τ : Type} {f : τ → τ} {g : σ → σ} {part part' : τ}

theorem done {a : α} (h : part' = f part) : (done part a).Forgets f (done part' a) := by
  intro s
  rw [h]
  rfl

/-- A check that fails leaves the part as it was, in both passes. -/
theorem step {check check' : Check β} {next next' : β → InPlace τ α} (h : part' = f part)
    (hcheck : Check.Forgets (fun b => b) check check')
    (hnext : ∀ b, (next b).Forgets f (next' b)) :
    (step part check next).Forgets f (step part' check' next') := by
  intro s
  unfold InPlace.step
  rw [show check' s = _ from hcheck s, h]
  cases check s with
  | ok b s' => exact hnext b s'
  | error e s' => rfl

/-- What a smaller pass leaves is put back into the part, also where it fails. -/
theorem inside {smaller smaller' : InPlace σ β} {put put' : σ → τ}
    {next next' : σ → β → InPlace τ α} (hsmaller : smaller.Forgets g smaller')
    (hput : ∀ x, put' (g x) = f (put x))
    (hnext : ∀ x b, (next x b).Forgets f (next' (g x) b)) :
    (inside smaller put next).Forgets f (inside smaller' put' next') := by
  intro s
  unfold InPlace.inside
  rw [hsmaller s]
  rcases smaller s with ⟨x, ⟨b, s'⟩ | ⟨e, s'⟩⟩
  · exact hnext x b s'
  · exact congrArg (Prod.mk · _) (hput x)

/-- A part is checked in the same context. -/
theorem within {enter : Context → Context} {leave : Context → Context → Context}
    {pass pass' : InPlace τ α} (h : pass.Forgets f pass') :
    (within enter leave pass).Forgets f (within enter leave pass') := by
  intro s
  unfold InPlace.within
  rw [h { s with context := enter s.context }]
  rcases pass { s with context := enter s.context } with ⟨x, ⟨b, s'⟩ | ⟨e, s'⟩⟩ <;> rfl

/-- The scope of a part is the next one, with or without positions. -/
theorem inScope {smaller smaller' : InPlace σ β} {put put' : σ → τ}
    {next next' : ScopeId → σ → β → InPlace τ α} (h : part' = f part)
    (hsmaller : smaller.Forgets g smaller') (hput : ∀ x, put' (g x) = f (put x))
    (hnext : ∀ scope x b, (next scope x b).Forgets f (next' scope (g x) b)) :
    (inScope part smaller put next).Forgets f (inScope part' smaller' put' next') := by
  refine step h (declare_forgets fun _ _ => rfl) fun scope => ?_
  exact inside (within hsmaller) hput (hnext scope)

/-- A list is checked part by part. -/
theorem each {pass pass' : τ → InPlace τ Unit} (h : ∀ x, (pass x).Forgets f (pass' (f x)))
    (xs : List τ) : (each pass xs).Forgets (List.map f) (each pass' (xs.map f)) := by
  induction xs with
  | nil => exact done rfl
  | cons x xs ih =>
    refine inside (h x) (fun _ => rfl) fun x' _ => ?_
    exact inside ih (fun _ => rfl) fun xs' _ => done rfl

end InPlace.Forgets

/-! ## Expressions -/

namespace InPlace

/-- What is noted down on an expression is noted down on it without spans. -/
theorem note_forgets {e e' : Expr} {found found' : Except Failure ExprInfo} (he : e' = e.unplaced)
    (h : Agrees (fun info => info) found found') :
    (note e found).Forgets Expr.unplaced (note e' found') := by
  rw [he]
  refine .step rfl (look_forgets fun _ _ => h) fun info => .done ?_
  obtain ⟨id, kind, span, _⟩ := e
  cases kind <;> rfl

-- The passes are mutually recursive over the tree; a span is met only where a check can fail.
mutual

/-- Checking an expression in place does not look at positions. -/
theorem expr_forgets : ∀ (e : Expr) (negated : Bool),
    (expr negated e).Forgets Expr.unplaced (expr negated e.unplaced)
  | ⟨_, .number _ _, _, _⟩, _ => note_forgets rfl (.ite Iff.rfl rfl .reject)
  | ⟨_, .bool _, _, _⟩, _ => note_forgets rfl rfl
  | ⟨_, .lvalue l, _, _⟩, _ => by
    refine .inside (lvalue_forgets l) (fun _ => rfl) fun l' ty => note_forgets rfl ?_
    rw [LValue.assignable_unplaced]
    rfl
  | ⟨_, .paren inner, _, _⟩, _ => by
    refine .inside (expr_forgets inner false) (fun _ => rfl) fun inner' i => ?_
    exact note_forgets rfl (.bind (.locate _) fun _ => .pure rfl)
  | ⟨_, .unary _ operand, _, _⟩, _ => by
    refine .inside (expr_forgets operand _) (fun _ => rfl) fun operand' i => ?_
    exact note_forgets rfl (.bind (.locate _) fun _ => .pure rfl)
  | ⟨_, .binary _ left right, _, _⟩, _ => by
    refine .inside (expr_forgets left false) (fun _ => rfl) fun left' i => ?_
    refine .inside (expr_forgets right false) (fun _ => rfl) fun right' j => ?_
    exact note_forgets rfl (.bind (.locate _) fun _ => .pure rfl)
  | ⟨_, .call callee es _, _, _⟩, _ => by
    refine .step rfl (look_forgets fun _ _ => functionOf_agrees es) fun found => ?_
    refine .inside (arguments_forgets callee es found.2.parameters 0) (fun _ => rfl) fun es' _ => ?_
    exact note_forgets rfl rfl
  termination_by structural e => e

/-- A variable is found by its name. -/
theorem lvalue_forgets : ∀ l : LValue,
    (lvalue l).Forgets LValue.unplaced (lvalue l.unplaced)
  | ⟨id, name, es, span, symbol, assignable⟩ => by
    have hlength : (Expr.allUnplaced es).length = es.length := by
      rw [Expr.allUnplaced_eq_map, List.length_map]
    rw [LValue.unplaced, lvalue, lvalue, hlength]
    refine .step rfl (look_forgets fun _ _ =>
      variableOf_agrees ⟨id, name, es, span, symbol, assignable⟩) fun found => ?_
    exact .inside (indices_forgets es) (fun _ => rfl) fun es' _ => .done rfl
  termination_by structural l => l

theorem indices_forgets : ∀ es : List Expr,
    (indices es).Forgets Expr.allUnplaced (indices (Expr.allUnplaced es))
  | [] => .done rfl
  | e :: es => by
    refine .inside (expr_forgets e false) (fun _ => rfl) fun e' i => ?_
    refine .step rfl (demand_forgets e) fun _ => ?_
    exact .inside (indices_forgets es) (fun _ => rfl) fun es' _ => .done rfl
  termination_by structural es => es

/-- Arguments are held against the same parameters. -/
theorem arguments_forgets (callee : String) : ∀ (es : List Expr) (ps : List Parameter)
    (index : Nat), (arguments callee index ps es).Forgets Expr.allUnplaced
      (arguments callee index ps (Expr.allUnplaced es))
  | [], ps, _ => by
    cases ps <;> exact .done rfl
  | _ :: _, [], _ => .done rfl
  | e :: es, _ :: ps, _ => by
    refine .inside (expr_forgets e false) (fun _ => rfl) fun e' i => ?_
    refine .step rfl (demand_forgets e) fun _ => ?_
    exact .inside (arguments_forgets callee es ps _) (fun _ => rfl) fun es' _ => .done rfl
  termination_by structural es => es

end

/-! ## Declarations -/

mutual

/-- Checking initial values in place does not look at positions. -/
theorem initializer_forgets (target : Ty) : ∀ (x : Initializer) (depth : Nat),
    (initializer target depth x).Forgets Initializer.unplaced
      (initializer target depth x.unplaced)
  | .scalar _ value _, _ => by
    refine .step rfl (.ite Iff.rfl refuse_forgets (.pure rfl)) fun _ => ?_
    refine .inside (expr_forgets value false) (fun _ => rfl) fun value' info => ?_
    refine .step rfl ?_ fun _ => .done rfl
    -- a value of another type, or one that is not constant, is blamed itself
    rw [Expr.id_unplaced, Expr.span_unplaced]
    exact .ite Iff.rfl refuse_forgets (.ite Iff.rfl refuse_forgets (.pure rfl))
  | .list _ items _, depth => by
    rw [Initializer.unplaced, initializer, initializer]
    refine .step rfl (look_forgets fun _ _ => ?_) fun inner =>
      .inside (initializers_forgets target items inner) (fun _ => rfl) fun items' _ => .done rfl
    cases target.dims[depth]? with
    | none => exact .reject
    | some extent =>
      dsimp only
      rw [itemDepth_unplaced]
      exact .locate _

theorem initializers_forgets (target : Ty) : ∀ (xs : List Initializer) (depth : Nat),
    (initializers target depth xs).Forgets Initializer.allUnplaced
      (initializers target depth (Initializer.allUnplaced xs))
  | [], _ => .done rfl
  | x :: xs, depth => by
    refine .inside (initializer_forgets target x depth) (fun _ => rfl) fun x' _ => ?_
    exact .inside (initializers_forgets target xs depth) (fun _ => rfl) fun xs' _ => .done rfl

end

/-- Checking a definition in place does not look at positions. -/
theorem varDef_forgets (isConstant : Bool) (basic : BasicType) (d : VarDef) :
    (varDef isConstant basic d).Forgets VarDef.unplaced (varDef isConstant basic d.unplaced) := by
  obtain ⟨id, name, dims, init, span, symbol⟩ := d
  refine .step rfl (look_forgets fun _ _ => typeOf_agrees basic dims false id) fun ty => ?_
  cases init with
  | none => exact .step rfl (bindName_forgets id span name _) fun _ => .done rfl
  | some init =>
    refine .inside (initializer_forgets ty init 0) (fun _ => rfl) fun init' _ => ?_
    exact .step rfl (bindName_forgets id span name _) fun _ => .done rfl

theorem decl_forgets (d : Decl) : (decl d).Forgets Decl.unplaced (decl d.unplaced) :=
  .inside (.each (varDef_forgets d.isConstant d.basic) d.defs) (fun _ => rfl) fun _ _ => .done rfl

theorem param_forgets (function : FunctionId) (p : Param) :
    (param function p).Forgets Param.unplaced (param function p.unplaced) := by
  refine .step rfl (look_forgets fun _ _ => typeOf_agrees p.basic p.dims p.isOpen p.id) fun ty => ?_
  refine .step rfl declare_located fun _ => ?_
  exact .step rfl (bindName_forgets p.id p.span p.name _) fun symbol => .done rfl

/-! ## Statements and programs -/

theorem condition_forgets (e : Expr) :
    (condition e).Forgets Expr.unplaced (condition e.unplaced) := by
  refine .inside (expr_forgets e false) (fun _ => rfl) fun e' info => ?_
  exact .step rfl (demand_forgets e) fun _ => .done rfl

mutual

/-- Checking a statement in place does not look at positions, form by form. -/
theorem stmt_forgets : ∀ t : Stmt, (stmt t).Forgets Stmt.unplaced (stmt t.unplaced)
  | ⟨_, .assign target value, _, _⟩ => by
    refine .inside (lvalue_forgets target) (fun _ => rfl) fun target' ty => ?_
    refine .step rfl ?_ fun _ => ?_
    · -- a constant is refused where its name stands
      rw [LValue.assignable_unplaced]
      cases target
      exact .ite Iff.rfl refuse_forgets (.pure rfl)
    · refine .inside (expr_forgets value false) (fun _ => rfl) fun value' info => ?_
      exact .step rfl (demand_forgets value) fun _ => .done rfl
  | ⟨_, .expr none, _, _⟩ => .done rfl
  | ⟨_, .expr (some value), _, _⟩ =>
    .inside (expr_forgets value false) (fun _ => rfl) fun _ _ => .done rfl
  | ⟨_, .block b, _, _⟩ => by
    refine .inside (block_forgets b) (fun _ => rfl) fun b' _ => .done ?_
    cases b'
    rfl
  | ⟨_, .cond test thenBranch none, _, _⟩ => by
    refine .inside (condition_forgets test) (fun _ => rfl) fun test' _ => ?_
    exact .inside (stmt_forgets thenBranch) (fun _ => rfl) fun thenBranch' _ => .done rfl
  | ⟨_, .cond test thenBranch (some elseBranch), _, _⟩ => by
    refine .inside (condition_forgets test) (fun _ => rfl) fun test' _ => ?_
    refine .inside (stmt_forgets thenBranch) (fun _ => rfl) fun thenBranch' _ => ?_
    refine .inside (stmt_forgets elseBranch) (fun _ => rfl) fun elseBranch' _ => .done ?_
    cases thenBranch'
    cases elseBranch'
    rfl
  | ⟨_, .loop test body, _, _⟩ => by
    refine .inside (condition_forgets test) (fun _ => rfl) fun test' _ => ?_
    exact .inside (.within (stmt_forgets body)) (fun _ => rfl) fun body' _ => .done rfl
  | ⟨_, .leave _, _, _⟩ => .step rfl (innermostLoop_forgets _ _ _) fun _ => .done rfl
  | ⟨_, .next _, _, _⟩ => .step rfl (innermostLoop_forgets _ _ _) fun _ => .done rfl
  | ⟨_, .ret none _, _, _⟩ => by
    refine .step rfl (enclosingFunction_forgets _ _) fun found => ?_
    exact .step rfl (.ite Iff.rfl (.pure rfl) refuse_forgets) fun _ => .done rfl
  | ⟨_, .ret (some e) _, _, _⟩ => by
    refine .step rfl (enclosingFunction_forgets _ _) fun found => ?_
    refine .inside (expr_forgets e false) (fun _ => rfl) fun e' info => ?_
    exact .step rfl (demand_forgets e) fun _ => .done rfl

theorem block_forgets : ∀ b : Block, (block b).Forgets Block.unplaced (block b.unplaced)
  | ⟨_, items, _, _, _⟩ =>
    .inScope rfl (blockItems_forgets items) (fun _ => rfl) fun _ _ _ => .done rfl

theorem blockItems_forgets : ∀ items : List BlockItem,
    (blockItems items).Forgets BlockItem.allUnplaced (blockItems (BlockItem.allUnplaced items))
  | [] => .done rfl
  | .decl d :: rest => by
    refine .inside (decl_forgets d) (fun _ => rfl) fun d' _ => ?_
    exact .inside (blockItems_forgets rest) (fun _ => rfl) fun rest' _ => .done rfl
  | .stmt t :: rest => by
    refine .inside (stmt_forgets t) (fun _ => rfl) fun t' _ => ?_
    refine .inside (blockItems_forgets rest) (fun _ => rfl) fun rest' returns => ?_
    cases t'
    exact .done rfl

end

/-- Checking a function definition in place does not look at positions. -/
theorem funcDef_forgets (f : FuncDef) :
    (funcDef f).Forgets FuncDef.unplaced (funcDef f.unplaced) := by
  have hparts : (funcParts f).Forgets FuncDef.unplaced (funcParts f.unplaced) := by
    refine .step rfl declare_located fun function => .within ?_
    refine .inside (.each (param_forgets function) f.params) (fun _ => rfl) fun ps _ => ?_
    exact .inside (block_forgets f.body) (fun _ => rfl) fun body _ => .done rfl
  exact .inScope rfl hparts (fun _ => rfl) fun _ _ _ => .done rfl

theorem item_forgets : ∀ i : Item, (item i).Forgets Item.unplaced (item i.unplaced)
  | .decl d => .inside (decl_forgets d) (fun _ => rfl) fun _ _ => .done rfl
  | .func f => .inside (funcDef_forgets f) (fun _ => rfl) fun _ _ => .done rfl

/-- Checking a program in place does not look at positions. -/
theorem program_forgets (p : Program) :
    (program p).Forgets Program.unplaced (program p.unplaced) :=
  .inside (.each item_forgets p.items) (fun _ => rfl) fun _ _ => .done rfl

end InPlace

/-- Without positions, a program is left as it is with them, also where checking it fails. -/
theorem annotate_unplaced (withBuiltins : Bool) (p : Program) :
    annotate withBuiltins p.unplaced = ((annotate withBuiltins p).1.unplaced,
      forgetting (fun u => u) (annotate withBuiltins p).2.1, (annotate withBuiltins p).2.2) := by
  unfold annotate
  rcases initial withBuiltins with ⟨global, (refusal | _), r⟩
  · cases refusal <;> rfl
  · have hrun := InPlace.program_forgets p ⟨r, { scope := global }⟩
    dsimp only at hrun ⊢
    rw [hrun]
    rcases InPlace.program p ⟨r, { scope := global }⟩ with ⟨q, ⟨⟩ | failure⟩ <;> rfl

/-- Without positions, a program is checked as it is with them. -/
theorem typeCheck_unplaced (withBuiltins : Bool) (p : Program) :
    typeCheck withBuiltins p.unplaced =
      (forgetting Program.unplaced (typeCheck withBuiltins p).1, (typeCheck withBuiltins p).2) := by
  rw [typeCheck_eq_annotate, typeCheck_eq_annotate, annotate_unplaced]
  cases (annotate withBuiltins p).2.1 <;> rfl

end Typing

end CactLang
