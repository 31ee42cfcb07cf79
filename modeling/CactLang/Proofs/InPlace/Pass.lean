import CactLang.Typing.Statement

/-!
# Checking in place

`typeCheck` gives back a new tree, and none if it fails. Here is the same check as a pass that
notes down what it finds on the tree itself, node by node. Such a pass leaves a tree in any
case: after a failure, with the annotations made up to then.

A pass is put together from steps that leave the tree alone and from passes over smaller parts.
For each of these ways there is one lemma that says which check it is (`toCheck`), and one that
says what it leaves.
-/

namespace CactLang.Typing

/-- A pass over a part of a tree. The part is left in some form even if the pass fails. -/
def InPlace (τ α : Type) : Type :=
  State → τ × EStateM.Result Failure State α

namespace InPlace

variable {σ τ α β γ : Type}

/-- The part is done. -/
def done (part : τ) (a : α) : InPlace τ α :=
  fun s => (part, .ok a s)

/-- A step that leaves the part as it is, and then more. -/
def step (part : τ) (check : Check β) (next : β → InPlace τ α) : InPlace τ α := fun s =>
  match check s with
  | .ok b s' => next b s'
  | .error e s' => (part, .error e s')

/-- A pass over a smaller part, which `put` puts back, and then more. -/
def inside (smaller : InPlace σ β) (put : σ → τ) (next : σ → β → InPlace τ α) :
    InPlace τ α := fun s =>
  match smaller s with
  | (x, .ok b s') => next x b s'
  | (x, .error e s') => (put x, .error e s')

/-- A pass in a changed context. -/
def within (enter : Context → Context) (leave : Context → Context → Context)
    (pass : InPlace τ α) : InPlace τ α := fun s =>
  match pass { s with context := enter s.context } with
  | (part, .ok a s') => (part, .ok a { s' with context := leave s.context s'.context })
  | (part, .error e s') => (part, .error e { s' with context := leave s.context s'.context })

/-- A pass over a smaller part in a new scope, and then more. -/
def inScope (part : τ) (smaller : InPlace σ β) (put : σ → τ)
    (next : ScopeId → σ → β → InPlace τ α) : InPlace τ α :=
  step part (.declare fun r context => .ok (r.newScope context.scope)) fun scope =>
  (within ({ · with scope }) (fun before after => { after with scope := before.scope })
    smaller).inside put (next scope)

/-- A pass in a function. -/
def inFunction (function : FunctionId) (pass : InPlace τ α) : InPlace τ α :=
  within ({ · with function := some function })
    (fun before after => { after with function := before.function }) pass

/-- A pass in one more loop. -/
def inLoop (loop : NodeId) (pass : InPlace τ α) : InPlace τ α :=
  within (fun context => { context with loops := loop :: context.loops })
    (fun _ after => { after with loops := after.loops.tail }) pass

/-- A pass over the parts of a list, from the first to the last. -/
def each (pass : τ → InPlace τ Unit) : List τ → InPlace (List τ) Unit
  | [] => done [] ()
  | x :: xs =>
    (pass x).inside (· :: xs) fun x' _ =>
    (each pass xs).inside (x' :: ·) fun xs' _ => done (x' :: xs') ()

/-! ## What a pass does -/

/-- The pass as a check that gives the part back, and nothing if it fails. -/
def toCheck (f : τ → α → γ) (pass : InPlace τ α) : Check γ := fun s =>
  match pass s with
  | (part, .ok a s') => .ok (f part a) s'
  | (_, .error e s') => .error e s'

/-- The pass as a check of the part alone. -/
def tree (pass : InPlace τ α) : Check τ :=
  pass.toCheck fun part _ => part

variable {f : τ → α → γ} {part : τ} {a : α}

theorem toCheck_done : (done part a).toCheck f = pure (f part a) :=
  rfl

theorem toCheck_step {check : Check β} {next : β → InPlace τ α} :
    (step part check next).toCheck f = check >>= fun b => (next b).toCheck f := by
  funext s
  show toCheck f (step part check next) s = EStateM.bind check (fun b => (next b).toCheck f) s
  unfold toCheck step EStateM.bind
  cases check s <;> rfl

theorem toCheck_inside {smaller : InPlace σ β} {put : σ → τ} {next : σ → β → InPlace τ α} :
    (inside smaller put next).toCheck f =
      smaller.toCheck Prod.mk >>= fun x => (next x.1 x.2).toCheck f := by
  funext s
  show toCheck f (inside smaller put next) s =
    EStateM.bind (smaller.toCheck Prod.mk) (fun x => (next x.1 x.2).toCheck f) s
  unfold toCheck inside EStateM.bind
  dsimp only
  rcases smaller s with ⟨x, b | e⟩ <;> rfl

theorem toCheck_inside_tree {smaller : InPlace σ β} {put : σ → τ} {next : σ → InPlace τ α} :
    (inside smaller put fun x _ => next x).toCheck f =
      smaller.tree >>= fun x => (next x).toCheck f := by
  funext s
  show toCheck f (inside smaller put fun x _ => next x) s =
    EStateM.bind smaller.tree (fun x => (next x).toCheck f) s
  unfold tree toCheck inside EStateM.bind
  dsimp only
  rcases smaller s with ⟨x, b | e⟩ <;> rfl

theorem toCheck_within {enter : Context → Context} {leave : Context → Context → Context}
    {pass : InPlace τ α} :
    (within enter leave pass).toCheck f = Check.within enter leave (pass.toCheck f) := by
  funext s
  unfold toCheck within Check.within
  dsimp only
  rcases pass { s with context := enter s.context } with ⟨x, b | e⟩ <;> rfl

theorem toCheck_inScope {smaller : InPlace σ β} {put : σ → τ}
    {next : ScopeId → σ → β → InPlace τ α} :
    (inScope part smaller put next).toCheck f =
      Check.inScope (smaller.toCheck Prod.mk) >>= fun x =>
        (next x.1 x.2.1 x.2.2).toCheck f := by
  unfold inScope Check.inScope
  simp only [toCheck_step, toCheck_inside, toCheck_within, bind_assoc, pure_bind]

theorem tree_inLoop {loop : NodeId} {pass : InPlace τ α} :
    (inLoop loop pass).tree = Check.inLoop loop pass.tree :=
  toCheck_within

theorem tree_each {pass : τ → InPlace τ Unit} {x : τ} {xs : List τ} :
    (each pass (x :: xs)).tree = (do
      let x' ← (pass x).tree
      let xs' ← (each pass xs).tree
      return x' :: xs') := by
  rw [each, tree, toCheck_inside_tree]
  simp only [toCheck_inside_tree]
  rfl

/-! ## What a pass leaves -/

/-- However the pass goes, what it leaves is as `P` says. -/
def Leaves (P : τ → Prop) (pass : InPlace τ α) : Prop :=
  ∀ s, P (pass s).1

variable {P : τ → Prop}

theorem Leaves.done (h : P part) : (done part a).Leaves P :=
  fun _ => h

theorem Leaves.step {check : Check β} {next : β → InPlace τ α} (h : P part)
    (hnext : ∀ b, (next b).Leaves P) : (step part check next).Leaves P := by
  intro s
  unfold InPlace.step
  cases check s with
  | ok b s' => exact hnext b s'
  | error e s' => exact h

theorem Leaves.inside {Q : σ → Prop} {smaller : InPlace σ β} {put : σ → τ}
    {next : σ → β → InPlace τ α} (h : smaller.Leaves Q) (hput : ∀ x, Q x → P (put x))
    (hnext : ∀ x b, Q x → (next x b).Leaves P) : (inside smaller put next).Leaves P := by
  intro s
  have hx := h s
  unfold InPlace.inside
  cases hs : smaller s with
  | mk x result =>
    rw [hs] at hx
    cases result with
    | ok b s' => exact hnext x b hx s'
    | error e s' => exact hput x hx

theorem Leaves.within {enter : Context → Context} {leave : Context → Context → Context}
    {pass : InPlace τ α} (h : pass.Leaves P) : (within enter leave pass).Leaves P := by
  intro s
  have hx := h { s with context := enter s.context }
  unfold InPlace.within
  cases hs : pass { s with context := enter s.context } with
  | mk x result =>
    rw [hs] at hx
    cases result <;> exact hx

theorem Leaves.inScope {Q : σ → Prop} {smaller : InPlace σ β} {put : σ → τ}
    {next : ScopeId → σ → β → InPlace τ α} (hpart : P part) (h : smaller.Leaves Q)
    (hput : ∀ x, Q x → P (put x)) (hnext : ∀ scope x b, Q x → (next scope x b).Leaves P) :
    (inScope part smaller put next).Leaves P :=
  .step hpart fun scope => .inside h.within hput (hnext scope)

/-- What is the same of each part is the same of all of them. -/
theorem Leaves.each {pass : τ → InPlace τ Unit} {view : τ → γ}
    (h : ∀ x, (pass x).Leaves (view · = view x)) (xs : List τ) :
    (each pass xs).Leaves fun xs' => xs'.map view = xs.map view := by
  induction xs with
  | nil => exact .done rfl
  | cons x xs ih =>
    refine .inside (h x) (fun x' hx => ?_) fun x' _ hx => .inside ih (fun xs' hxs => ?_)
      fun xs' _ hxs => .done ?_
    · rw [List.map_cons, hx, List.map_cons]
    · rw [List.map_cons, hx, hxs, List.map_cons]
    · rw [List.map_cons, hx, hxs, List.map_cons]

end InPlace

open InPlace

/-! ## Expressions -/

/-- The variable a name stands for, where so many indices are applied to it. -/
def variableOf (r : Registry) (scope : ScopeId) (l : LValue) :
    Except Failure (SymbolId × Symbol) := do
  let symbolId ← locateRefusal l.id l.span (r.lookup scope l.name)
  let symbol ← entry (r.symbol? symbolId)
  if symbol.ty.rank < l.indices.length then
    reject (.overIndexed l.name symbol.ty.rank l.indices.length) l.id l.span
  else
    return (symbolId, symbol)

/-- The function a call is made to, where it takes as many arguments. -/
def functionOf (r : Registry) (id : NodeId) (span : Span) (callee : String)
    (arguments : List Expr) : Except Failure (FunctionId × Signature) := do
  let function ← locateRefusal id span (r.lookupFunction callee)
  let signature ← entry (r.function? function)
  let expected := signature.parameters.length
  let received := arguments.length
  match arguments.drop expected with
  | extra :: _ => reject (.tooManyArguments callee expected received) extra.id extra.span
  | [] =>
    if received < expected then
      reject (.tooFewArguments callee expected received) id span
    else
      return (function, signature)

namespace InPlace

/-- Notes down on an expression what is found out about it. -/
def note (e : Expr) (found : Except Failure ExprInfo) : InPlace Expr ExprInfo :=
  step e (.look fun _ _ => found) fun info => done { e with info := some info } info

mutual

/-- The pass over an expression. -/
def expr : (negated : Bool) → Expr → InPlace Expr ExprInfo
  | negated, ⟨id, .number text kind, span, info⟩ =>
    note ⟨id, .number text kind, span, info⟩ <|
      if isLiteral kind negated text.toList then .ok ⟨.scalar kind.basic, true, false⟩
      else reject (.badNumber text) id span
  | _, ⟨id, .bool value, span, info⟩ =>
    note ⟨id, .bool value, span, info⟩ <| .ok ⟨.scalar .bool, true, false⟩
  | _, ⟨id, .lvalue l, span, info⟩ =>
    (lvalue l).inside (⟨id, .lvalue ·, span, info⟩) fun l ty =>
    note ⟨id, .lvalue l, span, info⟩ <| .ok ⟨ty, false, l.assignable⟩
  | _, ⟨id, .paren inner, span, info⟩ =>
    (expr false inner).inside (⟨id, .paren ·, span, info⟩) fun inner i =>
    note ⟨id, .paren inner, span, info⟩ do
      locate id span (Operator.nop.checkOperand i.ty)
      return ⟨Operator.nop.resultType i.ty, i.isConstant, false⟩
  | _, ⟨id, .unary operator operand, span, info⟩ =>
    (expr (operator = .neg) operand).inside (⟨id, .unary operator ·, span, info⟩)
      fun operand i =>
    note ⟨id, .unary operator operand, span, info⟩ do
      locate id span (operator.checkOperand i.ty)
      return ⟨operator.resultType i.ty, i.isConstant, false⟩
  | _, ⟨id, .binary operator left right, span, info⟩ =>
    (expr false left).inside (⟨id, .binary operator · right, span, info⟩) fun left i =>
    (expr false right).inside (⟨id, .binary operator left ·, span, info⟩) fun right j =>
    note ⟨id, .binary operator left right, span, info⟩ do
      locate id span (operator.checkOperands i.ty j.ty)
      return ⟨operator.resultType i.ty, i.isConstant && j.isConstant, false⟩
  | _, ⟨id, .call callee arguments function, span, info⟩ =>
    step ⟨id, .call callee arguments function, span, info⟩
      (.look fun r _ => functionOf r id span callee arguments) fun found =>
    (InPlace.arguments callee 0 found.2.parameters arguments).inside
      (⟨id, .call callee · function, span, info⟩) fun arguments _ =>
    note ⟨id, .call callee arguments (some found.1), span, info⟩ <|
      .ok ⟨found.2.returns, false, false⟩

/-- The pass over a variable and its indices. -/
def lvalue : LValue → InPlace LValue Ty
  | ⟨id, name, indices, span, symbol, assignable⟩ =>
    step ⟨id, name, indices, span, symbol, assignable⟩
      (.look fun r context =>
        variableOf r context.scope ⟨id, name, indices, span, symbol, assignable⟩) fun found =>
    (InPlace.indices indices).inside (⟨id, name, ·, span, symbol, assignable⟩) fun indices' _ =>
    done ⟨id, name, indices', span, some found.1, found.2.isAssignable⟩
      (found.2.ty.indexed indices.length)

/-- The pass over indices. -/
def indices : List Expr → InPlace (List Expr) Unit
  | [] => done [] ()
  | e :: es =>
    (expr false e).inside (· :: es) fun e' i =>
    step (e' :: es) (if i.ty.isIndex then pure () else refuse (.badIndex i.ty.text) e.id e.span)
      fun _ =>
    (indices es).inside (e' :: ·) fun es' _ => done (e' :: es') ()

/-- The pass over arguments, for as long as there are parameters. -/
def arguments (callee : String) :
    (index : Nat) → List Parameter → List Expr → InPlace (List Expr) Unit
  | index, p :: ps, e :: es =>
    (expr false e).inside (· :: es) fun e' i =>
    step (e' :: es) (if p.ty.accepts i.ty then pure () else
      refuse (.argumentMismatch callee index p.ty.text i.ty.text) e.id e.span) fun _ =>
    (arguments callee (index + 1) ps es).inside (e' :: ·) fun es' _ => done (e' :: es') ()
  | _, _, es => done es ()

end

/-! ## Declarations -/

mutual

/-- The pass over an initializer that stands inside `depth` dimensions of `target`. -/
def initializer (target : Ty) : (depth : Nat) → Initializer → InPlace Initializer Unit
  | depth, .scalar id value span =>
    step (.scalar id value span) (if depth ≠ target.rank then
        refuse (.shapeMismatch depth
          s!"expected a braced list for `{target.text}`, found a scalar") id span
      else pure ()) fun _ =>
    (expr false value).inside (.scalar id · span) fun value' info =>
    step (.scalar id value' span) (if info.ty ≠ Ty.scalar target.basic then
        refuse (.typeMismatch (Ty.scalar target.basic).text info.ty.text) value.id value.span
      else if !info.isConstant then refuse .notConstant value.id value.span
      else pure ()) fun _ =>
    done (.scalar id value' span) ()
  | depth, .list id items span =>
    step (.list id items span) (.look fun _ _ =>
      match target.dims[depth]? with
      | none =>
        reject (.shapeMismatch depth
          s!"found a braced list where a `{target.basic.name}` scalar is expected") id span
      | some extent => locate id span (itemDepth target depth extent items)) fun inner =>
    (initializers target inner items).inside (.list id · span) fun items' _ =>
    done (.list id items' span) ()

/-- The pass over the items of a list. -/
def initializers (target : Ty) :
    (depth : Nat) → List Initializer → InPlace (List Initializer) Unit
  | _, [] => done [] ()
  | depth, i :: is =>
    (initializer target depth i).inside (· :: is) fun i' _ =>
    (initializers target depth is).inside (i' :: ·) fun is' _ => done (i' :: is') ()

end

/-- The pass over a definition. -/
def varDef (isConstant : Bool) (basic : BasicType) (d : VarDef) : InPlace VarDef Unit :=
  step d (.look fun _ _ => typeOf basic d.dims false d.id) fun ty =>
  let named (d' : VarDef) : InPlace VarDef Unit :=
    step d' (bindName d.id d.span d.name (declaredSymbol isConstant d ty)) fun symbol =>
    done { d' with symbol := some symbol } ()
  match d.init with
  | none => named d
  | some init =>
    (initializer ty 0 init).inside (fun init => { d with init := some init }) fun init _ =>
    named { d with init := some init }

/-- The pass over a declaration. -/
def decl (d : Decl) : InPlace Decl Unit :=
  (each (varDef d.isConstant d.basic) d.defs).inside (fun defs => { d with defs }) fun defs _ =>
  done { d with defs } ()

/-- The pass over a parameter. -/
def param (function : FunctionId) (p : Param) : InPlace Param Unit :=
  step p (.look fun _ _ => typeOf p.basic p.dims p.isOpen p.id) fun ty =>
  step p (.declare fun r _ =>
    locateRefusal p.id p.span ((r.addParameter function ⟨p.name, ty⟩).map ((), ·))) fun _ =>
  step p (bindName p.id p.span p.name (.ofParameter p.name ty)) fun symbol =>
  done { p with symbol := some symbol } ()

/-! ## Statements and programs -/

/-- The pass over a condition. -/
def condition (e : Expr) : InPlace Expr Unit :=
  (expr false e).inside id fun e' info =>
  step e' (if info.ty = Ty.scalar .bool then pure () else
    refuse (.typeMismatch (Ty.scalar .bool).text info.ty.text) e.id e.span) fun _ =>
  done e' ()

mutual

/-- The pass over a statement. -/
def stmt : Stmt → InPlace Stmt Unit
  | ⟨id, .assign target value, span, returns⟩ =>
    (lvalue target).inside (⟨id, .assign · value, span, returns⟩) fun target' ty =>
    step ⟨id, .assign target' value, span, returns⟩ (if !target'.assignable then
        refuse (.notAssignable target.name) target.id target.span
      else pure ()) fun _ =>
    (expr false value).inside (⟨id, .assign target' ·, span, returns⟩) fun value' info =>
    step ⟨id, .assign target' value', span, returns⟩ (if info.ty = ty then pure () else
      refuse (.typeMismatch ty.text info.ty.text) value.id value.span) fun _ =>
    done ⟨id, .assign target' value', span, false⟩ ()
  | ⟨id, .expr none, span, _⟩ => done ⟨id, .expr none, span, false⟩ ()
  | ⟨id, .expr (some value), span, returns⟩ =>
    (expr false value).inside (fun value => ⟨id, .expr (some value), span, returns⟩) fun value _ =>
    done ⟨id, .expr (some value), span, false⟩ ()
  | ⟨id, .block b, span, returns⟩ =>
    (block b).inside (⟨id, .block ·, span, returns⟩) fun b _ =>
    done ⟨id, .block b, span, b.hasReturn⟩ ()
  | ⟨id, .cond test thenBranch none, span, returns⟩ =>
    (condition test).inside (⟨id, .cond · thenBranch none, span, returns⟩) fun test _ =>
    (stmt thenBranch).inside (⟨id, .cond test · none, span, returns⟩) fun thenBranch _ =>
    done ⟨id, .cond test thenBranch none, span, false⟩ ()
  | ⟨id, .cond test thenBranch (some elseBranch), span, returns⟩ =>
    (condition test).inside (⟨id, .cond · thenBranch (some elseBranch), span, returns⟩)
      fun test _ =>
    (stmt thenBranch).inside (⟨id, .cond test · (some elseBranch), span, returns⟩)
      fun thenBranch _ =>
    (stmt elseBranch).inside
      (fun elseBranch => ⟨id, .cond test thenBranch (some elseBranch), span, returns⟩)
      fun elseBranch _ =>
    done ⟨id, .cond test thenBranch (some elseBranch), span,
      thenBranch.hasReturn && elseBranch.hasReturn⟩ ()
  | ⟨id, .loop test body, span, returns⟩ =>
    (condition test).inside (⟨id, .loop · body, span, returns⟩) fun test _ =>
    (inLoop id (stmt body)).inside (⟨id, .loop test ·, span, returns⟩) fun body _ =>
    done ⟨id, .loop test body, span, false⟩ ()
  | ⟨id, .leave target, span, returns⟩ =>
    step ⟨id, .leave target, span, returns⟩ (innermostLoop "break" id span) fun target =>
    done ⟨id, .leave (some target), span, false⟩ ()
  | ⟨id, .next target, span, returns⟩ =>
    step ⟨id, .next target, span, returns⟩ (innermostLoop "continue" id span) fun target =>
    done ⟨id, .next (some target), span, false⟩ ()
  | ⟨id, .ret none function, span, returns⟩ =>
    step ⟨id, .ret none function, span, returns⟩ (enclosingFunction id span) fun found =>
    step ⟨id, .ret none function, span, returns⟩ (if found.2.basic = .void then pure () else
      refuse (.returnMismatch found.2.text "void") id span) fun _ =>
    done ⟨id, .ret none (some found.1), span, true⟩ ()
  | ⟨id, .ret (some e) function, span, returns⟩ =>
    step ⟨id, .ret (some e) function, span, returns⟩ (enclosingFunction id span) fun found =>
    (expr false e).inside (fun e' => ⟨id, .ret (some e') function, span, returns⟩) fun e' info =>
    step ⟨id, .ret (some e') function, span, returns⟩
      (if found.2.basic ≠ .void ∧ info.ty = found.2 then pure () else
        refuse (.returnMismatch found.2.text info.ty.text) e.id e.span) fun _ =>
    done ⟨id, .ret (some e') (some found.1), span, true⟩ ()

/-- The pass over a block. -/
def block : Block → InPlace Block Unit
  | ⟨id, items, span, scope, returns⟩ =>
    inScope ⟨id, items, span, scope, returns⟩ (blockItems items)
      (⟨id, ·, span, scope, returns⟩) fun scope items returns =>
    done ⟨id, items, span, some scope, returns⟩ ()

/-- The pass over the items of a block, which says whether one of them returns. -/
def blockItems : List BlockItem → InPlace (List BlockItem) Bool
  | [] => done [] false
  | .decl d :: rest =>
    (decl d).inside (.decl · :: rest) fun d _ =>
    (blockItems rest).inside (.decl d :: ·) fun rest returns => done (.decl d :: rest) returns
  | .stmt s :: rest =>
    (stmt s).inside (.stmt · :: rest) fun s _ =>
    (blockItems rest).inside (.stmt s :: ·) fun rest returns =>
    done (.stmt s :: rest) (s.hasReturn || returns)

end

/-- The pass over what stands in the scope of a function. -/
def funcParts (f : FuncDef) : InPlace FuncDef Unit :=
  step f (declareFunction f) fun function =>
  inFunction function <|
  (each (param function) f.params).inside
    (fun params => { f with params, function := some function }) fun params _ =>
  (block f.body).inside
    (fun body => { f with params, body, function := some function }) fun body _ =>
  done { f with params, body, function := some function } ()

/-- The pass over a function definition. -/
def funcDef (f : FuncDef) : InPlace FuncDef Unit :=
  inScope f (funcParts f) id fun scope f _ => done { f with scope := some scope } ()

/-- The pass over an item of a program. -/
def item : Item → InPlace Item Unit
  | .decl d => (decl d).inside .decl fun d _ => done (.decl d) ()
  | .func f => (funcDef f).inside .func fun f _ => done (.func f) ()

/-- The pass over a program. -/
def program (p : Program) : InPlace Program Unit :=
  (each item p.items).inside (fun items => { p with items }) fun items _ =>
  done { p with items } ()

end InPlace

/-- Checks a program in place, from an empty registry: gives the tree that is left, how it
went, and the registry. -/
def annotate (withBuiltins : Bool) (p : Program) : Program × Except Failure Unit × Registry :=
  match initial withBuiltins with
  | (_, .error refusal, r) => (p, locateRefusal p.id p.span (.error refusal), r)
  | (global, .ok (), r) =>
    match InPlace.program p ⟨r, { scope := global }⟩ with
    | (p, .ok _ s) => (p, .ok (), s.registry)
    | (p, .error failure s) => (p, .error failure, s.registry)

end CactLang.Typing
