import CactLang.Tree.Stmt
import CactLang.Typing.Declaration

/-!
# Typing statements and programs

Statements are checked in order, each block in a scope of its own. A statement
returns on every path if it is a `return`, an `if` both of whose branches do, or
a block with a statement that does; a loop may not be entered at all and does
not.

`typeCheck` checks a whole program. It gives the tree with everything found out,
or the first failure, and in either case the registry as it was left.
-/

namespace CactLang.Typing

/-! ## Parts of statements -/

/-- Checks an expression in the current scope. -/
def expr (e : Expr) : Check (Expr × ExprInfo) :=
  .look fun r context => checkExpr r context.scope false e

/-- Checks a variable in the current scope. -/
def lvalue (l : LValue) : Check (LValue × Ty) :=
  .look fun r context => checkLValue r context.scope l

/-- Stops with a cause at a node. -/
def refuse {α : Type} (cause : Cause) (id : NodeId) (span : Span) : Check α :=
  .look fun _ _ => reject cause id span

/-- Checks a condition, which must be a `bool`. -/
def condition (e : Expr) : Check Expr := do
  let (e', info) ← expr e
  let expected := Ty.scalar .bool
  if info.ty = expected then return e'
  else refuse (.typeMismatch expected.text info.ty.text) e.id e.span

/-- Checks an assignment. -/
def assignment (target : LValue) (value : Expr) : Check StmtKind := do
  let (target', ty) ← lvalue target
  if !target'.assignable then
    refuse (.notAssignable target.name) target.id target.span
  else
    let (value', info) ← expr value
    if info.ty = ty then return .assign target' value'
    else refuse (.typeMismatch ty.text info.ty.text) value.id value.span

/-- The innermost loop, for the jump that a keyword asks for. -/
def innermostLoop (keyword : String) (id : NodeId) (span : Span) : Check NodeId :=
  .look fun _ context =>
    match context.loops with
    | loop :: _ => .ok loop
    | [] => reject (.outsideLoop keyword) id span

/-- The function that is being checked, and its type. -/
def enclosingFunction (id : NodeId) (span : Span) : Check (FunctionId × Ty) :=
  .look fun r context =>
    match context.function with
    | none => reject (.unexpectedHint "return" "return outside of a function") id span
    | some function => return (function, (← entry (r.function? function)).returns)

/-- Checks a `return`: without a value in a `void` function, and with a value of
the function's type in every other. -/
def returning (id : NodeId) (span : Span) (value : Option Expr) : Check StmtKind := do
  let (function, expected) ← enclosingFunction id span
  match value with
  | none =>
    if expected.basic = .void then return .ret none (some function)
    else refuse (.returnMismatch expected.text "void") id span
  | some e =>
    let (e', info) ← expr e
    if expected.basic ≠ .void ∧ info.ty = expected then return .ret (some e') (some function)
    else refuse (.returnMismatch expected.text info.ty.text) e.id e.span

/-! ## Statements and blocks -/

mutual

/-- Checks a statement. -/
def stmt : Stmt → Check Stmt
  | ⟨id, .assign target value, span, _⟩ => do
    return ⟨id, ← assignment target value, span, false⟩
  | ⟨id, .expr none, span, _⟩ => return ⟨id, .expr none, span, false⟩
  | ⟨id, .expr (some value), span, _⟩ => do
    let (value, _) ← expr value
    return ⟨id, .expr (some value), span, false⟩
  | ⟨id, .block b, span, _⟩ => do
    let b ← block b
    return ⟨id, .block b, span, b.hasReturn⟩
  | ⟨id, .cond test thenBranch none, span, _⟩ => do
    let test ← condition test
    let thenBranch ← stmt thenBranch
    return ⟨id, .cond test thenBranch none, span, false⟩
  | ⟨id, .cond test thenBranch (some elseBranch), span, _⟩ => do
    let test ← condition test
    let thenBranch ← stmt thenBranch
    let elseBranch ← stmt elseBranch
    return ⟨id, .cond test thenBranch (some elseBranch), span,
      thenBranch.hasReturn && elseBranch.hasReturn⟩
  | ⟨id, .loop test body, span, _⟩ => do
    let test ← condition test
    let body ← Check.inLoop id (stmt body)
    return ⟨id, .loop test body, span, false⟩
  | ⟨id, .leave _, span, _⟩ => do
    let target ← innermostLoop "break" id span
    return ⟨id, .leave (some target), span, false⟩
  | ⟨id, .next _, span, _⟩ => do
    let target ← innermostLoop "continue" id span
    return ⟨id, .next (some target), span, false⟩
  | ⟨id, .ret value _, span, _⟩ => do
    return ⟨id, ← returning id span value, span, true⟩

/-- Checks a block in a new scope. -/
def block : Block → Check Block
  | ⟨id, items, span, _, _⟩ => do
    let (scope, items, hasReturn) ← Check.inScope (blockItems items)
    return ⟨id, items, span, some scope, hasReturn⟩

/-- Checks the items of a block, and says whether one of them returns. -/
def blockItems : List BlockItem → Check (List BlockItem × Bool)
  | [] => return ([], false)
  | .decl d :: rest => do
    let d ← decl d
    let (rest, hasReturn) ← blockItems rest
    return (.decl d :: rest, hasReturn)
  | .stmt s :: rest => do
    let s ← stmt s
    let (rest, hasReturn) ← blockItems rest
    return (.stmt s :: rest, s.hasReturn || hasReturn)

end

/-! ## Programs -/

/-- Declares the function of a definition. -/
def declareFunction (f : FuncDef) : Check FunctionId :=
  .declare fun r _ => locateRefusal f.id f.span (r.newFunction f.name f.returns)

/-- Checks a function definition. The function is declared before its parameters
and its body, so that it may call itself; a scope holds the parameters, and one
inside it the body. -/
def funcDef (f : FuncDef) : Check FuncDef := do
  let (scope, function, ps, body) ← Check.inScope do
    let function ← declareFunction f
    let (ps, body) ← Check.inFunction function do
      let ps ← params function f.params
      let body ← block f.body
      return (ps, body)
    return (function, ps, body)
  return { f with params := ps, body, function := some function, scope := some scope }

/-- Checks the items of a program, from the first to the last. -/
def items : List Item → Check (List Item)
  | [] => return []
  | .decl d :: rest => do
    let d ← decl d
    let rest ← items rest
    return .decl d :: rest
  | .func f :: rest => do
    let f ← funcDef f
    let rest ← items rest
    return .func f :: rest

/-- Checks a program. -/
def program (p : Program) : Check Program := do
  return { p with items := ← items p.items }

/-- The registry a program is checked in: the global scope, and the built-in
functions if they are wanted. -/
def initial (withBuiltins : Bool) : ScopeId × Except Registry.Refusal Unit × Registry :=
  let (global, r) := ({} : Registry).ensureGlobal
  (global, if withBuiltins then r.addBuiltins else (.ok (), r))

/-- Checks a program from an empty registry; gives the registry it leaves. -/
def typeCheck (withBuiltins : Bool) (p : Program) : Except Failure Program × Registry :=
  match initial withBuiltins with
  | (_, .error refusal, r) => (locateRefusal p.id p.span (.error refusal), r)
  | (global, .ok (), r) =>
    match program p ⟨r, { scope := global }⟩ with
    | .ok p s => (.ok p, s.registry)
    | .error failure s => (.error failure, s.registry)

end CactLang.Typing
