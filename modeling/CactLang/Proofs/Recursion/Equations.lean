import CactLang.Proofs.Reading.Run

/-!
# The grammar as equations

The loops of the grammar count their rounds and the phrases that contain one another count
their levels, so that each of them is a definition by recursion on a number. Here the same
grammar stands without any count. What it does over again is left open:

> `Recursion`: the loops and phrases that the grammar calls over again.
> `Recursion.unfold`: what they are, given what they call.

A reader without counts is a solution of `r = r.unfold`. Unfolding `n` times from anything, it
is what such a reader does until it is in its own calls `n` deep, where each further round of a
loop is one call deeper.

Calls can be watched. An `Oversight` may do to a call whatever it likes if the call succeeds
without taking a token, or takes the end of the input.
-/

namespace CactLang

/-- Reading went on from `c`. None of the tokens it took ends the input, and where it
succeeded it took at least one. -/
inductive Cursor.Advances (c : Cursor) {α : Type} : EStateM.Result Diagnostic Cursor α → Prop
  | ok {a : α} {d : Cursor} {ts : List Token} (hne : ts ≠ []) (h : c.Takes ts d) :
      c.Advances (.ok a d)
  | error {e : Diagnostic} {d : Cursor} {ts : List Token} (h : c.Takes ts d) :
      c.Advances (.error e d)

/-- What becomes of calls. Those that go on from where they were made are left alone. -/
structure Oversight where
  call : {α : Type} → Phrase α → Phrase α
  call_eq : ∀ {α : Type} {m : Phrase α} {c : Cursor}, c.Advances (m c) → call m c = m c

/-- All calls are left alone. -/
instance : Inhabited Oversight where
  default := ⟨fun m => m, fun _ => rfl⟩

open Classical in
/-- A call that does not go on is an error. -/
noncomputable def Oversight.strict (e : Diagnostic) : Oversight where
  call m c := if c.Advances (m c) then m c else .error e c
  call_eq h := if_pos h

/-- What the grammar calls over again: its two loops, and the phrases that contain one
another. -/
structure Recursion where
  many : {α : Type} → (TokenKind → Bool) → Phrase α → Phrase (List α)
  extend : Precedence → Expr → Phrase Expr
  expr : Precedence → Phrase Expr
  initializer : Phrase Initializer
  stmt : Phrase Stmt

/-- Nothing is called. -/
instance : Inhabited Recursion where
  default := ⟨fun _ _ => pure [], fun _ left => pure left, fun _ => .unexpected "",
    .unexpected "", .unexpected ""⟩

namespace Recursion

open Phrase (advance kind position spanFrom freshId expect unexpected number truth signWith
  groupWith operationWith basicType identifier dimension outerDimension emptyStmt breakStmt
  continueStmt startsFuncDef)

variable (o : Oversight) (r : Recursion)

/-! ## Lists -/

section

variable {α : Type}

/-- Items with commas between them. -/
def commaSeparated (item : Phrase α) : Phrase (List α) := do
  let first ← item
  let rest ← r.many (· = .comma) (advance *> item)
  return first :: rest

/-- A list up to its closing token. -/
def listUntil (close : TokenKind) (item : Phrase α) : Phrase (List α) := do
  let items ← if (← kind) = close then pure [] else r.commaSeparated item
  let _ ← expect close
  return items

/-- Items in brackets. -/
def bracketed (item : Phrase α) : Phrase (List α) :=
  r.many (· = .openBracket) do
    let _ ← advance
    let a ← item
    let _ ← expect .closeBracket
    return a

end

/-! ## Expressions -/

/-- The call of an expression. -/
def inner (bound : Precedence) : Phrase Expr :=
  o.call (r.expr bound)

/-- A variable or a call. -/
def name : Phrase Expr := do
  let name ← advance
  if (← kind) = .openParen then
    let _ ← advance
    let arguments ← r.listUntil .closeParen (r.inner o .lowest)
    let id ← freshId
    return .plain id (.call name.text arguments none) (← spanFrom name.span.start)
  else
    let indices ← r.bracketed (r.inner o .lowest)
    let span ← spanFrom name.span.start
    let lvalue := LValue.plain (← freshId) name.text indices span
    return .plain (← freshId) (.lvalue lvalue) span

/-- An operand, by the token that announces it. -/
def operand : Phrase Expr := do
  match OperandForm.ofToken? (← kind) with
  | none => unexpected "expected an expression"
  | some .number => number
  | some .truth => truth
  | some .name => r.name o
  | some .sign => signWith (r.inner o)
  | some .group => groupWith (r.inner o)

/-! ## Declarations -/

/-- The call of an initializer. -/
def part : Phrase Initializer :=
  o.call r.initializer

/-- A definition of a variable. -/
def varDef (isConstant : Bool) : Phrase VarDef := do
  let start ← position
  let name ← identifier "during variable declaration"
  let dims ← r.bracketed dimension
  let init ←
    if (← kind) = .assign then
      let _ ← advance
      some <$> r.part o
    else if isConstant then
      unexpected "expected rhs in constant definition"
    else
      pure none
  let id ← freshId
  return { id, name, dims, init, span := ← spanFrom start }

/-- A declaration. -/
def decl : Phrase Decl := do
  let start ← position
  let isConstant := (← kind) = .kwConst
  if isConstant then
    let _ ← advance
  let basic ← basicType false
  let defs ← r.commaSeparated (r.varDef o isConstant)
  let _ ← expect .semicolon
  let id ← freshId
  return { id, isConstant, basic, defs, span := ← spanFrom start }

/-- A parameter of a function. -/
def param : Phrase Param := do
  let start ← position
  let basic ← basicType false
  let name ← identifier "in parameter list"
  let (isOpen, outer) ←
    if (← kind) = .openBracket then
      match ← outerDimension with
      | none => pure (true, [])
      | some dim => pure (false, [dim])
    else
      pure (false, [])
  let inner ← r.bracketed dimension
  let id ← freshId
  return { id, name, basic, isOpen, dims := outer ++ inner, span := ← spanFrom start }

/-! ## Statements -/

/-- The call of a statement. -/
def substmt : Phrase Stmt :=
  o.call r.stmt

/-- An assignment or an expression statement. -/
def exprStmt : Phrase Stmt := do
  let start ← position
  let left ← r.inner o .lowest
  if (← kind) = .assign then
    match left.kind with
    | .lvalue target =>
      let _ ← advance
      let value ← r.inner o .lowest
      let _ ← expect .semicolon
      let id ← freshId
      return .plain id (.assign target value) (← spanFrom start)
    | _ => unexpected "left side of an assignment must be a variable"
  else
    let _ ← expect .semicolon
    let id ← freshId
    return .plain id (.expr (some left)) (← spanFrom start)

/-- An item of a block. -/
def blockItem : Phrase BlockItem := do
  if (← kind).startsDecl then .decl <$> o.call (r.decl o) else .stmt <$> r.substmt o

/-- A block. -/
def block : Phrase Block := do
  let start ← position
  let _ ← expect .openCurly
  let items ← r.many (fun k => k ≠ .closeCurly && k ≠ .eof) (r.blockItem o)
  let _ ← expect .closeCurly
  let id ← freshId
  return .plain id items (← spanFrom start)

/-- A block as a statement. -/
def blockStmt : Phrase Stmt := do
  let start ← position
  let block ← o.call (r.block o)
  let id ← freshId
  return .plain id (.block block) (← spanFrom start)

/-- An expression in parentheses. -/
def condition : Phrase Expr := do
  let _ ← expect .openParen
  let value ← r.inner o .lowest
  let _ ← expect .closeParen
  return value

/-- A condition with its branches. -/
def ifStmt : Phrase Stmt := do
  let start := (← advance).span.start
  let test ← r.condition o
  let thenBranch ← r.substmt o
  let elseBranch ←
    if (← kind) = .kwElse then
      let _ ← advance
      some <$> r.substmt o
    else
      pure none
  let id ← freshId
  return .plain id (.cond test thenBranch elseBranch) (← spanFrom start)

/-- A loop. -/
def whileStmt : Phrase Stmt := do
  let start := (← advance).span.start
  let test ← r.condition o
  let body ← r.substmt o
  let id ← freshId
  return .plain id (.loop test body) (← spanFrom start)

/-- A return. -/
def returnStmt : Phrase Stmt := do
  let start := (← advance).span.start
  let value ← if (← kind) = .semicolon then pure none else some <$> r.inner o .lowest
  let _ ← expect .semicolon
  let id ← freshId
  return .plain id (.ret value none) (← spanFrom start)

/-! ## Programs -/

/-- A function definition. -/
def funcDef : Phrase FuncDef := do
  let start ← position
  let returns ← basicType true
  let name ← identifier "after function return type"
  let _ ← expect .openParen
  let params ← r.listUntil .closeParen r.param
  let body ← o.call (r.block o)
  let id ← freshId
  return { id, name, returns, params, body, span := ← spanFrom start }

/-- An item of a program. -/
def item : Phrase Item := do
  let c ← get
  if startsFuncDef c then
    .func <$> o.call (r.funcDef o)
  else if c.current.kind.startsDecl then
    .decl <$> o.call (r.decl o)
  else
    unexpected "expected a declaration or function definition"

/-- A program. -/
def program : Phrase Program := do
  let id ← freshId
  let start ← position
  let items ← r.many (· ≠ .eof) (o.call (r.item o))
  return ⟨id, items, ⟨start, ← position⟩⟩

/-! ## One level more -/

/-- The loops and phrases that call those of `r`. -/
def unfold : Recursion where
  many more item := do
    if more (← kind) then
      let a ← item
      let rest ← r.many more item
      return a :: rest
    else
      return []
  extend bound left := do
    match Precedence.ofToken? (← kind) with
    | none => return left
    | some precedence =>
      if bound.rank < precedence.rank then
        let left ← operationWith (r.inner o) left precedence
        r.extend bound left
      else
        return left
  expr bound := do
    let left ← r.operand o
    r.extend bound left
  initializer := do
    let start ← position
    if (← kind) = .openCurly then
      let _ ← advance
      let items ← r.listUntil .closeCurly (r.part o)
      let id ← freshId
      return .list id items (← spanFrom start)
    else
      let value ← r.inner o .lowest
      let id ← freshId
      return .scalar id value (← spanFrom start)
  stmt := do
    match StmtForm.ofToken? (← kind) with
    | some .block => r.blockStmt o
    | some .cond => r.ifStmt o
    | some .loop => r.whileStmt o
    | some .leave => breakStmt
    | some .next => continueStmt
    | some .ret => r.returnStmt o
    | some .empty => emptyStmt
    | none => r.exprStmt o

end Recursion

end CactLang
