import CactLang.Grammar.Declaration
import CactLang.Tree.Stmt

/-!
# Reading statements and programs

Statements are read by the token they start with; what starts with none of the
tokens that mark a statement is an expression or an assignment. An assignment is
found out only at its `=`: the expression before it has been read by then and must
be a variable, whose wrapping node is dropped.

As with expressions, each form is given the reader of its parts, and `stmt` ties
the knot.
-/

namespace CactLang

/-- The statements that are known by their first token. -/
inductive StmtForm where
  | block
  | cond
  | loop
  | leave
  | next
  | ret
  | empty
  deriving DecidableEq, Repr

/-- The form of the statement that a token marks. -/
def StmtForm.ofToken? : TokenKind → Option StmtForm
  | .openCurly => some block
  | .kwIf => some cond
  | .kwWhile => some loop
  | .kwBreak => some leave
  | .kwContinue => some next
  | .kwReturn => some ret
  | .semicolon => some empty
  | _ => none

/-- Whether a token starts a declaration of variables. -/
def TokenKind.startsDecl (k : TokenKind) : Bool :=
  k = .kwConst || k.isDataType

namespace Phrase

/-! ## Statements -/

/-- An expression or an assignment, and a semicolon. -/
def exprStmt : Phrase Stmt := do
  let start ← position
  let left ← expr .lowest
  if (← kind) = .assign then
    match left.kind with
    | .lvalue target =>
      let _ ← advance
      let value ← expr .lowest
      let _ ← expect .semicolon
      let id ← freshId
      return .plain id (.assign target value) (← spanFrom start)
    | _ => unexpected "left side of an assignment must be a variable"
  else
    let _ ← expect .semicolon
    let id ← freshId
    return .plain id (.expr (some left)) (← spanFrom start)

/-- A semicolon alone. -/
def emptyStmt : Phrase Stmt := do
  let start := (← advance).span.start
  let id ← freshId
  return .plain id (.expr none) (← spanFrom start)

/-- What a block is made of. -/
def blockItemWith (stmt : Phrase Stmt) : Phrase BlockItem := do
  if (← kind).startsDecl then .decl <$> decl else .stmt <$> stmt

/-- A block. -/
def blockWith (stmt : Phrase Stmt) : Phrase Block := do
  let start ← position
  let _ ← expect .openCurly
  let items ← many (fun k => k ≠ .closeCurly && k ≠ .eof) (blockItemWith stmt)
  let _ ← expect .closeCurly
  let id ← freshId
  return .plain id items (← spanFrom start)

/-- A block in place of a statement. -/
def blockStmtWith (stmt : Phrase Stmt) : Phrase Stmt := do
  let start ← position
  let block ← blockWith stmt
  let id ← freshId
  return .plain id (.block block) (← spanFrom start)

/-- A condition in parentheses. -/
def condition : Phrase Expr := do
  let _ ← expect .openParen
  let value ← expr .lowest
  let _ ← expect .closeParen
  return value

/-- An `if`; an `else` belongs to the nearest one. -/
def ifStmtWith (stmt : Phrase Stmt) : Phrase Stmt := do
  let start := (← advance).span.start
  let test ← condition
  let thenBranch ← stmt
  let elseBranch ←
    if (← kind) = .kwElse then
      let _ ← advance
      some <$> stmt
    else
      pure none
  let id ← freshId
  return .plain id (.cond test thenBranch elseBranch) (← spanFrom start)

/-- A `while`. -/
def whileStmtWith (stmt : Phrase Stmt) : Phrase Stmt := do
  let start := (← advance).span.start
  let test ← condition
  let body ← stmt
  let id ← freshId
  return .plain id (.loop test body) (← spanFrom start)

/-- A jump: its keyword and a semicolon. -/
def jumpStmt (jump : StmtKind) : Phrase Stmt := do
  let start := (← advance).span.start
  let _ ← expect .semicolon
  let id ← freshId
  return .plain id jump (← spanFrom start)

/-- A `break`. -/
def breakStmt : Phrase Stmt :=
  jumpStmt (.leave none)

/-- A `continue`. -/
def continueStmt : Phrase Stmt :=
  jumpStmt (.next none)

/-- A `return`, with or without a value. -/
def returnStmt : Phrase Stmt := do
  let start := (← advance).span.start
  let value ← if (← kind) = .semicolon then pure none else some <$> expr .lowest
  let _ ← expect .semicolon
  let id ← freshId
  return .plain id (.ret value none) (← spanFrom start)

/-- A statement of any form. -/
def stmtWith (stmt : Phrase Stmt) : Phrase Stmt := do
  match StmtForm.ofToken? (← kind) with
  | some .block => blockStmtWith stmt
  | some .cond => ifStmtWith stmt
  | some .loop => whileStmtWith stmt
  | some .leave => breakStmt
  | some .next => continueStmt
  | some .ret => returnStmt
  | some .empty => emptyStmt
  | none => exprStmt

/-- A statement with at most `levels` levels of nesting. -/
def stmtWithin : (levels : Nat) → Phrase Stmt
  | 0 => unexpected "expected an expression"
  | levels + 1 => stmtWith (stmtWithin levels)

/-- A statement. -/
def stmt : Phrase Stmt := do
  stmtWithin ((← get).ahead.length + 1)

/-- A block. -/
def block : Phrase Block :=
  blockWith stmt

/-! ## Programs -/

/-- A function definition. -/
def funcDef : Phrase FuncDef := do
  let start ← position
  let returns ← basicType true
  let name ← identifier "after function return type"
  let _ ← expect .openParen
  let params ← listUntil .closeParen param
  let body ← block
  let id ← freshId
  return { id, name, returns, params, body, span := ← spanFrom start }

/-- Whether a function definition starts at a cursor: at `void`, or at another
element kind that is followed by a name and an opening parenthesis. -/
def startsFuncDef (c : Cursor) : Bool :=
  c.current.kind = .kwVoid ||
    (c.current.kind.isDataType && (c.peek 1).kind = .identifier && (c.peek 2).kind = .openParen)

/-- A declaration or function definition. -/
def item : Phrase Item := do
  let c ← get
  if startsFuncDef c then
    .func <$> funcDef
  else if c.current.kind.startsDecl then
    .decl <$> decl
  else
    unexpected "expected a declaration or function definition"

/-- A whole program. It takes the first identity, and its span ends where the end
of the input starts. -/
def program : Phrase Program := do
  let id ← freshId
  let start ← position
  let items ← many (· ≠ .eof) item
  return ⟨id, items, ⟨start, ← position⟩⟩

end Phrase

/-- Reads a program, and gives the cursor where reading stopped. -/
def parse (tokens : List Token) (file : String) : EStateM.Result Diagnostic Cursor Program :=
  Phrase.program (Cursor.ofTokens tokens file)

end CactLang
