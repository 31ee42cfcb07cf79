import CactLang.Tree.Decl

/-!
# Statements and programs

The tree from statements and blocks up to function definitions and the whole
program. The type checker adds the scope of each block, the loop each jump
leaves or repeats, the function each `return` ends, and whether a statement or
block returns on every path.
-/

namespace CactLang

mutual

/-- A statement node. -/
structure Stmt where
  id : NodeId
  kind : StmtKind
  span : Span
  /-- Whether every path through it returns. -/
  hasReturn : Bool

/-- The forms of statements. -/
inductive StmtKind where
  /-- A variable and the value it takes. -/
  | assign (target : LValue) (value : Expr)
  /-- An expression, or nothing before the semicolon. -/
  | expr (value : Option Expr)
  /-- A block in place of a statement. -/
  | block (block : Block)
  /-- A condition, a branch, and perhaps a second branch. -/
  | cond (condition : Expr) (thenBranch : Stmt) (elseBranch : Option Stmt)
  /-- A condition and a body that repeats. -/
  | loop (condition : Expr) (body : Stmt)
  /-- Leaves a loop. -/
  | leave (target : Option NodeId)
  /-- Starts the next round of a loop. -/
  | next (target : Option NodeId)
  /-- Ends a function, perhaps with a value. -/
  | ret (value : Option Expr) (function : Option FunctionId)

/-- Declarations and statements in braces. -/
structure Block where
  id : NodeId
  items : List BlockItem
  span : Span
  /-- The scope of its declarations. -/
  scope : Option ScopeId
  /-- Whether every path through it returns. -/
  hasReturn : Bool

/-- What a block is made of. -/
inductive BlockItem where
  | decl (decl : Decl)
  | stmt (stmt : Stmt)

end

/-- A statement as read, with nothing known about it. -/
def Stmt.plain (id : NodeId) (kind : StmtKind) (span : Span) : Stmt :=
  ⟨id, kind, span, false⟩

/-- A block as read, with nothing known about it. -/
def Block.plain (id : NodeId) (items : List BlockItem) (span : Span) : Block :=
  ⟨id, items, span, none, false⟩

mutual

/-- The statement without what the type checker found out. -/
def Stmt.erase : Stmt → Stmt
  | ⟨id, .assign target value, span, _⟩ => .plain id (.assign target.erase value.erase) span
  | ⟨id, .expr value, span, _⟩ => .plain id (.expr (value.map Expr.erase)) span
  | ⟨id, .block block, span, _⟩ => .plain id (.block block.erase) span
  | ⟨id, .cond condition thenBranch none, span, _⟩ =>
    .plain id (.cond condition.erase thenBranch.erase none) span
  | ⟨id, .cond condition thenBranch (some elseBranch), span, _⟩ =>
    .plain id (.cond condition.erase thenBranch.erase (some elseBranch.erase)) span
  | ⟨id, .loop condition body, span, _⟩ => .plain id (.loop condition.erase body.erase) span
  | ⟨id, .leave _, span, _⟩ => .plain id (.leave none) span
  | ⟨id, .next _, span, _⟩ => .plain id (.next none) span
  | ⟨id, .ret value _, span, _⟩ => .plain id (.ret (value.map Expr.erase) none) span

/-- The block without what the type checker found out. -/
def Block.erase : Block → Block
  | ⟨id, items, span, _, _⟩ => .plain id (BlockItem.eraseAll items) span

/-- The items without what the type checker found out. -/
def BlockItem.eraseAll : List BlockItem → List BlockItem
  | [] => []
  | .decl d :: rest => .decl d.erase :: BlockItem.eraseAll rest
  | .stmt s :: rest => .stmt s.erase :: BlockItem.eraseAll rest

end

/-- The definition of a function. -/
structure FuncDef where
  id : NodeId
  name : String
  returns : BasicType
  params : List Param
  body : Block
  span : Span
  /-- The function it defines. -/
  function : Option FunctionId := none
  /-- The scope of its parameters. -/
  scope : Option ScopeId := none

/-- The definition without what the type checker found out. -/
def FuncDef.erase (f : FuncDef) : FuncDef :=
  { f with
    params := f.params.map Param.erase
    body := f.body.erase
    function := none
    scope := none }

/-- What a program is made of. -/
inductive Item where
  | decl (decl : Decl)
  | func (func : FuncDef)

namespace Item

/-- Where it stands. -/
def span : Item → Span
  | decl d => d.span
  | func f => f.span

/-- The item without what the type checker found out. -/
def erase : Item → Item
  | decl d => .decl d.erase
  | func f => .func f.erase

end Item

/-- A whole program. -/
structure Program where
  id : NodeId
  items : List Item
  span : Span

/-- The program without what the type checker found out. -/
def Program.erase (p : Program) : Program :=
  { p with items := p.items.map Item.erase }

end CactLang
