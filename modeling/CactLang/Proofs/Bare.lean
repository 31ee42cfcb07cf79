import CactLang.Tree.Stmt
import Mathlib.Data.List.Forall2

/-!
# Trees without identities and spans

`bare` puts one identity and one span on every node. Two trees are bare alike if they
differ in nothing else.

> `t'.bare = t.erase.bare`: `t'` is `t` as it is read, with identities and spans of its
> own and nothing known about it yet.
-/

namespace CactLang

/-! ## Expressions -/

mutual

/-- The expression without identities and spans. -/
def Expr.bare : Expr → Expr
  | ⟨_, .number text kind, _, info⟩ => ⟨default, .number text kind, default, info⟩
  | ⟨_, .bool value, _, info⟩ => ⟨default, .bool value, default, info⟩
  | ⟨_, .lvalue lvalue, _, info⟩ => ⟨default, .lvalue lvalue.bare, default, info⟩
  | ⟨_, .paren inner, _, info⟩ => ⟨default, .paren inner.bare, default, info⟩
  | ⟨_, .unary operator operand, _, info⟩ =>
    ⟨default, .unary operator operand.bare, default, info⟩
  | ⟨_, .binary operator left right, _, info⟩ =>
    ⟨default, .binary operator left.bare right.bare, default, info⟩
  | ⟨_, .call callee arguments function, _, info⟩ =>
    ⟨default, .call callee (Expr.bareAll arguments) function, default, info⟩

/-- The variable without identities and spans. -/
def LValue.bare : LValue → LValue
  | ⟨_, name, indices, _, symbol, assignable⟩ =>
    ⟨default, name, Expr.bareAll indices, default, symbol, assignable⟩

/-- The expressions without identities and spans. -/
def Expr.bareAll : List Expr → List Expr
  | [] => []
  | e :: es => e.bare :: Expr.bareAll es

end

/-! ## Declarations -/

/-- The dimension without its span. -/
def Dimension.bare (d : Dimension) : Dimension :=
  { d with span := default }

mutual

/-- The initializer without identities and spans. -/
def Initializer.bare : Initializer → Initializer
  | .scalar _ value _ => .scalar default value.bare default
  | .list _ items _ => .list default (Initializer.bareAll items) default

/-- The initializers without identities and spans. -/
def Initializer.bareAll : List Initializer → List Initializer
  | [] => []
  | i :: is => i.bare :: Initializer.bareAll is

end

/-- The definition without identities and spans. -/
def VarDef.bare (d : VarDef) : VarDef :=
  { d with
    id := default
    dims := d.dims.map Dimension.bare
    init := d.init.map Initializer.bare
    span := default }

/-- The declaration without identities and spans. -/
def Decl.bare (d : Decl) : Decl :=
  { d with id := default, defs := d.defs.map VarDef.bare, span := default }

/-- The parameter without identities and spans. -/
def Param.bare (p : Param) : Param :=
  { p with id := default, dims := p.dims.map Dimension.bare, span := default }

/-! ## Statements -/

mutual

/-- The statement without identities and spans; the loop that a jump leaves is named by
an identity. -/
def Stmt.bare : Stmt → Stmt
  | ⟨_, .assign target value, _, hasReturn⟩ =>
    ⟨default, .assign target.bare value.bare, default, hasReturn⟩
  | ⟨_, .expr value, _, hasReturn⟩ => ⟨default, .expr (value.map Expr.bare), default, hasReturn⟩
  | ⟨_, .block block, _, hasReturn⟩ => ⟨default, .block block.bare, default, hasReturn⟩
  | ⟨_, .cond test thenBranch none, _, hasReturn⟩ =>
    ⟨default, .cond test.bare thenBranch.bare none, default, hasReturn⟩
  | ⟨_, .cond test thenBranch (some elseBranch), _, hasReturn⟩ =>
    ⟨default, .cond test.bare thenBranch.bare (some elseBranch.bare), default, hasReturn⟩
  | ⟨_, .loop test body, _, hasReturn⟩ =>
    ⟨default, .loop test.bare body.bare, default, hasReturn⟩
  | ⟨_, .leave target, _, hasReturn⟩ =>
    ⟨default, .leave (target.map fun _ => default), default, hasReturn⟩
  | ⟨_, .next target, _, hasReturn⟩ =>
    ⟨default, .next (target.map fun _ => default), default, hasReturn⟩
  | ⟨_, .ret value function, _, hasReturn⟩ =>
    ⟨default, .ret (value.map Expr.bare) function, default, hasReturn⟩

/-- The block without identities and spans. -/
def Block.bare : Block → Block
  | ⟨_, items, _, scope, hasReturn⟩ =>
    ⟨default, BlockItem.bareAll items, default, scope, hasReturn⟩

/-- The items without identities and spans. -/
def BlockItem.bareAll : List BlockItem → List BlockItem
  | [] => []
  | .decl d :: rest => .decl d.bare :: BlockItem.bareAll rest
  | .stmt s :: rest => .stmt s.bare :: BlockItem.bareAll rest

end

/-! ## Programs -/

/-- The function definition without identities and spans. -/
def FuncDef.bare (f : FuncDef) : FuncDef :=
  { f with
    id := default
    params := f.params.map Param.bare
    body := f.body.bare
    span := default }

/-- The item without identities and spans. -/
def Item.bare : Item → Item
  | decl d => .decl d.bare
  | func f => .func f.bare

/-- The program without identities and spans. -/
def Program.bare (p : Program) : Program :=
  { id := default, items := p.items.map Item.bare, span := default }

/-! ## Trees as they are read -/

/-- `e'` is `e` as it is read. -/
def Expr.IsRead (e' e : Expr) : Prop :=
  e'.bare = e.erase.bare

/-- `l'` is `l` as it is read. -/
def LValue.IsRead (l' l : LValue) : Prop :=
  l'.bare = l.erase.bare

/-- `i'` is `i` as it is read. -/
def Initializer.IsRead (i' i : Initializer) : Prop :=
  i'.bare = i.erase.bare

/-- `d'` is `d` as it is read. -/
def Dimension.IsRead (d' d : Dimension) : Prop :=
  d'.bare = d.bare

/-- `d'` is `d` as it is read. -/
def VarDef.IsRead (d' d : VarDef) : Prop :=
  d'.bare = d.erase.bare

/-- `d'` is `d` as it is read. -/
def Decl.IsRead (d' d : Decl) : Prop :=
  d'.bare = d.erase.bare

/-- `p'` is `p` as it is read. -/
def Param.IsRead (p' p : Param) : Prop :=
  p'.bare = p.erase.bare

/-- `s'` is `s` as it is read. -/
def Stmt.IsRead (s' s : Stmt) : Prop :=
  s'.bare = s.erase.bare

/-- `b'` is `b` as it is read. -/
def Block.IsRead (b' b : Block) : Prop :=
  b'.bare = b.erase.bare

/-- `i'` is `i` as it is read. -/
inductive BlockItem.IsRead : BlockItem → BlockItem → Prop where
  | decl {d' d : Decl} (h : d'.IsRead d) : IsRead (.decl d') (.decl d)
  | stmt {s' s : Stmt} (h : s'.IsRead s) : IsRead (.stmt s') (.stmt s)

/-- `f'` is `f` as it is read. -/
def FuncDef.IsRead (f' f : FuncDef) : Prop :=
  f'.bare = f.erase.bare

/-- `i'` is `i` as it is read. -/
def Item.IsRead (i' i : Item) : Prop :=
  i'.bare = i.erase.bare

/-- `p'` is `p` as it is read. -/
def Program.IsRead (p' p : Program) : Prop :=
  p'.bare = p.erase.bare

/-- Lists that agree item by item have the same images. -/
theorem map_eq_map {α β γ : Type} {f : α → γ} {g : β → γ} {as : List α} {bs : List β}
    (h : List.Forall₂ (fun a b => f a = g b) as bs) : as.map f = bs.map g := by
  rw [← List.forall₂_eq_eq_eq, List.forall₂_map_left_iff, List.forall₂_map_right_iff]
  exact h

/-- Expressions are read back one by one. -/
theorem Expr.bareAll_eq {es' es : List Expr} (h : List.Forall₂ Expr.IsRead es' es) :
    Expr.bareAll es' = Expr.bareAll (Expr.eraseAll es) := by
  induction h with
  | nil => rfl
  | cons he _ ih =>
    rw [Expr.bareAll, Expr.eraseAll, Expr.bareAll, ih, he]

/-- Initial values are read back one by one. -/
theorem Initializer.bareAll_eq {is' is : List Initializer}
    (h : List.Forall₂ Initializer.IsRead is' is) :
    Initializer.bareAll is' = Initializer.bareAll (Initializer.eraseAll is) := by
  induction h with
  | nil => rfl
  | cons hi _ ih =>
    rw [Initializer.bareAll, Initializer.eraseAll, Initializer.bareAll, ih, hi]

namespace Expr.IsRead

variable {id id' : NodeId} {span span' : Span} {info : Option ExprInfo}

theorem number {text : String} {kind : NumberKind} :
    IsRead (.plain id' (.number text kind) span') ⟨id, .number text kind, span, info⟩ :=
  rfl

theorem bool {value : Bool} :
    IsRead (.plain id' (.bool value) span') ⟨id, .bool value, span, info⟩ :=
  rfl

theorem lvalue {l' l : LValue} (h : l'.IsRead l) :
    IsRead (.plain id' (.lvalue l') span') ⟨id, .lvalue l, span, info⟩ :=
  congrArg (fun l => plain default (.lvalue l) default) h

theorem paren {e' e : Expr} (h : e'.IsRead e) :
    IsRead (.plain id' (.paren e') span') ⟨id, .paren e, span, info⟩ :=
  congrArg (fun e => plain default (.paren e) default) h

theorem unary {op : Operator} {e' e : Expr} (h : e'.IsRead e) :
    IsRead (.plain id' (.unary op e') span') ⟨id, .unary op e, span, info⟩ :=
  congrArg (fun e => plain default (.unary op e) default) h

theorem binary {op : Operator} {l' l r' r : Expr} (hl : l'.IsRead l) (hr : r'.IsRead r) :
    IsRead (.plain id' (.binary op l' r') span') ⟨id, .binary op l r, span, info⟩ :=
  congrArg₂ (fun l r => plain default (.binary op l r) default) hl hr

/-- A call is read back with its arguments, and without the function it was found to call. -/
theorem call {callee : String} {es' es : List Expr} {f : Option FunctionId}
    (h : List.Forall₂ IsRead es' es) :
    IsRead (.plain id' (.call callee es' none) span') ⟨id, .call callee es f, span, info⟩ :=
  congrArg (fun es => plain default (.call callee es none) default) (bareAll_eq h)

end Expr.IsRead

/-- A variable is read back with its indices, and without what it was found to be. -/
theorem LValue.IsRead.mk {id id' : NodeId} {name : String} {es' es : List Expr}
    {span span' : Span} {symbol : Option SymbolId} {assignable : Bool}
    (h : List.Forall₂ Expr.IsRead es' es) :
    LValue.IsRead (.plain id' name es' span') ⟨id, name, es, span, symbol, assignable⟩ :=
  congrArg (fun es => LValue.plain default name es default) (Expr.bareAll_eq h)

/-- An expression that is read for a variable is a variable. -/
theorem Expr.IsRead.exists_lvalue {e' : Expr} {id : NodeId} {l : LValue} {span : Span}
    {info : Option ExprInfo} (h : e'.IsRead ⟨id, .lvalue l, span, info⟩) :
    ∃ l', e'.kind = .lvalue l' ∧ l'.IsRead l := by
  obtain ⟨id', kind, span', info'⟩ := e'
  cases kind with
  | lvalue l' => exact ⟨l', rfl, ExprKind.lvalue.inj (Expr.mk.inj h).2.1⟩
  | _ => exact ExprKind.noConfusion (Expr.mk.inj h).2.1

theorem Dimension.IsRead.mk {text : String} {span span' : Span} :
    Dimension.IsRead ⟨text, span'⟩ ⟨text, span⟩ :=
  rfl

theorem Initializer.IsRead.scalar {id id' : NodeId} {e' e : Expr} {span span' : Span}
    (h : e'.IsRead e) : Initializer.IsRead (.scalar id' e' span') (.scalar id e span) :=
  congrArg (fun e => Initializer.scalar default e default) h

theorem Initializer.IsRead.list {id id' : NodeId} {is' is : List Initializer} {span span' : Span}
    (h : List.Forall₂ IsRead is' is) :
    Initializer.IsRead (.list id' is' span') (.list id is span) :=
  congrArg (fun is => Initializer.list default is default) (bareAll_eq h)

/-- A definition is read back with its dimensions and its initial value. -/
theorem VarDef.IsRead.mk {d : VarDef} {id' : NodeId} {dims' : List Dimension}
    {init' : Option Initializer} {span' : Span}
    (hdims : List.Forall₂ Dimension.IsRead dims' d.dims)
    (hinit : Option.Rel Initializer.IsRead init' d.init) :
    VarDef.IsRead { id := id', name := d.name, dims := dims', init := init', span := span' } d := by
  obtain ⟨id, name, dims, init, span, symbol⟩ := d
  have hinit' : init'.map Initializer.bare = (init.map Initializer.erase).map Initializer.bare := by
    cases hinit with
    | none => rfl
    | some h => exact congrArg some h
  simp only [IsRead, erase, bare, hinit', map_eq_map hdims]

/-- A declaration is read back with its definitions. -/
theorem Decl.IsRead.mk {d : Decl} {id' : NodeId} {defs' : List VarDef} {span' : Span}
    (hdefs : List.Forall₂ VarDef.IsRead defs' d.defs) :
    Decl.IsRead ⟨id', d.isConstant, d.basic, defs', span'⟩ d := by
  have hdefs' : defs'.map VarDef.bare = (d.defs.map VarDef.erase).map VarDef.bare := by
    rw [List.map_map]
    exact map_eq_map hdefs
  simp only [IsRead, erase, bare, hdefs']

/-- A parameter is read back with its dimensions. -/
theorem Param.IsRead.mk {p : Param} {id' : NodeId} {dims' : List Dimension} {span' : Span}
    (hdims : List.Forall₂ Dimension.IsRead dims' p.dims) :
    Param.IsRead
      { id := id'
        name := p.name
        basic := p.basic
        isOpen := p.isOpen
        dims := dims'
        span := span' } p := by
  simp only [IsRead, erase, bare, map_eq_map hdims]

namespace Stmt.IsRead

variable {id id' : NodeId} {span span' : Span} {hasReturn : Bool}

theorem assign {l' l : LValue} {e' e : Expr} (hl : l'.IsRead l) (he : e'.IsRead e) :
    IsRead (.plain id' (.assign l' e') span') ⟨id, .assign l e, span, hasReturn⟩ :=
  congrArg₂ (fun l e => plain default (.assign l e) default) hl he

theorem expr {e' e : Option Expr} (h : Option.Rel Expr.IsRead e' e) :
    IsRead (.plain id' (.expr e') span') ⟨id, .expr e, span, hasReturn⟩ := by
  cases h with
  | none => rfl
  | some h => exact congrArg (fun e => plain default (.expr (some e)) default) h

theorem block {b' b : Block} (h : b'.IsRead b) :
    IsRead (.plain id' (.block b') span') ⟨id, .block b, span, hasReturn⟩ :=
  congrArg (fun b => plain default (.block b) default) h

/-- A condition is read back with its branches. -/
theorem cond {e' e : Expr} {s' s : Stmt} {t' t : Option Stmt} (he : e'.IsRead e)
    (hs : s'.IsRead s) (ht : Option.Rel IsRead t' t) :
    IsRead (.plain id' (.cond e' s' t') span') ⟨id, .cond e s t, span, hasReturn⟩ := by
  cases ht with
  | none => exact congrArg₂ (fun e s => plain default (.cond e s none) default) he hs
  | @some t' t ht =>
    show plain default (.cond e'.bare s'.bare (some t'.bare)) default =
      plain default (.cond e.erase.bare s.erase.bare (some t.erase.bare)) default
    rw [he, hs, ht]

theorem loop {e' e : Expr} {s' s : Stmt} (he : e'.IsRead e) (hs : s'.IsRead s) :
    IsRead (.plain id' (.loop e' s') span') ⟨id, .loop e s, span, hasReturn⟩ :=
  congrArg₂ (fun e s => plain default (.loop e s) default) he hs

theorem leave {target : Option NodeId} :
    IsRead (.plain id' (.leave none) span') ⟨id, .leave target, span, hasReturn⟩ :=
  rfl

theorem next {target : Option NodeId} :
    IsRead (.plain id' (.next none) span') ⟨id, .next target, span, hasReturn⟩ :=
  rfl

theorem ret {e' e : Option Expr} {function : Option FunctionId}
    (h : Option.Rel Expr.IsRead e' e) :
    IsRead (.plain id' (.ret e' none) span') ⟨id, .ret e function, span, hasReturn⟩ := by
  cases h with
  | none => rfl
  | some h => exact congrArg (fun e => plain default (.ret (some e) none) default) h

end Stmt.IsRead

/-- The items of a block are read back one by one. -/
theorem BlockItem.bareAll_eq {is' is : List BlockItem} (h : List.Forall₂ BlockItem.IsRead is' is) :
    BlockItem.bareAll is' = BlockItem.bareAll (BlockItem.eraseAll is) := by
  induction h with
  | nil => rfl
  | cons hi _ ih =>
    cases hi with
    | decl h =>
      rw [BlockItem.bareAll, BlockItem.eraseAll, BlockItem.bareAll, ih, h]
    | stmt h =>
      rw [BlockItem.bareAll, BlockItem.eraseAll, BlockItem.bareAll, ih, h]

/-- A block is read back with its items. -/
theorem Block.IsRead.mk {id id' : NodeId} {is' is : List BlockItem} {span span' : Span}
    {scope : Option ScopeId} {hasReturn : Bool} (h : List.Forall₂ BlockItem.IsRead is' is) :
    Block.IsRead (.plain id' is' span') ⟨id, is, span, scope, hasReturn⟩ :=
  congrArg (fun is => Block.plain default is default) (BlockItem.bareAll_eq h)

/-- A function definition is read back with its parameters and its body. -/
theorem FuncDef.IsRead.mk {f : FuncDef} {id' : NodeId} {params' : List Param} {body' : Block}
    {span' : Span} (hparams : List.Forall₂ Param.IsRead params' f.params)
    (hbody : body'.IsRead f.body) :
    FuncDef.IsRead
      { id := id'
        name := f.name
        returns := f.returns
        params := params'
        body := body'
        span := span' } f := by
  have hparams' : params'.map Param.bare = (f.params.map Param.erase).map Param.bare := by
    rw [List.map_map]
    exact map_eq_map hparams
  simp only [IsRead, erase, bare, hparams', show body'.bare = f.body.erase.bare from hbody]

theorem Item.IsRead.decl {d' d : Decl} (h : d'.IsRead d) : Item.IsRead (.decl d') (.decl d) :=
  congrArg Item.decl h

theorem Item.IsRead.func {f' f : FuncDef} (h : f'.IsRead f) : Item.IsRead (.func f') (.func f) :=
  congrArg Item.func h

/-- A program is read back with its items. -/
theorem Program.IsRead.mk {id id' : NodeId} {is' is : List Item} {span span' : Span}
    (h : List.Forall₂ Item.IsRead is' is) : Program.IsRead ⟨id', is', span'⟩ ⟨id, is, span⟩ := by
  have his : is'.map Item.bare = (is.map Item.erase).map Item.bare := by
    rw [List.map_map]
    exact map_eq_map h
  simp only [IsRead, erase, bare, his]

end CactLang
