import CactLang.Literal.Decimal
import CactLang.Tree.Stmt
import Mathlib.Data.List.Forall2

/-!
# The typing rules

The type system of the language, said without registries and handles. A program is
judged in an environment, a stack of frames that map names to variables, and a table
that maps names to functions.

> `WellTyped note withBuiltins p`: the rules derive the program `p`.

A block pushes an empty frame, and what it declares is gone after it. A definition is
judged before its name enters the innermost frame. A function enters the table before
its parameters and its body are judged, so it may call itself; its parameters stand in
one frame and its body in the next.

The rules do not read what a tree knows already. In place of that they take a relation
`note` between an expression and what is derived for it, and ask for it at every
expression they derive. With `Unread` they ask for nothing; with `Noted`, for a tree
that carries what they derive.
-/

namespace CactLang.Rules

/-! ## Environments -/

/-- What the rules know of a variable. -/
structure Variable where
  ty : Ty
  isConstant : Bool
  deriving DecidableEq, Repr

/-- What the rules know of a function. -/
structure Prototype where
  returns : Ty
  parameters : List Ty
  deriving DecidableEq, Repr

/-- The variables declared in one block, in order. -/
abbrev Frame := List (String × Variable)

/-- The frames around a place in the program, the innermost first. -/
abbrev Env := List Frame

/-- The functions declared so far. -/
abbrev Table := List (String × Prototype)

/-- The variable a name stands for: that of the innermost frame that has the name. -/
def Env.variable? (Γ : Env) (name : String) : Option Variable :=
  Γ.findSome? (·.lookup name)

/-- A name may enter the innermost frame if it is new there. In the outermost frame
it must not be a function's either. -/
def Env.Free (F : Table) : Env → String → Prop
  | [], _ => False
  | [frame], name => frame.lookup name = none ∧ F.lookup name = none
  | frame :: _ :: _, name => frame.lookup name = none

/-- The environment with one more variable in the innermost frame. -/
def Env.add : Env → String → Variable → Env
  | [], _, _ => []
  | frame :: outer, name, x => (frame ++ [(name, x)]) :: outer

/-! ## Literals, operators and arguments -/

/-- A literal has a value in its type. The integer `2 ^ 31` has one only directly
after a minus sign. -/
inductive Denotes : (negated : Bool) → NumberKind → String → Prop where
  | integer {negated : Bool} {text : String} {value : Int} :
      Literal.integer? text.toList = some value → value < 2147483648 →
      Denotes negated .integer text
  | lowest {text : String} :
      Literal.integer? text.toList = some 2147483648 → Denotes true .integer text
  | float {negated : Bool} {text : String} :
      Literal.denotesBelow Literal.floatBound (Literal.withoutSuffix text.toList) = true →
      Denotes negated .float text
  | double {negated : Bool} {text : String} :
      Literal.denotesBelow Literal.doubleBound text.toList = true →
      Denotes negated .double text

/-- A dimension is a positive integer literal that is less than `2 ^ 32`. -/
def Extends (dim : Dimension) (extent : Nat) : Prop :=
  Literal.integer? dim.text.toList = some (extent : Int) ∧ 0 < extent ∧ extent < 4294967296

/-- The operators in front of an operand: the type they take and the type they give. -/
inductive Applies : Operator → Ty → Ty → Prop where
  | pass (t : Ty) : Applies .nop t t
  | sign {op : Operator} {b : BasicType} :
      op ∈ [.plus, .neg] → b.isNumeric = true → Applies op (.scalar b) (.scalar b)
  | not : Applies .not (.scalar .bool) (.scalar .bool)

/-- The operators between two scalars of one kind: the kind they take and the kind
they give. -/
inductive Joins : Operator → BasicType → BasicType → Prop where
  | pass {b : BasicType} : b ≠ .void → Joins .nop b b
  | arithmetic {op : Operator} {b : BasicType} :
      op ∈ [.add, .sub, .mul, .div] → b.isNumeric = true → Joins op b b
  | mod : Joins .mod .int32 .int32
  | order {op : Operator} {b : BasicType} :
      op ∈ [.less, .lessEqual, .greater, .greaterEqual] → b.isNumeric = true →
      Joins op b .bool
  | equality {op : Operator} {b : BasicType} :
      op ∈ [.equal, .notEqual] → b ≠ .void → Joins op b .bool
  | logic {op : Operator} : op ∈ [.and, .or] → Joins op .bool .bool

/-- A parameter takes an argument of its own type. One whose outermost dimension is
open takes every extent there. -/
inductive Takes : (parameter argument : Ty) → Prop where
  | same (t : Ty) : Takes t t
  | unsized (basic : BasicType) (extent : Nat) (inner : List Nat) :
      Takes ⟨basic, 0 :: inner⟩ ⟨basic, extent :: inner⟩

/-! ## Expressions -/

/-- Nothing is asked of the tree. -/
def Unread (_ : Expr) (_ : ExprInfo) : Prop :=
  True

/-- The tree carries what is derived. -/
def Noted (e : Expr) (i : ExprInfo) : Prop :=
  e.info = some i

section Expressions

variable (note : Expr → ExprInfo → Prop) (F : Table) (Γ : Env)

mutual

/-- An expression is judged by its form; `negated` says that it stands directly after
a minus sign. -/
inductive HasType : (negated : Bool) → Expr → ExprInfo → Prop where
  | intro {negated : Bool} {e : Expr} {i : ExprInfo} :
      FormHasType negated e.kind i → note e i → HasType negated e i

/-- What is derived for a form of expression: its type, whether it is constant, and
whether it can be assigned to. -/
inductive FormHasType : (negated : Bool) → ExprKind → ExprInfo → Prop where
  | number {negated : Bool} {text : String} {kind : NumberKind} :
      Denotes negated kind text →
      FormHasType negated (.number text kind) ⟨.scalar kind.basic, true, false⟩
  | bool {negated value : Bool} :
      FormHasType negated (.bool value) ⟨.scalar .bool, true, false⟩
  | lvalue {negated : Bool} {l : LValue} {x : Variable} {ty : Ty} :
      LValueHasType l x ty → FormHasType negated (.lvalue l) ⟨ty, false, !x.isConstant⟩
  | paren {negated : Bool} {inner : Expr} {i : ExprInfo} :
      HasType false inner i →
      FormHasType negated (.paren inner) ⟨i.ty, i.isConstant, false⟩
  | unary {negated : Bool} {op : Operator} {operand : Expr} {i : ExprInfo} {ty : Ty} :
      HasType (op = .neg) operand i → Applies op i.ty ty →
      FormHasType negated (.unary op operand) ⟨ty, i.isConstant, false⟩
  | binary {negated : Bool} {op : Operator} {left right : Expr} {i j : ExprInfo}
      {b c : BasicType} :
      HasType false left i → HasType false right j → i.ty = .scalar b → j.ty = .scalar b →
      Joins op b c →
      FormHasType negated (.binary op left right) ⟨.scalar c, i.isConstant && j.isConstant, false⟩
  | call {negated : Bool} {callee : String} {arguments : List Expr}
      {function : Option FunctionId} {f : Prototype} :
      F.lookup callee = some f → ArgumentsTaken arguments f.parameters →
      FormHasType negated (.call callee arguments function) ⟨f.returns, false, false⟩

/-- A name stands for a variable, and each index takes one dimension off its type. -/
inductive LValueHasType : LValue → Variable → Ty → Prop where
  | intro {l : LValue} {x : Variable} :
      Γ.variable? l.name = some x → l.indices.length ≤ x.ty.rank → IndicesTyped l.indices →
      LValueHasType l x (x.ty.indexed l.indices.length)

/-- Every index is an `int32`. -/
inductive IndicesTyped : List Expr → Prop where
  | nil : IndicesTyped []
  | cons {e : Expr} {es : List Expr} {i : ExprInfo} :
      HasType false e i → i.ty = .scalar .int32 → IndicesTyped es → IndicesTyped (e :: es)

/-- There are as many arguments as parameters, and each is taken by its parameter. -/
inductive ArgumentsTaken : List Expr → List Ty → Prop where
  | nil : ArgumentsTaken [] []
  | cons {e : Expr} {es : List Expr} {i : ExprInfo} {p : Ty} {ps : List Ty} :
      HasType false e i → Takes p i.ty → ArgumentsTaken es ps →
      ArgumentsTaken (e :: es) (p :: ps)

end

/-- An initializer fits a type inside `depth` of its dimensions. Lists nest like the
dimensions and have as many items as those say; only an innermost one may leave items
out. An array may also be given one flat list of scalars, as many as its outermost
dimension says. -/
inductive Fits (target : Ty) : (depth : Nat) → Initializer → Prop where
  | scalar {id : NodeId} {value : Expr} {span : Span} {i : ExprInfo} :
      HasType note F Γ false value i → i.ty = .scalar target.basic → i.isConstant = true →
      Fits target target.rank (.scalar id value span)
  | nested {depth : Nat} {id : NodeId} {items : List Initializer} {span : Span} :
      depth + 1 < target.rank → target.dims[depth]? = some items.length →
      (∀ x ∈ items, Fits target (depth + 1) x) → Fits target depth (.list id items span)
  | innermost {depth extent : Nat} {id : NodeId} {items : List Initializer} {span : Span} :
      depth + 1 = target.rank → target.dims[depth]? = some extent → items.length ≤ extent →
      (∀ x ∈ items, Fits target (depth + 1) x) → Fits target depth (.list id items span)
  | flat {id : NodeId} {items : List Initializer} {span : Span} :
      target.dims[0]? = some items.length → items.all Initializer.isScalar = true →
      (∀ x ∈ items, Fits target target.rank x) → Fits target 0 (.list id items span)

end Expressions

/-! ## Declarations -/

section Declarations

variable (note : Expr → ExprInfo → Prop) (F : Table)

/-- Definitions, each judged before its name is declared: dimensions, then initializer. -/
inductive Defines (isConstant : Bool) (basic : BasicType) :
    Env → List VarDef → Env → Prop where
  | nil {Γ : Env} : Defines isConstant basic Γ [] Γ
  | cons {Γ Γ' : Env} {d : VarDef} {ds : List VarDef} {extents : List Nat} :
      List.Forall₂ Extends d.dims extents →
      (∀ x ∈ d.init, Fits note F Γ ⟨basic, extents⟩ 0 x) → Γ.Free F d.name →
      Defines isConstant basic (Γ.add d.name ⟨⟨basic, extents⟩, isConstant⟩) ds Γ' →
      Defines isConstant basic Γ (d :: ds) Γ'

/-- Parameters and their types. An open dimension counts as zero. -/
inductive Receives : Env → List Param → List Ty → Env → Prop where
  | nil {Γ : Env} : Receives Γ [] [] Γ
  | cons {Γ Γ' : Env} {p : Param} {ps : List Param} {extents : List Nat} {ty : Ty}
      {tys : List Ty} :
      List.Forall₂ Extends p.dims extents →
      ty = ⟨p.basic, if p.isOpen then 0 :: extents else extents⟩ → Γ.Free F p.name →
      Receives (Γ.add p.name ⟨ty, false⟩) ps tys Γ' → Receives Γ (p :: ps) (ty :: tys) Γ'

end Declarations

/-! ## Statements -/

section Statements

variable (note : Expr → ExprInfo → Prop) (F : Table) (returns : BasicType)

mutual

/-- A statement in a function that returns `returns`; `inLoop` says that a loop is
around it. -/
inductive Passes : (inLoop : Bool) → Env → StmtKind → Prop where
  | assign {inLoop : Bool} {Γ : Env} {target : LValue} {value : Expr} {x : Variable}
      {i : ExprInfo} :
      LValueHasType note F Γ target x i.ty → x.isConstant = false →
      HasType note F Γ false value i → Passes inLoop Γ (.assign target value)
  | empty {inLoop : Bool} {Γ : Env} : Passes inLoop Γ (.expr none)
  | expr {inLoop : Bool} {Γ : Env} {value : Expr} {i : ExprInfo} :
      HasType note F Γ false value i → Passes inLoop Γ (.expr (some value))
  | block {inLoop : Bool} {Γ : Env} {b : Block} :
      BlockPasses inLoop Γ b → Passes inLoop Γ (.block b)
  | cond {inLoop : Bool} {Γ : Env} {test : Expr} {thenBranch : Stmt} {i : ExprInfo} :
      HasType note F Γ false test i → i.ty = .scalar .bool →
      Passes inLoop Γ thenBranch.kind → Passes inLoop Γ (.cond test thenBranch none)
  | condElse {inLoop : Bool} {Γ : Env} {test : Expr} {thenBranch elseBranch : Stmt}
      {i : ExprInfo} :
      HasType note F Γ false test i → i.ty = .scalar .bool →
      Passes inLoop Γ thenBranch.kind → Passes inLoop Γ elseBranch.kind →
      Passes inLoop Γ (.cond test thenBranch (some elseBranch))
  | loop {inLoop : Bool} {Γ : Env} {test : Expr} {body : Stmt} {i : ExprInfo} :
      HasType note F Γ false test i → i.ty = .scalar .bool →
      Passes true Γ body.kind → Passes inLoop Γ (.loop test body)
  | leave {Γ : Env} {target : Option NodeId} : Passes true Γ (.leave target)
  | next {Γ : Env} {target : Option NodeId} : Passes true Γ (.next target)
  | done {inLoop : Bool} {Γ : Env} {function : Option FunctionId} :
      returns = .void → Passes inLoop Γ (.ret none function)
  | ret {inLoop : Bool} {Γ : Env} {value : Expr} {function : Option FunctionId}
      {i : ExprInfo} :
      returns ≠ .void → HasType note F Γ false value i → i.ty = .scalar returns →
      Passes inLoop Γ (.ret (some value) function)

/-- A block is judged in one more frame, which is gone after it. -/
inductive BlockPasses : (inLoop : Bool) → Env → Block → Prop where
  | intro {inLoop : Bool} {Γ : Env} {b : Block} :
      ItemsPass inLoop ([] :: Γ) b.items → BlockPasses inLoop Γ b

/-- The items of a block, each in the environment that those before it leave. -/
inductive ItemsPass : (inLoop : Bool) → Env → List BlockItem → Prop where
  | nil {inLoop : Bool} {Γ : Env} : ItemsPass inLoop Γ []
  | decl {inLoop : Bool} {Γ Γ' : Env} {d : Decl} {rest : List BlockItem} :
      Defines note F d.isConstant d.basic Γ d.defs Γ' → ItemsPass inLoop Γ' rest →
      ItemsPass inLoop Γ (.decl d :: rest)
  | stmt {inLoop : Bool} {Γ : Env} {t : Stmt} {rest : List BlockItem} :
      Passes inLoop Γ t.kind → ItemsPass inLoop Γ rest → ItemsPass inLoop Γ (.stmt t :: rest)

end

end Statements

/-! ## Programs -/

/-- The functions that every program may call. -/
def builtins : Table :=
  [("print_int", ⟨.scalar .void, [.scalar .int32]⟩),
    ("print_float", ⟨.scalar .void, [.scalar .float]⟩),
    ("print_double", ⟨.scalar .void, [.scalar .double]⟩),
    ("print_bool", ⟨.scalar .void, [.scalar .bool]⟩),
    ("get_int", ⟨.scalar .int32, []⟩),
    ("get_float", ⟨.scalar .float, []⟩),
    ("get_double", ⟨.scalar .double, []⟩)]

/-- The items of a program, each after those before it. The name of a function must
be new among the functions and the variables of the outermost frame. -/
inductive Declares (note : Expr → ExprInfo → Prop) : Table → Frame → List Item → Prop where
  | nil {F : Table} {globals : Frame} : Declares note F globals []
  | decl {F : Table} {globals globals' : Frame} {d : Decl} {rest : List Item} :
      Defines note F d.isConstant d.basic [globals] d.defs [globals'] →
      Declares note F globals' rest → Declares note F globals (.decl d :: rest)
  | func {F F' : Table} {globals : Frame} {f : FuncDef} {tys : List Ty} {Γ : Env}
      {rest : List Item} :
      F.lookup f.name = none → globals.lookup f.name = none →
      F' = F ++ [(f.name, ⟨.scalar f.returns, tys⟩)] →
      Receives F' [[], globals] f.params tys Γ →
      BlockPasses note F' f.returns false Γ f.body →
      Declares note F' globals rest → Declares note F globals (.func f :: rest)

/-- The rules derive a program. -/
def WellTyped (note : Expr → ExprInfo → Prop) (withBuiltins : Bool) (p : Program) : Prop :=
  Declares note (if withBuiltins then builtins else []) [] p.items

end CactLang.Rules
