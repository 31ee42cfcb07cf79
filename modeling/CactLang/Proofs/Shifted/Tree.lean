import CactLang.Proofs.RoundTrip

/-!
# Trees with shifted functions

With the built-in functions in front, every other function has a later handle. `shifted` puts
the later handles on a tree and changes nothing else.

> `parse_shifted`: a tree that was only read has no handles yet, so it stays as it is.
-/

namespace CactLang

/-- The handle of a function with the built-in ones in front. -/
def FunctionId.shifted (f : FunctionId) : FunctionId :=
  ⟨f.index + Registry.builtins.length⟩

/-- There are seven built-in functions. -/
theorem FunctionId.index_shifted (f : FunctionId) : f.shifted.index = f.index + 7 :=
  rfl

/-! ## Expressions -/

mutual

/-- The expression with shifted functions. -/
def Expr.shifted : Expr → Expr
  | ⟨id, kind, span, info⟩ => ⟨id, kind.shifted, span, info⟩

/-- The form of an expression with shifted functions. -/
def ExprKind.shifted : ExprKind → ExprKind
  | .number text kind => .number text kind
  | .bool value => .bool value
  | .lvalue l => .lvalue l.shifted
  | .paren inner => .paren inner.shifted
  | .unary operator operand => .unary operator operand.shifted
  | .binary operator left right => .binary operator left.shifted right.shifted
  | .call callee arguments function =>
    .call callee (Expr.allShifted arguments) (function.map FunctionId.shifted)

/-- The variable with shifted functions in its indices. -/
def LValue.shifted : LValue → LValue
  | ⟨id, name, indices, span, symbol, assignable⟩ =>
    ⟨id, name, Expr.allShifted indices, span, symbol, assignable⟩

/-- The expressions with shifted functions. -/
def Expr.allShifted : List Expr → List Expr
  | [] => []
  | e :: es => e.shifted :: Expr.allShifted es

end

theorem Expr.allShifted_eq_map (es : List Expr) : Expr.allShifted es = es.map Expr.shifted := by
  induction es with
  | nil => rfl
  | cons e es ih => rw [Expr.allShifted, ih, List.map_cons]

@[simp] theorem Expr.id_shifted (e : Expr) : e.shifted.id = e.id := by
  cases e
  rfl

@[simp] theorem Expr.span_shifted (e : Expr) : e.shifted.span = e.span := by
  cases e
  rfl

@[simp] theorem LValue.id_shifted (l : LValue) : l.shifted.id = l.id := by
  cases l
  rfl

@[simp] theorem LValue.name_shifted (l : LValue) : l.shifted.name = l.name := by
  cases l
  rfl

@[simp] theorem LValue.span_shifted (l : LValue) : l.shifted.span = l.span := by
  cases l
  rfl

@[simp] theorem LValue.assignable_shifted (l : LValue) :
    l.shifted.assignable = l.assignable := by
  cases l
  rfl

/-! ## Declarations -/

mutual

/-- The initializer with shifted functions. -/
def Initializer.shifted : Initializer → Initializer
  | .scalar id value span => .scalar id value.shifted span
  | .list id items span => .list id (Initializer.allShifted items) span

/-- The initializers with shifted functions. -/
def Initializer.allShifted : List Initializer → List Initializer
  | [] => []
  | x :: xs => x.shifted :: Initializer.allShifted xs

end

theorem Initializer.allShifted_eq_map (xs : List Initializer) :
    Initializer.allShifted xs = xs.map Initializer.shifted := by
  induction xs with
  | nil => rfl
  | cons x xs ih => rw [Initializer.allShifted, ih, List.map_cons]

@[simp] theorem Initializer.isScalar_shifted (x : Initializer) :
    x.shifted.isScalar = x.isScalar := by
  cases x <;> rfl

/-- The definition with shifted functions. -/
def VarDef.shifted (d : VarDef) : VarDef :=
  { d with init := d.init.map Initializer.shifted }

/-- The declaration with shifted functions. -/
def Decl.shifted (d : Decl) : Decl :=
  { d with defs := d.defs.map VarDef.shifted }

/-! ## Statements and programs -/

mutual

/-- The statement with shifted functions. -/
def Stmt.shifted : Stmt → Stmt
  | ⟨id, kind, span, hasReturn⟩ => ⟨id, kind.shifted, span, hasReturn⟩

/-- The form of a statement with shifted functions. -/
def StmtKind.shifted : StmtKind → StmtKind
  | .assign target value => .assign target.shifted value.shifted
  | .expr value => .expr (value.map Expr.shifted)
  | .block block => .block block.shifted
  | .cond test thenBranch none => .cond test.shifted thenBranch.shifted none
  | .cond test thenBranch (some elseBranch) =>
    .cond test.shifted thenBranch.shifted (some elseBranch.shifted)
  | .loop test body => .loop test.shifted body.shifted
  | .leave target => .leave target
  | .next target => .next target
  | .ret value function => .ret (value.map Expr.shifted) (function.map FunctionId.shifted)

/-- The block with shifted functions. -/
def Block.shifted : Block → Block
  | ⟨id, items, span, scope, hasReturn⟩ =>
    ⟨id, BlockItem.allShifted items, span, scope, hasReturn⟩

/-- The items of a block with shifted functions. -/
def BlockItem.allShifted : List BlockItem → List BlockItem
  | [] => []
  | .decl d :: rest => .decl d.shifted :: BlockItem.allShifted rest
  | .stmt t :: rest => .stmt t.shifted :: BlockItem.allShifted rest

end

@[simp] theorem Stmt.hasReturn_shifted (t : Stmt) : t.shifted.hasReturn = t.hasReturn := by
  cases t
  rfl

@[simp] theorem Block.hasReturn_shifted (b : Block) : b.shifted.hasReturn = b.hasReturn := by
  cases b
  rfl

/-- The function definition with shifted functions. -/
def FuncDef.shifted (f : FuncDef) : FuncDef :=
  { f with body := f.body.shifted, function := f.function.map FunctionId.shifted }

/-- The item with shifted functions. -/
def Item.shifted : Item → Item
  | .decl d => .decl d.shifted
  | .func f => .func f.shifted

/-- The program with shifted functions. -/
def Program.shifted (p : Program) : Program :=
  { p with items := p.items.map Item.shifted }

/-! ## Trees that were only read -/

mutual

/-- An expression that was read has no handles to shift. -/
theorem Expr.IsRead.shifted : ∀ {e : Expr}, e.IsRead e → e.shifted = e
  | ⟨_, .number _ _, _, _⟩, _ => rfl
  | ⟨_, .bool _, _, _⟩, _ => rfl
  | ⟨_, .lvalue l, _, _⟩, h => by
    have hl : l.IsRead l := ExprKind.lvalue.inj (Expr.mk.inj h).2.1
    rw [Expr.shifted, ExprKind.shifted, hl.shifted]
  | ⟨_, .paren inner, _, _⟩, h => by
    have hinner : inner.IsRead inner := ExprKind.paren.inj (Expr.mk.inj h).2.1
    rw [Expr.shifted, ExprKind.shifted, hinner.shifted]
  | ⟨_, .unary _ operand, _, _⟩, h => by
    have hoperand : operand.IsRead operand := (ExprKind.unary.inj (Expr.mk.inj h).2.1).2
    rw [Expr.shifted, ExprKind.shifted, hoperand.shifted]
  | ⟨_, .binary _ left right, _, _⟩, h => by
    obtain ⟨_, hl, hr⟩ := ExprKind.binary.inj (Expr.mk.inj h).2.1
    have hleft : left.IsRead left := hl
    have hright : right.IsRead right := hr
    rw [Expr.shifted, ExprKind.shifted, hleft.shifted, hright.shifted]
  | ⟨_, .call _ arguments _, _, _⟩, h => by
    obtain ⟨_, harguments, rfl⟩ := ExprKind.call.inj (Expr.mk.inj h).2.1
    rw [Expr.shifted, ExprKind.shifted, Expr.allShifted_of_read harguments, Option.map_none]

theorem LValue.IsRead.shifted : ∀ {l : LValue}, l.IsRead l → l.shifted = l
  | ⟨_, _, _, _, _, _⟩, h => by
    rw [LValue.shifted, Expr.allShifted_of_read (LValue.mk.inj h).2.2.1]

theorem Expr.allShifted_of_read :
    ∀ {es : List Expr}, Expr.bareAll es = Expr.bareAll (Expr.eraseAll es) →
      Expr.allShifted es = es
  | [], _ => rfl
  | e :: es, h => by
    obtain ⟨he, hes⟩ := List.cons.inj h
    have hread : e.IsRead e := he
    rw [Expr.allShifted, hread.shifted, Expr.allShifted_of_read hes]

end

mutual

/-- Initial values that were read have no handles to shift. -/
theorem Initializer.IsRead.shifted : ∀ {x : Initializer}, x.IsRead x → x.shifted = x
  | .scalar _ value _, h => by
    have hvalue : value.IsRead value := (Initializer.scalar.inj h).2.1
    rw [Initializer.shifted, hvalue.shifted]
  | .list _ _ _, h => by
    rw [Initializer.shifted, Initializer.allShifted_of_read (Initializer.list.inj h).2.1]

theorem Initializer.allShifted_of_read :
    ∀ {xs : List Initializer},
      Initializer.bareAll xs = Initializer.bareAll (Initializer.eraseAll xs) →
      Initializer.allShifted xs = xs
  | [], _ => rfl
  | x :: xs, h => by
    obtain ⟨hx, hxs⟩ := List.cons.inj h
    have hread : x.IsRead x := hx
    rw [Initializer.allShifted, hread.shifted, Initializer.allShifted_of_read hxs]

end

/-- Parts that are left as they are make a list that is left as it is. -/
theorem map_eq_self_of_read {α : Type} (bare erase : α → α) {shifted : α → α} {xs : List α}
    (h : ∀ x, bare x = bare (erase x) → shifted x = x)
    (hxs : xs.map bare = (xs.map erase).map bare) : xs.map shifted = xs := by
  rw [List.map_map, List.map_inj_left] at hxs
  exact (List.map_congr_left fun x hx => h x (hxs x hx)).trans (List.map_id xs)

/-- A definition that was read has no handles to shift. -/
theorem VarDef.IsRead.shifted {d : VarDef} (h : d.IsRead d) : d.shifted = d := by
  obtain ⟨id, name, dims, init, span, symbol⟩ := d
  cases init with
  | none => rfl
  | some init =>
    have hinit : init.IsRead init := Option.some.inj (VarDef.mk.inj h).2.2.2.1
    show VarDef.mk id name dims (some init.shifted) span symbol = _
    rw [hinit.shifted]

theorem Decl.IsRead.shifted {d : Decl} (h : d.IsRead d) : d.shifted = d := by
  have hdefs : d.defs.map VarDef.shifted = d.defs :=
    map_eq_self_of_read VarDef.bare VarDef.erase (fun _ hd => VarDef.IsRead.shifted hd)
      (Decl.mk.inj h).2.2.2.1
  rw [Decl.shifted, hdefs]

mutual

/-- A statement that was read has no handles to shift. -/
theorem Stmt.IsRead.shifted : ∀ {t : Stmt}, t.IsRead t → t.shifted = t
  | ⟨_, .assign target value, _, _⟩, h => by
    obtain ⟨hl, hr⟩ := StmtKind.assign.inj (Stmt.mk.inj h).2.1
    have htarget : target.IsRead target := hl
    have hvalue : value.IsRead value := hr
    rw [Stmt.shifted, StmtKind.shifted, htarget.shifted, hvalue.shifted]
  | ⟨_, .expr none, _, _⟩, _ => rfl
  | ⟨_, .expr (some value), _, _⟩, h => by
    have hvalue : value.IsRead value :=
      Option.some.inj (StmtKind.expr.inj (Stmt.mk.inj h).2.1)
    rw [Stmt.shifted, StmtKind.shifted, Option.map_some, hvalue.shifted]
  | ⟨_, .block b, _, _⟩, h => by
    have hblock : b.IsRead b := StmtKind.block.inj (Stmt.mk.inj h).2.1
    rw [Stmt.shifted, StmtKind.shifted, hblock.shifted]
  | ⟨_, .cond test thenBranch none, _, _⟩, h => by
    obtain ⟨he, ht, _⟩ := StmtKind.cond.inj (Stmt.mk.inj h).2.1
    have htest : test.IsRead test := he
    have hthen : thenBranch.IsRead thenBranch := ht
    rw [Stmt.shifted, StmtKind.shifted, htest.shifted, hthen.shifted]
  | ⟨_, .cond test thenBranch (some elseBranch), _, _⟩, h => by
    obtain ⟨he, ht, hf⟩ := StmtKind.cond.inj (Stmt.mk.inj h).2.1
    have htest : test.IsRead test := he
    have hthen : thenBranch.IsRead thenBranch := ht
    have helse : elseBranch.IsRead elseBranch := Option.some.inj hf
    rw [Stmt.shifted, StmtKind.shifted, htest.shifted, hthen.shifted, helse.shifted]
  | ⟨_, .loop test body, _, _⟩, h => by
    obtain ⟨he, hb⟩ := StmtKind.loop.inj (Stmt.mk.inj h).2.1
    have htest : test.IsRead test := he
    have hbody : body.IsRead body := hb
    rw [Stmt.shifted, StmtKind.shifted, htest.shifted, hbody.shifted]
  | ⟨_, .leave _, _, _⟩, _ => rfl
  | ⟨_, .next _, _, _⟩, _ => rfl
  | ⟨_, .ret none _, _, _⟩, h => by
    obtain ⟨_, rfl⟩ := StmtKind.ret.inj (Stmt.mk.inj h).2.1
    rfl
  | ⟨_, .ret (some value) _, _, _⟩, h => by
    obtain ⟨hv, rfl⟩ := StmtKind.ret.inj (Stmt.mk.inj h).2.1
    have hvalue : value.IsRead value := Option.some.inj hv
    rw [Stmt.shifted, StmtKind.shifted, Option.map_some, hvalue.shifted, Option.map_none]

theorem Block.IsRead.shifted : ∀ {b : Block}, b.IsRead b → b.shifted = b
  | ⟨_, _, _, _, _⟩, h => by
    rw [Block.shifted, BlockItem.allShifted_of_read (Block.mk.inj h).2.1]

theorem BlockItem.allShifted_of_read :
    ∀ {items : List BlockItem},
      BlockItem.bareAll items = BlockItem.bareAll (BlockItem.eraseAll items) →
      BlockItem.allShifted items = items
  | [], _ => rfl
  | .decl d :: rest, h => by
    obtain ⟨hd, hrest⟩ := List.cons.inj h
    have hread : d.IsRead d := BlockItem.decl.inj hd
    rw [BlockItem.allShifted, hread.shifted, BlockItem.allShifted_of_read hrest]
  | .stmt t :: rest, h => by
    obtain ⟨ht, hrest⟩ := List.cons.inj h
    have hread : t.IsRead t := BlockItem.stmt.inj ht
    rw [BlockItem.allShifted, hread.shifted, BlockItem.allShifted_of_read hrest]

end

/-- A function definition that was read has no handles to shift. -/
theorem FuncDef.IsRead.shifted {f : FuncDef} (h : f.IsRead f) : f.shifted = f := by
  obtain ⟨id, name, returns, params, body, span, function, scope⟩ := f
  obtain ⟨_, _, _, _, hb, _, hf, _⟩ := FuncDef.mk.inj h
  have hbody : body.IsRead body := hb
  have hfunction : function = none := hf
  rw [FuncDef.shifted, hbody.shifted, hfunction, Option.map_none]

theorem Item.IsRead.shifted : ∀ {i : Item}, i.IsRead i → i.shifted = i
  | .decl d, h => by
    have hd : d.IsRead d := Item.decl.inj h
    rw [Item.shifted, hd.shifted]
  | .func f, h => by
    have hf : f.IsRead f := Item.func.inj h
    rw [Item.shifted, hf.shifted]

/-- A program that was read has no handles to shift. -/
theorem Program.IsRead.shifted {p : Program} (h : p.IsRead p) : p.shifted = p := by
  have hitems : p.items.map Item.shifted = p.items :=
    map_eq_self_of_read Item.bare Item.erase (fun _ hi => Item.IsRead.shifted hi)
      (Program.mk.inj h).2.1
  rw [Program.shifted, hitems]

/-- Nothing is known yet about a program that was only read. -/
theorem parse_isRead {tokens : List Token} {file : String} {p : Program} {c : Cursor}
    (h : parse tokens file = .ok p c) : p.IsRead p := by
  obtain ⟨hspells, hinput, heof⟩ := parse_ok h
  have hwords : (Cursor.ofTokens tokens file).words =
      (Token.content tokens).map Token.word ++ c.words := by
    unfold Cursor.words
    rw [hinput, List.map_append]
  -- the words of the program are read once more, and that gives the same program
  obtain ⟨p', c', hparse, hread⟩ := parse_of_words hspells hwords fun w hw => by
    obtain rfl := Option.some.inj hw
    exact heof
  rw [h] at hparse
  cases hparse
  exact hread

/-- A tree that was parsed has no handles to shift. -/
theorem parse_shifted {tokens : List Token} {file : String} {p : Program} {c : Cursor}
    (h : parse tokens file = .ok p c) : p.shifted = p :=
  (parse_isRead h).shifted

end CactLang
