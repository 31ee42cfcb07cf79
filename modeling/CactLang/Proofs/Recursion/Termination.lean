import CactLang.Proofs.Recursion.Agreement
import Mathlib.Logic.Function.Iterate

/-!
# Reading terminates

The running definitions count their rounds and levels, the equations of `Recursion.unfold` count
nothing. A reader that is unfolded `n` times does as the running definitions do wherever fewer
than `n` tokens stand before the end of the input, and it does not matter what it was unfolded
from (`Recursion.Agrees.iterate`). So no count ever runs out, and a reader that does not count
comes to an end.

Not every call takes a token before it calls the next one: a statement may be an expression, and
so may an initializer. But an expression calls none of the two, so the chain is broken after one
such call. `Recursion.Agrees` gives statements and initializers one level more for it. Everything
else that is called over again has at least one token less, since the calls made on the way
gain one.
-/

namespace CactLang

open Phrase

variable {α : Type}

/-! ## Phrases without recursion -/

namespace Phrase

variable {next : Option TokenKind} {k : TokenKind} {n : Nat}

/-- A number is one token, and what it makes hangs on its kind alone. -/
theorem number_agree (hk : k ≠ .eof) : Agree (some k) n 1 number number := by
  refine .bind (.advance hk) fun token i hi => ?_
  cases NumberKind.ofToken? token.kind with
  | none => exact .throw _
  | some kind => exact .freshId fun id => .pure _

theorem truth_agree (hk : k ≠ .eof) : Agree (some k) n 1 truth truth := by
  refine .bind (.advance hk) fun token i hi => ?_
  exact .freshId fun id => .pure _

theorem basicType_agree (allowVoid : Bool) :
    Agree next n 1 (basicType allowVoid) (basicType allowVoid) := by
  -- each kind of token settles whether the phrase takes it
  refine .kind fun k => ?_
  cases allowVoid <;> cases k
  all_goals first
    | exact .bind (.advance (by decide)) fun _ _ _ => .pure _
    | exact .unexpected _

/-- A dimension is a number, after a sign or not. -/
theorem dimension_agree : Agree next n 1 dimension dimension := by
  refine .position fun start => .kind fun k => .ite (fun hdash => ?_) fun _ => ?_
  · refine .bind (.advance (hdash ▸ by decide)) fun dash i hi => ?_
    exact .bind_less (.expectHint (by decide) _) fun digits j hj => .spanFrom fun span => .pure _
  · exact .bind (.expectHint (by decide) _) fun digits i hi => .spanFrom fun span => .pure _

/-- The outermost dimension of a parameter may be left out. -/
theorem outerDimension_agree (hk : k ≠ .eof) :
    Agree (some k) n 1 outerDimension outerDimension := by
  refine .bind (.advance hk) fun bracket i hi => ?_
  refine .kind fun k => .ite (fun _ => ?_) fun _ => ?_
  · refine .bind_less (.pure none) fun dim j hj => ?_
    exact .bind_less (.expect (by decide)) fun _ _ _ => .pure _
  · refine .bind_less (.map some dimension_agree) fun dim j hj => ?_
    exact .bind_less (.expect (by decide)) fun _ _ _ => .pure _

theorem emptyStmt_agree (hk : k ≠ .eof) : Agree (some k) n 1 emptyStmt emptyStmt := by
  exact .bind (.advance hk) fun semicolon i hi => .node

theorem jumpStmt_agree (hk : k ≠ .eof) (jump : StmtKind) :
    Agree (some k) n 1 (jumpStmt jump) (jumpStmt jump) := by
  refine .bind (.advance hk) fun keyword i hi => ?_
  exact .bind_less (.expect (by decide)) fun semicolon j hj => .node

end Phrase

/-! ## Recursion -/

/-- What is called over again agrees with the running definitions wherever fewer than `n` tokens
are left. An initializer and a statement may call an expression before they take a token, so
they need one more level. -/
structure Recursion.Agrees (r : Recursion) (n : Nat) : Prop where
  many : ∀ {α : Type} {more : TokenKind → Bool} {item item' : Phrase α} {l rounds : Nat},
    more .eof = false → l < n → l ≤ rounds →
      (∀ k, more k = true → Agree (some k) l 1 item item') →
      Agree none l 0 (manyWithin more item rounds) (r.many more item')
  extend : ∀ {l levels rounds : Nat} (b : Precedence) (left : Expr), l < n → l ≤ levels →
    l ≤ rounds → Agree none l 0 (extendWith (exprWithin levels) b rounds left) (r.extend b left)
  expr : ∀ {l levels : Nat} (b : Precedence), l < n → l < levels →
    Agree none l 1 (exprWithin levels b) (r.expr b)
  initializer : ∀ {l levels : Nat}, l + 1 < n → l < levels →
    Agree none l 1 (initializerWithin levels) r.initializer
  stmt : ∀ {l levels : Nat}, l + 1 < n → l < levels →
    Agree none l 1 (stmtWithin levels) r.stmt

namespace Recursion.Agrees

variable {r : Recursion} {n l : Nat} {next : Option TokenKind} {k : TokenKind} (o : Oversight)

/-! ### Lists -/

section

variable {more : TokenKind → Bool} {item item' : Phrase α}

/-- The running loop allows a round for each token, and a round takes one. -/
theorem many_agree (h : r.Agrees n) (heof : more .eof = false) (hl : l < n)
    (hitem : ∀ k, more k = true → Agree (some k) l 1 item item') :
    Agree none l 0 (Phrase.many more item) (r.many more item') := by
  intro c c' hc hk hn
  have hitem' : ∀ k, more k = true → Agree (some k) c.remaining 1 item item' := by
    intro k hk
    exact (hitem k hk).mono hn
  exact h.many heof (Nat.lt_of_le_of_lt hn hl) hc.closed.1.remaining_le hitem' hc hk
    (Nat.le_refl _)

/-- After the first item, a comma is taken before each of the others. -/
theorem commaSeparated_agree (h : r.Agrees n) (hl : l ≤ n) (hitem : Agree none l 1 item item') :
    Agree none l 1 (Phrase.commaSeparated item) (r.commaSeparated item') := by
  refine .bind hitem fun first i hi => ?_
  refine .bind_less (h.many_agree rfl (by omega) fun k hk => ?_) fun rest j hj => .pure _
  have hcomma : k ≠ .eof := of_decide_eq_true hk ▸ by decide
  exact .seqRight hcomma fun j hj => hitem.mono (by omega)

theorem listUntil_agree (h : r.Agrees n) (hl : l ≤ n) {close : TokenKind} (hclose : close ≠ .eof)
    (hitem : Agree none l 1 item item') :
    Agree none l 0 (Phrase.listUntil close item) (r.listUntil close item') := by
  refine .kind fun k => .ite (fun _ => ?_) fun _ => ?_
  · refine .bind_less (.pure []) fun items i hi => ?_
    exact .bind_less (.expect hclose) fun _ _ _ => .pure _
  · refine .bind_less (h.commaSeparated_agree hl hitem).anywhere fun items i hi => ?_
    exact .bind_less (.expect hclose) fun _ _ _ => .pure _

theorem bracketed_agree (h : r.Agrees n) (hl : l < n) (hitem : Agree none l 1 item item') :
    Agree none l 0 (Phrase.bracketed item) (r.bracketed item') := by
  refine h.many_agree rfl hl fun k hk => ?_
  have hbracket : k ≠ .eof := of_decide_eq_true hk ▸ by decide
  refine .bind (.advance hbracket) fun bracket i hi => ?_
  refine .bind_less (hitem.mono (by omega)) fun a j hj => ?_
  exact .bind_less (.expect (by decide)) fun _ _ _ => .pure _

end

/-! ### Expressions -/

/-- The call of an expression, at a level of the running definition that is high enough. -/
theorem inner_agree (h : r.Agrees n) (b : Precedence) (hl : l < n) {levels : Nat}
    (hlevels : l < levels) : Agree none l 1 (exprWithin levels b) (r.inner o b) :=
  (h.expr b hl hlevels).call o

/-- The running definition starts with a level for each token, which is high enough. -/
theorem expr_agree (h : r.Agrees n) (b : Precedence) (hl : l < n) :
    Agree next l 1 (Phrase.expr b) (r.inner o b) := by
  intro c c' hc _ hn
  have hle := hc.closed.1.remaining_le
  have hinner := h.inner_agree o b (Nat.lt_of_le_of_lt hn hl) (Nat.lt_succ_of_le hle)
  exact hinner.ends hc (Nat.le_refl _)

section

variable {expr : Precedence → Phrase Expr} (h : r.Agrees n) (hl : l ≤ n)
  (hexpr : ∀ b i, i + 1 ≤ l → Agree none i 1 (expr b) (r.inner o b))

include hexpr

theorem sign_agree (hk : k ≠ .eof) :
    Agree (some k) l 1 (signWith expr) (signWith (r.inner o)) := by
  refine .bind (.advance hk) fun token i hi => ?_
  cases Operator.ofUnary? token.kind with
  | none => exact .throw _
  | some op => exact .bind_less (hexpr .unary i hi) fun operand j hj => .node

theorem group_agree (hk : k ≠ .eof) :
    Agree (some k) l 1 (groupWith expr) (groupWith (r.inner o)) := by
  refine .bind (.advance hk) fun token i hi => ?_
  refine .bind_less (hexpr .lowest i hi) fun inner j hj => ?_
  exact .bind_less (.expect (by decide)) fun _ _ _ => .node

theorem operation_agree (hk : k ≠ .eof) (left : Expr) (b : Precedence) :
    Agree (some k) l 1 (operationWith expr left b) (operationWith (r.inner o) left b) := by
  refine .bind (.advance hk) fun token i hi => ?_
  cases Operator.ofBinary? token.kind with
  | none => exact .throw _
  | some op => exact .bind_less (hexpr b i hi) fun right j hj => .freshId fun id => .pure _

include h hl

/-- A name is called if a parenthesis comes after it, and has indices or none otherwise. -/
theorem name_agree (hk : k ≠ .eof) : Agree (some k) l 1 (nameWith expr) (r.name o) := by
  refine .bind (.advance hk) fun name i hi => ?_
  refine .kind fun k => .ite (fun hparen => ?_) fun _ => ?_
  · refine .bind_less (.advance (hparen ▸ by decide)) fun paren j hj => ?_
    have harguments : Agree none j 0 (Phrase.listUntil .closeParen (expr .lowest))
        (r.listUntil .closeParen (r.inner o .lowest)) :=
      h.listUntil_agree (by omega) (by decide) (hexpr .lowest j (by omega))
    exact .bind_less harguments fun arguments _ _ => .node
  · have hindices := h.bracketed_agree (l := i) (by omega) (hexpr .lowest i hi)
    refine .bind_less hindices.anywhere fun indices j hj => ?_
    exact .spanFrom fun span => .freshId fun lvalue => .freshId fun id => .pure _

/-- The kind of the first token chooses the form. The end of the input chooses none. -/
theorem operand_agree : Agree next l 1 (operandWith expr) (r.operand o) := by
  refine .kind fun k => ?_
  have hk {form : OperandForm} (hform : OperandForm.ofToken? k = some form) : k ≠ .eof := by
    rintro rfl
    cases hform
  cases hform : OperandForm.ofToken? k with
  | none => exact .unexpected _
  | some form =>
    cases form with
    | number => exact number_agree (hk hform)
    | truth => exact truth_agree (hk hform)
    | name => exact h.name_agree o hl hexpr (hk hform)
    | sign => exact sign_agree o hexpr (hk hform)
    | group => exact group_agree o hexpr (hk hform)

end

/-! ### Declarations -/

/-- The call of an initializer. One level more is left for the expression that it may be. -/
theorem part_agree (h : r.Agrees n) (hl : l + 1 < n) :
    Agree next l 1 Phrase.initializer (r.part o) := by
  intro c c' hc _ hn
  have hle := hc.closed.1.remaining_le
  have hpart := (h.initializer (by omega) (Nat.lt_succ_of_le hle)).call o
  exact hpart.ends hc (Nat.le_refl _)

theorem varDef_agree (h : r.Agrees n) (hl : l ≤ n) (isConstant : Bool) :
    Agree next l 1 (Phrase.varDef isConstant) (r.varDef o isConstant) := by
  refine .position fun start => .bind (.identifier _) fun name i hi => ?_
  refine .bind_less (h.bracketed_agree (by omega) dimension_agree) fun dims j hj => ?_
  -- the name and the sign are taken before the initializer is called
  refine .kind fun k => .ite (fun hassign => ?_) fun _ => .ite (fun _ => ?_) fun _ => ?_
  · refine .bind_less (.advance (hassign ▸ by decide)) fun assign i' hi' => ?_
    exact .bind_less (.map some (h.part_agree o (by omega))) fun init _ _ => .node
  · exact .bind_less (Agree.unexpected _ : Agree _ _ 0 _ _) fun init _ _ => .node
  · exact .bind_less (.pure none) fun init _ _ => .node

theorem decl_agree (h : r.Agrees n) (hl : l ≤ n) : Agree next l 1 Phrase.decl (r.decl o) := by
  have hdefs {i : Nat} (isConstant : Bool) (hi : i ≤ n) : Agree none i 1
      (Phrase.commaSeparated (Phrase.varDef isConstant))
      (r.commaSeparated (r.varDef o isConstant)) :=
    h.commaSeparated_agree hi (h.varDef_agree o hi isConstant)
  refine .position fun start => .kind fun k => .ite (fun hconst => ?_) fun _ => ?_
  · refine .bind (.advance (hconst ▸ by decide)) fun const i hi => ?_
    refine .bind_less (basicType_agree false) fun basic j hj => ?_
    refine .bind_less (hdefs _ (by omega)) fun defs j' hj' => ?_
    exact .bind_less (.expect (by decide)) fun _ _ _ => .node
  · refine .bind (basicType_agree false) fun basic i hi => ?_
    refine .bind_less (hdefs _ (by omega)) fun defs j hj => ?_
    exact .bind_less (.expect (by decide)) fun _ _ _ => .node

theorem param_agree (h : r.Agrees n) (hl : l ≤ n) : Agree next l 1 Phrase.param r.param := by
  have hinner {i : Nat} (hi : i < n) : Agree none i 0
      (Phrase.bracketed dimension) (r.bracketed dimension) :=
    h.bracketed_agree hi dimension_agree
  refine .position fun start => .bind (basicType_agree false) fun basic i hi => ?_
  refine .bind_less (.identifier _) fun name j hj => ?_
  refine .kind fun k => .ite (fun hopen => ?_) fun _ => ?_
  · refine .bind_less (outerDimension_agree (hopen ▸ by decide)) fun outer i' hi' => ?_
    -- with or without an outer dimension, the others come next
    cases outer with
    | none =>
      refine .bind_less (.pure _) fun dims j' hj' => ?_
      exact .bind_less (hinner (by omega)) fun _ _ _ => .node
    | some dim =>
      refine .bind_less (.pure _) fun dims j' hj' => ?_
      exact .bind_less (hinner (by omega)) fun _ _ _ => .node
  · refine .bind_less (.pure _) fun dims i' hi' => ?_
    exact .bind_less (hinner (by omega)) fun _ _ _ => .node

/-! ### Statements -/

/-- A statement that starts as an expression is an assignment if a variable stands on its
left. -/
theorem exprStmt_agree (h : r.Agrees n) (hl : l < n) :
    Agree next l 1 Phrase.exprStmt (r.exprStmt o) := by
  refine .position fun start => .bind (h.expr_agree o .lowest hl) fun left i hi => ?_
  refine .kind fun k => .ite (fun hassign => ?_) fun _ => ?_
  · obtain ⟨_, kind, _, _⟩ := left
    cases kind with
    | lvalue target =>
      refine .bind_less (.advance (hassign ▸ by decide)) fun assign j hj => ?_
      refine .bind_less (h.expr_agree o .lowest (by omega)) fun value j' hj' => ?_
      exact .bind_less (.expect (by decide)) fun _ _ _ => .node
    | _ => exact .unexpected _
  · exact .bind_less (.expect (by decide)) fun _ _ _ => .node

theorem condition_agree (h : r.Agrees n) (hl : l ≤ n) :
    Agree next l 1 Phrase.condition (r.condition o) := by
  refine .bind (.expect (by decide)) fun paren i hi => ?_
  refine .bind_less (h.expr_agree o .lowest (by omega)) fun value j hj => ?_
  exact .bind_less (.expect (by decide)) fun _ _ _ => .pure _

theorem returnStmt_agree (h : r.Agrees n) (hl : l ≤ n) (hk : k ≠ .eof) :
    Agree (some k) l 1 Phrase.returnStmt (r.returnStmt o) := by
  refine .bind (.advance hk) fun keyword i hi => ?_
  refine .kind fun k => .ite (fun _ => ?_) fun _ => ?_
  · refine .bind_less (.pure none) fun value j hj => ?_
    exact .bind_less (.expect (by decide)) fun _ _ _ => .node
  · refine .bind_less (.map some (h.expr_agree o .lowest (by omega))) fun value j hj => ?_
    exact .bind_less (.expect (by decide)) fun _ _ _ => .node

section

variable {stmt : Phrase Stmt} (h : r.Agrees n) (hl : l ≤ n)
  (hstmt : ∀ i, i + 1 ≤ l → Agree none i 1 stmt (r.substmt o))

include h hl hstmt

theorem block_agree : Agree next l 1 (blockWith stmt) (r.block o) := by
  refine .position fun start => .bind (.expect (by decide)) fun brace i hi => ?_
  -- the brace is taken, so a statement inside has a token less
  refine .bind_less (h.many_agree rfl (by omega) fun k hk => ?_) fun items j hj => ?_
  · refine .kind fun k => .ite (fun _ => ?_) fun _ => ?_
    · exact .map _ ((h.decl_agree o (by omega)).call o)
    · exact .map _ (hstmt i hi).anywhere
  · exact .bind_less (.expect (by decide)) fun _ _ _ => .node

theorem blockStmt_agree : Agree next l 1 (blockStmtWith stmt) (r.blockStmt o) := by
  refine .position fun start => ?_
  exact .bind ((h.block_agree o hl hstmt).call o) fun block i hi => .node

theorem ifStmt_agree (hk : k ≠ .eof) : Agree (some k) l 1 (ifStmtWith stmt) (r.ifStmt o) := by
  refine .bind (.advance hk) fun keyword i hi => ?_
  refine .bind_less (h.condition_agree o (by omega)) fun test j hj => ?_
  refine .bind_less (hstmt _ (by omega)) fun thenBranch i' hi' => ?_
  refine .kind fun k => .ite (fun helse => ?_) fun _ => ?_
  · refine .bind_less (.advance (helse ▸ by decide)) fun _ j' hj' => ?_
    exact .bind_less (.map some (hstmt _ (by omega))) fun elseBranch _ _ => .node
  · exact .bind_less (.pure none) fun elseBranch _ _ => .node

theorem whileStmt_agree (hk : k ≠ .eof) :
    Agree (some k) l 1 (whileStmtWith stmt) (r.whileStmt o) := by
  refine .bind (.advance hk) fun keyword i hi => ?_
  refine .bind_less (h.condition_agree o (by omega)) fun test j hj => ?_
  exact .bind_less (hstmt _ (by omega)) fun body _ _ => .node

end

/-! ### Programs -/

/-- The call of a statement. One level more is left for the expression that it may be. -/
theorem substmt_agree (h : r.Agrees n) (hl : l + 1 < n) :
    Agree next l 1 Phrase.stmt (r.substmt o) := by
  intro c c' hc _ hn
  have hle := hc.closed.1.remaining_le
  have hsubstmt := (h.stmt (by omega) (Nat.lt_succ_of_le hle)).call o
  exact hsubstmt.ends hc (Nat.le_refl _)

theorem funcDef_agree (h : r.Agrees n) (hl : l ≤ n) :
    Agree next l 1 Phrase.funcDef (r.funcDef o) := by
  refine .position fun start => .bind (basicType_agree true) fun returns i hi => ?_
  refine .bind_less (.identifier _) fun name j hj => ?_
  refine .bind_less (.expect (by decide)) fun paren i' hi' => ?_
  have hparams : Agree none i' 0 (Phrase.listUntil .closeParen Phrase.param)
      (r.listUntil .closeParen r.param) :=
    h.listUntil_agree (by omega) (by decide) (h.param_agree (by omega))
  refine .bind_less hparams fun params j' hj' => ?_
  have hbody : Agree none j' 1 Phrase.block (r.block o) :=
    h.block_agree o (by omega) fun _ _ => h.substmt_agree o (by omega)
  exact .bind_less (hbody.call o) fun body _ _ => .node

/-- Two tokens ahead are looked at to tell a function definition from a declaration. -/
theorem item_agree (h : r.Agrees n) (hl : l ≤ n) : Agree next l 1 Phrase.item (r.item o) := by
  intro c c' hc hk hn
  show EndsAlike 1 c c'
    ((if startsFuncDef c = true then Item.func <$> Phrase.funcDef
      else if c.kind.startsDecl = true then Item.decl <$> Phrase.decl
      else unexpected "expected a declaration or function definition" : Phrase Item) c)
    ((if startsFuncDef c' = true then Item.func <$> o.call (r.funcDef o)
      else if c'.kind.startsDecl = true then Item.decl <$> o.call (r.decl o)
      else unexpected "expected a declaration or function definition" : Phrase Item) c')
  -- both look ahead alike, so both take the same branch
  rw [hc.startsFuncDef, ← hc.kind]
  have hagree : Agree next l 1
      (if startsFuncDef c = true then Item.func <$> Phrase.funcDef
        else if c.kind.startsDecl = true then Item.decl <$> Phrase.decl
        else unexpected "expected a declaration or function definition" : Phrase Item)
      (if startsFuncDef c = true then Item.func <$> o.call (r.funcDef o)
        else if c.kind.startsDecl = true then Item.decl <$> o.call (r.decl o)
        else unexpected "expected a declaration or function definition") := by
    refine .ite (fun _ => ?_) fun _ => .ite (fun _ => ?_) fun _ => .unexpected _
    · exact .map _ ((h.funcDef_agree o hl).call o)
    · exact .map _ ((h.decl_agree o hl).call o)
  exact hagree hc hk hn

theorem program_agree (h : r.Agrees n) (hl : l < n) :
    Agree next l 0 Phrase.program (r.program o) := by
  have hitems : Agree none l 0 (Phrase.many (· ≠ .eof) Phrase.item)
      (r.many (· ≠ .eof) (o.call (r.item o))) :=
    h.many_agree rfl hl fun _ _ => (h.item_agree o (by omega)).call o
  refine .freshId fun id => .position fun start => ?_
  exact .bind_less hitems.anywhere fun items i hi => .position fun stop => .pure _

/-! ### One level more -/

/-- One round of the loop. -/
theorem many_unfold (h : r.Agrees n) {more : TokenKind → Bool} {item item' : Phrase α}
    {rounds : Nat} (heof : more .eof = false) (hl : l < n + 1) (hrounds : l ≤ rounds)
    (hitem : ∀ k, more k = true → Agree (some k) l 1 item item') :
    Agree none l 0 (manyWithin more item rounds) ((r.unfold o).many more item') := by
  cases rounds with
  | zero =>
    obtain rfl := Nat.le_zero.mp hrounds
    refine .ended fun c' hkind => ?_
    show (if more c'.kind = true then _ else _ : Phrase (List α)) c' = _
    rw [hkind, heof]
    rfl
  | succ rounds =>
    refine .kind fun k => .ite (fun hk => ?_) fun _ => .pure _
    refine .bind_less (hitem k hk) fun a i hi => ?_
    -- an item takes a token, so one round less is enough for the rest
    have hrest : Agree none i 0 (manyWithin more item rounds) (r.many more item') :=
      h.many heof (by omega) (by omega) fun k hk => (hitem k hk).mono (by omega)
    exact .bind_less hrest fun rest _ _ => .pure _

/-- One operator of an expression, if one that binds tighter comes next. -/
theorem extend_unfold (h : r.Agrees n) {levels rounds : Nat} (b : Precedence) (left : Expr)
    (hl : l < n + 1) (hlevels : l ≤ levels) (hrounds : l ≤ rounds) :
    Agree none l 0 (extendWith (exprWithin levels) b rounds left)
      ((r.unfold o).extend b left) := by
  cases rounds with
  | zero =>
    -- no rounds are left only at the end of the input, where no operator follows
    obtain rfl := Nat.le_zero.mp hrounds
    refine .ended fun c' hkind => ?_
    show (Phrase.kind >>= _) c' = _
    rw [kind_bind, hkind]
    rfl
  | succ rounds =>
    refine .kind fun k => ?_
    cases hprecedence : Precedence.ofToken? k with
    | none => exact .pure _
    | some p =>
      refine .ite (fun _ => ?_) fun _ => .pure _
      -- an operator is no end of the input, so its operation takes a token and pays for the round
      have hk : k ≠ .eof := (Precedence.ofToken?_ne hprecedence).2.2
      have hinner : ∀ b i, i + 1 ≤ l → Agree none i 1 (exprWithin levels b) (r.inner o b) := by
        intro b i hi
        exact h.inner_agree o b (by omega) (by omega)
      have hoperation := operation_agree o hinner hk left p
      refine .bind_less hoperation fun left' i hi => ?_
      exact h.extend b left' (by omega) (by omega) (by omega)

/-- An operand and the operators after it. -/
theorem expr_unfold (h : r.Agrees n) {levels : Nat} (b : Precedence) (hl : l < n + 1)
    (hlevels : l < levels) : Agree none l 1 (exprWithin levels b) ((r.unfold o).expr b) := by
  obtain ⟨levels, rfl⟩ : ∃ k, levels = k + 1 := ⟨levels - 1, by omega⟩
  have hoperand : Agree none l 1 (operandWith (exprWithin levels)) (r.operand o) :=
    h.operand_agree o (by omega) fun b i hi => h.inner_agree o b (by omega) (by omega)
  refine .bind hoperand fun left i hi => ?_
  -- the rounds are counted anew, by the tokens after the operand
  intro c c' hc hk hn
  exact h.extend b left (by omega) (by omega) hc.closed.1.remaining_le hc hk (Nat.le_refl _)

/-- A list of initializers, or an expression. -/
theorem initializer_unfold (h : r.Agrees n) {levels : Nat} (hl : l + 1 < n + 1)
    (hlevels : l < levels) :
    Agree none l 1 (initializerWithin levels) (r.unfold o).initializer := by
  obtain ⟨levels, rfl⟩ : ∃ k, levels = k + 1 := ⟨levels - 1, by omega⟩
  refine .position fun start => .kind fun k => .ite (fun hopen => ?_) fun _ => ?_
  · refine .bind (.advance (hopen ▸ by decide)) fun brace i hi => ?_
    have hitems : Agree none i 0 (Phrase.listUntil .closeCurly (initializerWithin levels))
        (r.listUntil .closeCurly (r.part o)) :=
      h.listUntil_agree (by omega) (by decide) ((h.initializer (by omega) (by omega)).call o)
    exact .bind_less hitems fun items _ _ => .node
  · -- no token is taken before this call
    exact .bind (h.expr_agree o .lowest (by omega)) fun value _ _ => .node

/-- The kind of the first token chooses the form, and an expression is the form that is left. -/
theorem stmt_unfold (h : r.Agrees n) {levels : Nat} (hl : l + 1 < n + 1) (hlevels : l < levels) :
    Agree none l 1 (stmtWithin levels) (r.unfold o).stmt := by
  obtain ⟨levels, rfl⟩ : ∃ k, levels = k + 1 := ⟨levels - 1, by omega⟩
  have hstmt : ∀ i, i + 1 ≤ l → Agree none i 1 (stmtWithin levels) (r.substmt o) := by
    intro i hi
    exact (h.stmt (by omega) (by omega)).call o
  refine .kind fun k => ?_
  have hk {form : StmtForm} (hform : StmtForm.ofToken? k = some form) : k ≠ .eof := by
    rintro rfl
    cases hform
  cases hform : StmtForm.ofToken? k with
  | none =>
    -- no token is taken before this call
    exact h.exprStmt_agree o (by omega)
  | some form =>
    cases form with
    | block => exact h.blockStmt_agree o (by omega) hstmt
    | cond => exact h.ifStmt_agree o (by omega) hstmt (hk hform)
    | loop => exact h.whileStmt_agree o (by omega) hstmt (hk hform)
    | leave => exact jumpStmt_agree (hk hform) _
    | next => exact jumpStmt_agree (hk hform) _
    | ret => exact h.returnStmt_agree o (by omega) (hk hform)
    | empty => exact emptyStmt_agree (hk hform)

/-- Unfolding once more settles inputs with one token more. -/
theorem unfold (h : r.Agrees n) : (r.unfold o).Agrees (n + 1) :=
  ⟨h.many_unfold o, h.extend_unfold o, h.expr_unfold o, h.initializer_unfold o, h.stmt_unfold o⟩

/-- Whatever stands at the bottom of `n` levels, fewer than `n` tokens do not get there. -/
theorem iterate (r : Recursion) (n : Nat) : ((Recursion.unfold o)^[n] r).Agrees n := by
  induction n with
  | zero =>
    exact ⟨fun _ hl => absurd hl (Nat.not_lt_zero _), fun _ _ hl => absurd hl (Nat.not_lt_zero _),
      fun _ hl => absurd hl (Nat.not_lt_zero _), fun hl => absurd hl (Nat.not_lt_zero _),
      fun hl => absurd hl (Nat.not_lt_zero _)⟩
  | succ n ih =>
    rw [Function.iterate_succ_apply']
    exact ih.unfold o

end Recursion.Agrees

/-- What agrees with gain goes on from where it was called. -/
theorem Agree.advances {n : Nat} {m m' : Phrase α} {c : Cursor} (h : Agree none n 1 m m')
    (hc : c.Closed) (hn : c.remaining ≤ n) : c.Advances (m c) :=
  (h.ends (.refl hc) hn).advances.1

/-- At cursors that look alike, the running reader and one that is unfolded often enough end
alike. -/
theorem Phrase.program_alike (o : Oversight) (r : Recursion) {n : Nat} {c c' : Cursor}
    (h : c.Alike c') (hn : c.remaining < n) :
    EndsAlike 0 c c' (Phrase.program c) (((Recursion.unfold o)^[n] r).program o c') :=
  ((Recursion.Agrees.iterate o r n).program_agree o hn).ends h (Nat.le_refl _)

/-- Unfolded more often than there are tokens before the end of the input, the reader without
counts gives what `parse` gives, whatever it is unfolded from and whatever becomes of calls that
do not go on. No call fails to: where one of them succeeds it has taken tokens, and neither it nor
the whole takes an end of the input. What stands after an end of the input makes no
difference. -/
theorem parse_bounded_by_content (tokens : List Token) (file : String) :
    (∀ (o : Oversight) (r : Recursion) (n : Nat), (Token.content tokens).length < n →
      ((Recursion.unfold o)^[n] r).program o (Cursor.ofTokens tokens file) =
        parse tokens file) ∧
    (∀ c : Cursor, c.Closed → c.Advances (Phrase.item c) ∧ c.Advances (Phrase.decl c) ∧
      c.Advances (Phrase.funcDef c) ∧ c.Advances (Phrase.block c) ∧ c.Advances (Phrase.stmt c) ∧
      c.Advances (Phrase.initializer c) ∧ ∀ bound, c.Advances (Phrase.expr bound c)) ∧
    (∃ ts, (Cursor.ofTokens tokens file).Takes ts
      (Phrase.program.after (Cursor.ofTokens tokens file))) ∧
    ∀ (tokens' before after after' : List Token) (e : Token), e.kind = .eof →
      (Cursor.ofTokens tokens file).tokens = before ++ e :: after →
      (Cursor.ofTokens tokens' file).tokens = before ++ e :: after' →
        EndsAlike 0 (Cursor.ofTokens tokens file) (Cursor.ofTokens tokens' file)
          (parse tokens file) (parse tokens' file) := by
  have hclosed := Cursor.ofTokens_closed tokens file
  refine ⟨fun o r n hn => ?_, fun c hc => ?_, ?_, ?_⟩
  · -- from one cursor, ending alike is being the same
    exact (Phrase.program_alike o r (.refl hclosed)
      (by rw [Cursor.ofTokens_remaining]; exact hn)).eq.symm
  · have h := Recursion.Agrees.iterate default default (c.remaining + 2)
    exact ⟨(h.item_agree default (by omega)).advances hc (Nat.le_refl _),
      (h.decl_agree default (by omega)).advances hc (Nat.le_refl _),
      (h.funcDef_agree default (by omega)).advances hc (Nat.le_refl _),
      (h.block_agree default (by omega)
        fun _ _ => h.substmt_agree default (by omega)).advances hc (Nat.le_refl _),
      (h.substmt_agree default (by omega)).advances hc (Nat.le_refl _),
      (h.part_agree default (by omega)).advances hc (Nat.le_refl _),
      fun bound => (h.expr_agree default bound (by omega)).advances hc (Nat.le_refl _)⟩
  · exact (Phrase.program_alike default default (.refl hclosed) (Nat.lt_succ_self _)).takes
  · intro tokens' before after after' e he h h'
    have halike := Cursor.Alike.ofTokens he h h'
    -- deep enough for both inputs, the reader without counts stands for the second
    have hends := Phrase.program_alike default default halike
      (Nat.lt_succ_of_le (Nat.le_add_right _ (Cursor.ofTokens tokens' file).remaining))
    rwa [← (Phrase.program_alike default default (.refl halike.closed.2)
      (Nat.lt_succ_of_le (Nat.le_add_left _ _))).eq] at hends

/-- The tokens of `int x; void f() {`, with the end of the input after them. -/
def unclosed : List Token :=
  [⟨.kwInt32, "int", ⟨⟨0, "f"⟩, ⟨3, "f"⟩⟩⟩, ⟨.identifier, "x", ⟨⟨4, "f"⟩, ⟨5, "f"⟩⟩⟩,
    ⟨.semicolon, ";", ⟨⟨5, "f"⟩, ⟨6, "f"⟩⟩⟩, ⟨.kwVoid, "void", ⟨⟨7, "f"⟩, ⟨11, "f"⟩⟩⟩,
    ⟨.identifier, "f", ⟨⟨12, "f"⟩, ⟨13, "f"⟩⟩⟩, ⟨.openParen, "(", ⟨⟨13, "f"⟩, ⟨14, "f"⟩⟩⟩,
    ⟨.closeParen, ")", ⟨⟨14, "f"⟩, ⟨15, "f"⟩⟩⟩, ⟨.openCurly, "\x7b", ⟨⟨16, "f"⟩, ⟨17, "f"⟩⟩⟩,
    .endOfInput ⟨17, "f"⟩]

/-- A brace, as it might stand after the end of the input. -/
def closingBrace : Token :=
  ⟨.closeCurly, "\x7d", ⟨⟨17, "f"⟩, ⟨18, "f"⟩⟩⟩

/-- A block is not closed by the brace after the end of the input. -/
theorem parse_bounded_by_content_unclosed :
    (Token.content (unclosed ++ [closingBrace])).length = 8 ∧
    (∀ d, ((Recursion.unfold (.strict d))^[9] default).program (.strict d)
      (Cursor.ofTokens (unclosed ++ [closingBrace]) "f") =
        parse (unclosed ++ [closingBrace]) "f") ∧
    (Cursor.ofTokens unclosed "f").Advances (Phrase.item (Cursor.ofTokens unclosed "f")) ∧
    (∃ i c, Phrase.item (Cursor.ofTokens unclosed "f") = .ok i c) ∧
    EndsAlike 0 (Cursor.ofTokens (unclosed ++ [closingBrace]) "f") (Cursor.ofTokens unclosed "f")
      (parse (unclosed ++ [closingBrace]) "f") (parse unclosed "f") ∧
    ∃ c, parse unclosed "f" = .error ⟨.unexpected "EOF", ⟨17, "f"⟩, none⟩ c := by
  obtain ⟨hunfold, hadvances, _, hends⟩ :=
    parse_bounded_by_content (unclosed ++ [closingBrace]) "f"
  refine ⟨rfl, fun d => hunfold (.strict d) default 9 (by decide),
    (hadvances _ (Cursor.ofTokens_closed _ _)).1, ⟨_, _, rfl⟩, ?_, ⟨_, rfl⟩⟩
  exact hends unclosed (unclosed.take 8) _ [] (.endOfInput ⟨17, "f"⟩) rfl rfl rfl

end CactLang
