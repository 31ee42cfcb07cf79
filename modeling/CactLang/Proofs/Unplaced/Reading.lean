import CactLang.Proofs.Unplaced.Tree
import CactLang.Proofs.Reading.Program

/-!
# Reading does not look at positions

Positions are taken from tokens and put on nodes and diagnostics; nothing is decided by them.
So reading tokens without positions gives the tree without positions, or the diagnostic
without its position, and stops at the same token.

> `Forgets value m m'`: at a cursor without positions, `m'` gives what `m` gives, with
> positions forgotten as `value` says.
-/

namespace CactLang

/-- Forgetting positions does not change which token is the last. -/
theorem Token.getLastD_unplaced (ts : List Token) (t : Token) :
    (ts.map Token.unplaced).getLastD t.unplaced = (ts.getLastD t).unplaced := by
  rw [List.getLastD_eq_getLast?, List.getLastD_eq_getLast?, List.getLast?_map]
  cases ts.getLast? <;> rfl

/-- Going on does not look at positions. -/
theorem Cursor.unplaced_advance (c : Cursor) : c.unplaced.advance = c.advance.unplaced := by
  obtain ⟨current, ahead, behind, nodeCount⟩ := c
  cases ahead <;> rfl

@[simp] theorem Cursor.kind_unplaced (c : Cursor) : c.unplaced.kind = c.kind :=
  rfl

namespace Phrase

variable {α β α' β' : Type}

/-- On tokens without positions, `m'` reads what `m` reads, without positions. -/
abbrev Forgets (value : α → α') (m : Phrase α) (m' : Phrase α') : Prop :=
  Echoes Diagnostic.unplaced Cursor.unplaced value m m'

/-! ## Single tokens and nodes -/

namespace Forgets

theorem kind : Forgets id Phrase.kind Phrase.kind :=
  fun _ => rfl

/-- Where a token starts is a position, so all of it is forgotten. -/
theorem position : Forgets (fun _ => default) Phrase.position Phrase.position :=
  fun _ => rfl

/-- A token is taken without its position. -/
theorem advance : Forgets Token.unplaced Phrase.advance Phrase.advance := by
  intro c
  show EStateM.Result.ok c.unplaced.current c.unplaced.advance = _
  rw [c.unplaced_advance]
  rfl

/-- Whether a token is of the kind that is asked for does not depend on where it stands. -/
theorem expectOr {k : TokenKind} {error error' : Cursor → Diagnostic}
    (herror : ∀ c, error' c.unplaced = (error c).unplaced) :
    Forgets Token.unplaced (Phrase.expectOr k error) (Phrase.expectOr k error') := by
  intro c
  show (if c.kind = k then Phrase.advance else throw (error' c.unplaced) : Phrase Token)
      c.unplaced =
    mapResult _ _ _ ((if c.kind = k then Phrase.advance else throw (error c) : Phrase Token) c)
  refine Echoes.ite Iff.rfl advance (.throw (herror c)) c

theorem expect {k : TokenKind} : Forgets Token.unplaced (Phrase.expect k) (Phrase.expect k) :=
  expectOr fun _ => rfl

theorem identifier {place : String} :
    Forgets id (Phrase.identifier place) (Phrase.identifier place) :=
  .bind (expectOr fun _ => rfl) fun _ => .pure rfl

theorem unexpected {value : α → α'} {hint : String} :
    Forgets value (Phrase.unexpected hint) (Phrase.unexpected hint) :=
  fun _ => rfl

theorem freshId : Forgets id Phrase.freshId Phrase.freshId :=
  fun _ => rfl

theorem spanFrom {start : Position} :
    Forgets (fun _ => default) (Phrase.spanFrom start) (Phrase.spanFrom default) :=
  fun _ => rfl

/-- A node is given its identity and its span. -/
theorem node {value : α → α'} {mk : NodeId → Span → α} {mk' : NodeId → Span → α'}
    {start : Position} (h : ∀ id span, mk' id default = value (mk id span)) :
    Forgets value (do
        let id ← Phrase.freshId
        return mk id (← Phrase.spanFrom start))
      (do
        let id ← Phrase.freshId
        return mk' id (← Phrase.spanFrom default)) :=
  .bind freshId fun id => .bind spanFrom fun span => .pure (h id span)

end Forgets

/-! ## Repetition -/

section

variable {value : α → α'} {item : Phrase α} {item' : Phrase α'}

/-- The loop goes around as often, as items do not look at positions. -/
theorem manyWithin_forgets {more : TokenKind → Bool} (hitem : Forgets value item item')
    (rounds : Nat) :
    Forgets (List.map value) (manyWithin more item rounds) (manyWithin more item' rounds) := by
  induction rounds with
  | zero => exact .pure rfl
  | succ rounds ih =>
    refine .bind Forgets.kind fun k => .ite Iff.rfl ?_ (.pure rfl)
    refine .bind hitem fun a => ?_
    exact .bind ih fun as => .pure rfl

/-- As many tokens stand ahead without positions, so the bound on the rounds is the same. -/
theorem many_forgets {more : TokenKind → Bool} (hitem : Forgets value item item') :
    Forgets (List.map value) (many more item) (many more item') := by
  intro c
  show manyWithin more item' (c.ahead.map Token.unplaced).length c.unplaced = _
  rw [List.length_map]
  exact manyWithin_forgets hitem c.ahead.length c

/-- Commas are recognised without positions. -/
theorem commaSeparated_forgets (hitem : Forgets value item item') :
    Forgets (List.map value) (commaSeparated item) (commaSeparated item') := by
  have hnext : Forgets value (advance *> item) (advance *> item') := by
    have hseq : Forgets value (advance >>= fun _ => item) (advance >>= fun _ => item') :=
      .bind Forgets.advance fun _ => hitem
    exact hseq
  refine .bind hitem fun a => ?_
  exact .bind (many_forgets hnext) fun as => .pure rfl

/-- The closing token is recognised without positions. -/
theorem listUntil_forgets {close : TokenKind} (hitem : Forgets value item item') :
    Forgets (List.map value) (listUntil close item) (listUntil close item') := by
  have hclose : ∀ as : List α, Forgets (List.map value)
      (expect close >>= fun _ => pure as) (expect close >>= fun _ => pure (as.map value)) :=
    fun as => .bind Forgets.expect fun _ => .pure rfl
  refine .bind Forgets.kind fun k => ?_
  dsimp only
  refine .ite Iff.rfl ?_ ?_
  · rw [pure_bind, pure_bind]
    exact hclose []
  · exact .bind (commaSeparated_forgets hitem) hclose

/-- Brackets are recognised without positions. -/
theorem bracketed_forgets (hitem : Forgets value item item') :
    Forgets (List.map value) (bracketed item) (bracketed item') := by
  refine many_forgets (.bind Forgets.advance fun _ => .bind hitem fun _ => ?_)
  exact .bind Forgets.expect fun _ => .pure rfl

end

/-! ## Expressions -/

section

variable {expr : Precedence → Phrase Expr}

/-- A number is read from its text. -/
theorem number_forgets : Forgets Expr.unplaced number number := by
  refine .bind Forgets.advance fun token => ?_
  dsimp only [Token.unplaced]
  cases NumberKind.ofToken? token.kind with
  | none => exact .throw rfl
  | some form => exact .bind Forgets.freshId fun id => .pure rfl

/-- A truth value is read from its kind. -/
theorem truth_forgets : Forgets Expr.unplaced truth truth := by
  refine .bind Forgets.advance fun token => ?_
  exact .bind Forgets.freshId fun id => .pure rfl

/-- The sub-expressions are read without looking at positions. -/
def ForgetsExpr (expr : Precedence → Phrase Expr) : Prop :=
  ∀ b, Forgets Expr.unplaced (expr b) (expr b)

/-- The next token says whether a name is called, wherever it stands. -/
theorem nameWith_forgets (hexpr : ForgetsExpr expr) :
    Forgets Expr.unplaced (nameWith expr) (nameWith expr) := by
  refine .bind Forgets.advance fun name => .bind Forgets.kind fun k => .ite Iff.rfl ?_ ?_
  · refine .bind Forgets.advance fun _ => ?_
    refine .bind (listUntil_forgets (hexpr .lowest)) fun arguments => Forgets.node fun id span => ?_
    rw [Expr.plain, Expr.plain, Expr.unplaced, Expr.allUnplaced_eq_map]
    rfl
  · refine .bind (bracketed_forgets (hexpr .lowest)) fun indices => ?_
    refine .bind Forgets.spanFrom fun span => .bind Forgets.freshId fun id => ?_
    refine .bind Forgets.freshId fun id' => .pure ?_
    -- the variable and the expression around it each forget their span
    rw [Expr.plain, Expr.plain, Expr.unplaced, LValue.plain, LValue.plain, LValue.unplaced,
      Expr.allUnplaced_eq_map]
    rfl

/-- A sign and its operand. -/
theorem signWith_forgets (hexpr : ForgetsExpr expr) :
    Forgets Expr.unplaced (signWith expr) (signWith expr) := by
  refine .bind Forgets.advance fun token => ?_
  dsimp only [Token.unplaced]
  cases Operator.ofUnary? token.kind with
  | none => exact .throw rfl
  | some op => exact .bind (hexpr .unary) fun operand => Forgets.node fun id span => rfl

/-- A group and what stands in it. -/
theorem groupWith_forgets (hexpr : ForgetsExpr expr) :
    Forgets Expr.unplaced (groupWith expr) (groupWith expr) := by
  refine .bind Forgets.advance fun opening => ?_
  refine .bind (hexpr .lowest) fun inner => ?_
  refine .bind Forgets.expect fun closing => ?_
  exact Forgets.node fun id span => rfl

/-- The form of an operand is announced by the kind of its first token. -/
theorem operandWith_forgets (hexpr : ForgetsExpr expr) :
    Forgets Expr.unplaced (operandWith expr) (operandWith expr) := by
  refine .bind Forgets.kind fun k => ?_
  dsimp only [id]
  cases OperandForm.ofToken? k with
  | none => exact Forgets.unexpected
  | some form =>
    cases form with
    | number => exact number_forgets
    | truth => exact truth_forgets
    | name => exact nameWith_forgets hexpr
    | sign => exact signWith_forgets hexpr
    | group => exact groupWith_forgets hexpr

/-- The span of an operation is put together from those of its operands, and is forgotten with
them. -/
theorem operationWith_forgets (hexpr : ForgetsExpr expr) (left : Expr) (p : Precedence) :
    Forgets Expr.unplaced (operationWith expr left p) (operationWith expr left.unplaced p) := by
  refine .bind Forgets.advance fun token => ?_
  dsimp only [Token.unplaced]
  cases Operator.ofBinary? token.kind with
  | none => exact .throw rfl
  | some op =>
    refine .bind (hexpr p) fun right => .bind Forgets.freshId fun id => .pure ?_
    rw [Expr.span_unplaced, Expr.span_unplaced]
    rfl

/-- The loop over operators is ruled by their precedence alone. -/
theorem extendWith_forgets (hexpr : ForgetsExpr expr) (b : Precedence) (rounds : Nat) :
    ∀ left, Forgets Expr.unplaced (extendWith expr b rounds left)
      (extendWith expr b rounds left.unplaced) := by
  induction rounds with
  | zero => exact fun _ => .pure rfl
  | succ rounds ih =>
    intro left
    refine .bind Forgets.kind fun k => ?_
    dsimp only [id]
    cases Precedence.ofToken? k with
    | none => exact .pure rfl
    | some p => exact .ite Iff.rfl (.bind (operationWith_forgets hexpr left p) ih) (.pure rfl)

/-- Expressions of bounded nesting do not look at positions. -/
theorem exprWithin_forgets (levels : Nat) : ForgetsExpr (exprWithin levels) := by
  induction levels with
  | zero => exact fun _ => Forgets.unexpected
  | succ levels ih =>
    intro b
    refine .bind (operandWith_forgets ih) fun left c => ?_
    show extendWith _ b (c.ahead.map Token.unplaced).length left.unplaced c.unplaced = _
    rw [List.length_map]
    exact extendWith_forgets ih b c.ahead.length left c

/-- Expressions do not look at positions. -/
theorem expr_forgets : ForgetsExpr Phrase.expr := by
  intro b c
  show exprWithin ((c.ahead.map Token.unplaced).length + 1) b c.unplaced = _
  rw [List.length_map]
  exact exprWithin_forgets _ b c

end

/-! ## Declarations -/

/-- A type is recognised by the kind of its token. -/
theorem basicType_forgets (allowVoid : Bool) :
    Forgets id (basicType allowVoid) (basicType allowVoid) := by
  intro c
  rcases basicType_cases allowVoid c with ⟨t, ht, hk, hrun⟩ | ⟨hno, hrun⟩
  · rw [hrun, basicType_ok (c := c.unplaced) hk ht, c.unplaced_advance]
    rfl
  · rcases basicType_cases allowVoid c.unplaced with ⟨t, ht, hk, _⟩ | ⟨_, hrun'⟩
    · exact absurd hk (hno t ht)
    · rw [hrun, hrun']
      exact Forgets.unexpected c

/-- A dimension keeps its digits and its sign. -/
theorem dimension_forgets : Forgets Dimension.unplaced dimension dimension := by
  refine .bind Forgets.position fun start => .bind Forgets.kind fun k => ?_
  have hdigits : Forgets Dimension.unplaced
      (do
        let digits ←
          expectOr .integerLiteral (·.unexpected "array dimensions must be integer literals")
        return ⟨if k = .dash then "-" ++ digits.text else digits.text, ← spanFrom start⟩)
      (do
        let digits ←
          expectOr .integerLiteral (·.unexpected "array dimensions must be integer literals")
        return ⟨if k = .dash then "-" ++ digits.text else digits.text, ← spanFrom default⟩) :=
    .bind (Forgets.expectOr fun _ => rfl) fun _ => .bind Forgets.spanFrom fun _ => .pure rfl
  exact .ite Iff.rfl (.bind Forgets.advance fun _ => hdigits) hdigits

/-- Initial values of bounded nesting do not look at positions. -/
theorem initializerWithin_forgets (levels : Nat) :
    Forgets Initializer.unplaced (initializerWithin levels) (initializerWithin levels) := by
  induction levels with
  | zero => exact Forgets.unexpected
  | succ levels ih =>
    refine .bind Forgets.position fun start => .bind Forgets.kind fun k => .ite Iff.rfl ?_ ?_
    · refine .bind Forgets.advance fun _ => .bind (listUntil_forgets ih) fun items => ?_
      refine Forgets.node fun id span => ?_
      rw [Initializer.unplaced, Initializer.allUnplaced_eq_map]
    · exact .bind (expr_forgets .lowest) fun value => Forgets.node fun id span => rfl

/-- Initial values do not look at positions. -/
theorem initializer_forgets : Forgets Initializer.unplaced initializer initializer := by
  intro c
  show initializerWithin ((c.ahead.map Token.unplaced).length + 1) c.unplaced = _
  rw [List.length_map]
  exact initializerWithin_forgets _ c

/-- A definition keeps its name, its dimensions and its initial value. -/
theorem varDef_forgets (isConstant : Bool) :
    Forgets VarDef.unplaced (varDef isConstant) (varDef isConstant) := by
  refine .bind Forgets.position fun start => ?_
  refine .bind Forgets.identifier fun name => ?_
  refine .bind (bracketed_forgets dimension_forgets) fun dims => ?_
  refine .bind Forgets.kind fun k => ?_
  dsimp only
  refine .ite Iff.rfl ?_ (.ite Iff.rfl ?_ ?_)
  · refine .bind Forgets.advance fun _ => ?_
    rw [bind_map_left, bind_map_left]
    exact .bind initializer_forgets fun init => Forgets.node fun id span => rfl
  · exact .bind Forgets.unexpected fun init : Option Initializer => Forgets.node fun id span => rfl
  · rw [pure_bind, pure_bind]
    exact Forgets.node fun id span => rfl

/-- A declaration keeps its marker, its type and its definitions. -/
theorem decl_forgets : Forgets Decl.unplaced decl decl := by
  have hafter : ∀ start isConstant, Forgets Decl.unplaced (declAfter start isConstant)
      (declAfter default isConstant) := by
    intro start isConstant
    refine .bind (basicType_forgets false) fun basic => ?_
    refine .bind (commaSeparated_forgets (varDef_forgets isConstant)) fun defs => ?_
    exact .bind Forgets.expect fun _ => Forgets.node fun id span => rfl
  intro c
  rw [decl_eq, decl_eq]
  refine Echoes.ite Iff.rfl ?_ (hafter _ false) c
  exact .bind Forgets.advance fun _ => hafter _ true

/-- The first dimension of a parameter stays open or not. -/
theorem outerDimension_forgets :
    Forgets (Option.map Dimension.unplaced) outerDimension outerDimension := by
  refine .bind Forgets.advance fun _ => .bind Forgets.kind fun k => ?_
  dsimp only
  refine .ite Iff.rfl ?_ ?_
  · rw [pure_bind]
    exact .bind Forgets.expect fun _ => .pure rfl
  · rw [bind_map_left]
    refine .bind dimension_forgets fun dim => ?_
    exact .bind Forgets.expect fun _ => .pure rfl

/-- A parameter keeps its type, its name and its dimensions. -/
theorem param_forgets : Forgets Param.unplaced param param := by
  -- both forms of the first dimension lead to the same rest
  have hafter : ∀ start basic name isOpen outer,
      Forgets Param.unplaced (paramAfter start basic name isOpen outer)
        (paramAfter default basic name isOpen (outer.map Dimension.unplaced)) := by
    intro start basic name isOpen outer
    refine .bind (bracketed_forgets dimension_forgets) fun inner => Forgets.node fun id span => ?_
    rw [← List.map_append]
    rfl
  rw [param_eq]
  refine .bind Forgets.position fun start => ?_
  refine .bind (basicType_forgets false) fun basic => ?_
  refine .bind Forgets.identifier fun name => ?_
  refine .bind Forgets.kind fun k => .ite Iff.rfl ?_ ?_
  · refine .bind outerDimension_forgets fun outer => ?_
    have hdims : (outer.map Dimension.unplaced).toList = outer.toList.map Dimension.unplaced := by
      cases outer <;> rfl
    rw [Option.isNone_map, hdims]
    exact hafter start basic name outer.isNone outer.toList
  · exact hafter start basic name false []

/-! ## Statements -/

section

variable {stmt : Phrase Stmt}

/-- Without positions a variable is still a variable, and nothing else is. -/
theorem lvalue_unplaced (e : Expr) :
    (∃ l, e.kind = .lvalue l ∧ e.unplaced.kind = .lvalue l.unplaced) ∨
      ((∀ l, e.kind ≠ .lvalue l) ∧ ∀ l, e.unplaced.kind ≠ .lvalue l) := by
  obtain ⟨id, kind, span, info⟩ := e
  cases kind with
  | lvalue l => exact Or.inl ⟨l, rfl, rfl⟩
  | _ => exact Or.inr ⟨fun _ => ExprKind.noConfusion, fun _ => ExprKind.noConfusion⟩

/-- What an expression is for is said by the next token and by its own form. -/
theorem exprStmtAfter_forgets (start : Position) (left : Expr) :
    Forgets Stmt.unplaced (exprStmtAfter start left) (exprStmtAfter default left.unplaced) := by
  intro c
  by_cases hk : c.kind = .assign
  · rcases lvalue_unplaced left with ⟨target, hleft, hleft'⟩ | ⟨hleft, hleft'⟩
    · rw [exprStmtAfter_assign hk hleft, exprStmtAfter_assign (c := c.unplaced) hk hleft']
      refine Echoes.bind Forgets.advance (fun _ => ?_) c
      refine .bind (expr_forgets .lowest) fun value => .bind Forgets.expect fun _ => ?_
      exact Forgets.node fun id span => rfl
    · rw [exprStmtAfter_refused hk hleft, exprStmtAfter_refused (c := c.unplaced) hk hleft']
      exact Forgets.unexpected c
  · rw [exprStmtAfter_plain hk, exprStmtAfter_plain (c := c.unplaced) hk]
    refine Echoes.bind Forgets.expect (fun _ => ?_) c
    exact Forgets.node fun id span => rfl

/-- Assignments and expression statements do not look at positions. -/
theorem exprStmt_forgets : Forgets Stmt.unplaced exprStmt exprStmt := by
  rw [exprStmt_eq]
  refine .bind Forgets.position fun start => .bind (expr_forgets .lowest) fun left => ?_
  exact exprStmtAfter_forgets start left

theorem emptyStmt_forgets : Forgets Stmt.unplaced emptyStmt emptyStmt := by
  refine .bind Forgets.advance fun semicolon => ?_
  exact Forgets.node fun id span => rfl

/-- The items of a block are told apart by their first token. -/
theorem blockItemWith_forgets (hstmt : Forgets Stmt.unplaced stmt stmt) :
    Forgets BlockItem.unplaced (blockItemWith stmt) (blockItemWith stmt) := by
  refine .bind Forgets.kind fun k => .ite Iff.rfl ?_ ?_
  · exact .map decl_forgets fun _ => rfl
  · exact .map hstmt fun _ => rfl

/-- A block keeps its items. -/
theorem blockWith_forgets (hstmt : Forgets Stmt.unplaced stmt stmt) :
    Forgets Block.unplaced (blockWith stmt) (blockWith stmt) := by
  refine .bind Forgets.position fun start => .bind Forgets.expect fun _ => ?_
  refine .bind (many_forgets (blockItemWith_forgets hstmt)) fun items => ?_
  refine .bind Forgets.expect fun _ => Forgets.node fun id span => ?_
  rw [Block.plain, Block.plain, Block.unplaced, BlockItem.allUnplaced_eq_map]

theorem blockStmtWith_forgets (hstmt : Forgets Stmt.unplaced stmt stmt) :
    Forgets Stmt.unplaced (blockStmtWith stmt) (blockStmtWith stmt) := by
  refine .bind Forgets.position fun start => ?_
  refine .bind (blockWith_forgets hstmt) fun block => ?_
  exact Forgets.node fun id span => rfl

theorem condition_forgets : Forgets Expr.unplaced condition condition := by
  refine .bind Forgets.expect fun opening => ?_
  refine .bind (expr_forgets .lowest) fun test => ?_
  exact .bind Forgets.expect fun closing => .pure rfl

/-- The next token says whether there is an alternative. -/
theorem ifStmtWith_forgets (hstmt : Forgets Stmt.unplaced stmt stmt) :
    Forgets Stmt.unplaced (ifStmtWith stmt) (ifStmtWith stmt) := by
  refine .bind Forgets.advance fun _ => .bind condition_forgets fun test => ?_
  refine .bind hstmt fun thenBranch => .bind Forgets.kind fun k => ?_
  dsimp only
  refine .ite Iff.rfl ?_ ?_
  · refine .bind Forgets.advance fun _ => ?_
    rw [bind_map_left, bind_map_left]
    exact .bind hstmt fun elseBranch => Forgets.node fun id span => rfl
  · rw [pure_bind, pure_bind]
    exact Forgets.node fun id span => rfl

theorem whileStmtWith_forgets (hstmt : Forgets Stmt.unplaced stmt stmt) :
    Forgets Stmt.unplaced (whileStmtWith stmt) (whileStmtWith stmt) := by
  refine .bind Forgets.advance fun keyword => ?_
  refine .bind condition_forgets fun test => ?_
  refine .bind hstmt fun body => ?_
  exact Forgets.node fun id span => rfl

theorem jumpStmt_forgets {jump : StmtKind}
    (h : ∀ id span, Stmt.plain id jump default = (Stmt.plain id jump span).unplaced) :
    Forgets Stmt.unplaced (jumpStmt jump) (jumpStmt jump) := by
  refine .bind Forgets.advance fun keyword => ?_
  refine .bind Forgets.expect fun semicolon => ?_
  exact Forgets.node h

/-- The next token says whether a value is returned. -/
theorem returnStmt_forgets : Forgets Stmt.unplaced returnStmt returnStmt := by
  refine .bind Forgets.advance fun _ => .bind Forgets.kind fun k => ?_
  dsimp only
  refine .ite Iff.rfl ?_ ?_
  · rw [pure_bind, pure_bind]
    exact .bind Forgets.expect fun _ => Forgets.node fun id span => rfl
  · rw [bind_map_left, bind_map_left]
    refine .bind (expr_forgets .lowest) fun value => .bind Forgets.expect fun _ => ?_
    exact Forgets.node fun id span => rfl

/-- The form of a statement is announced by the kind of its first token. -/
theorem stmtWith_forgets (hstmt : Forgets Stmt.unplaced stmt stmt) :
    Forgets Stmt.unplaced (stmtWith stmt) (stmtWith stmt) := by
  refine .bind Forgets.kind fun k => ?_
  dsimp only [id]
  cases StmtForm.ofToken? k with
  | none => exact exprStmt_forgets
  | some form =>
    cases form with
    | block => exact blockStmtWith_forgets hstmt
    | cond => exact ifStmtWith_forgets hstmt
    | loop => exact whileStmtWith_forgets hstmt
    | leave => exact jumpStmt_forgets fun _ _ => rfl
    | next => exact jumpStmt_forgets fun _ _ => rfl
    | ret => exact returnStmt_forgets
    | empty => exact emptyStmt_forgets

/-- Statements of bounded nesting do not look at positions. -/
theorem stmtWithin_forgets (levels : Nat) :
    Forgets Stmt.unplaced (stmtWithin levels) (stmtWithin levels) := by
  induction levels with
  | zero => exact Forgets.unexpected
  | succ levels ih => exact stmtWith_forgets ih

/-- Statements do not look at positions. -/
theorem stmt_forgets : Forgets Stmt.unplaced Phrase.stmt Phrase.stmt := by
  intro c
  show stmtWithin ((c.ahead.map Token.unplaced).length + 1) c.unplaced = _
  rw [List.length_map]
  exact stmtWithin_forgets _ c

/-! ## Programs -/

/-- A function definition keeps its type, its name, its parameters and its body. -/
theorem funcDef_forgets : Forgets FuncDef.unplaced funcDef funcDef := by
  refine .bind Forgets.position fun start => ?_
  refine .bind (basicType_forgets true) fun returns => ?_
  refine .bind Forgets.identifier fun name => ?_
  refine .bind Forgets.expect fun opening => ?_
  refine .bind (listUntil_forgets param_forgets) fun params => ?_
  refine .bind (blockWith_forgets stmt_forgets) fun body => ?_
  exact Forgets.node fun id span => rfl

/-- A look ahead sees the same token, without its position. -/
theorem peek_unplaced (c : Cursor) (places : Nat) :
    c.unplaced.peek places = (c.peek places).unplaced := by
  show (((c.current :: c.ahead).map Token.unplaced)[places]?).getD _ = _
  rw [List.getElem?_map, Cursor.peek]
  cases (c.current :: c.ahead)[places]? with
  | none => exact Token.getLastD_unplaced c.ahead c.current
  | some t => rfl

/-- What starts a function definition is seen in the kinds of tokens. -/
theorem startsFuncDef_unplaced (c : Cursor) : startsFuncDef c.unplaced = startsFuncDef c := by
  unfold startsFuncDef
  rw [peek_unplaced, peek_unplaced]
  rfl

/-- Items of a program do not look at positions. -/
theorem item_forgets : Forgets Item.unplaced item item := by
  intro c
  by_cases hfunc : startsFuncDef c = true
  · have hfunc' : startsFuncDef c.unplaced = true := by rw [startsFuncDef_unplaced, hfunc]
    rw [item_func hfunc, item_func hfunc']
    refine Echoes.map funcDef_forgets (fun _ => ?_) c
    rfl
  have hfunc' : ¬startsFuncDef c.unplaced = true := by rw [startsFuncDef_unplaced]; exact hfunc
  by_cases hdecl : c.kind.startsDecl = true
  · rw [item_decl hfunc hdecl, item_decl hfunc' (c := c.unplaced) hdecl]
    refine Echoes.map decl_forgets (fun _ => ?_) c
    rfl
  · rw [item_refused hfunc hdecl, item_refused hfunc' (c := c.unplaced) hdecl]
    exact Forgets.unexpected c

/-- A whole program is read without looking at positions. -/
theorem program_forgets : Forgets Program.unplaced program program := by
  refine .bind Forgets.freshId fun id => ?_
  refine .bind Forgets.position fun start => ?_
  refine .bind (many_forgets item_forgets) fun items => ?_
  exact .bind Forgets.position fun stop => .pure rfl

end

end Phrase

end CactLang
