import CactLang.Proofs.Reading.Declaration

/-!
# Reading statements

Only an `else` can stand after a statement and still be read as part of it, namely after
one that ends in an `if` without one. So where a branch is followed by an `else`, that
branch is closed to it, and no other `if` takes it away.

The target of an assignment is read as an expression first. It is given back as a variable
only when the `=` shows what it is.
-/

namespace CactLang

open Spelling

/-! ## Conditions -/

/-- Expressions in the parentheses of an `if` or `while`. -/
def Expr.condition : Spelling Expr where
  parts := conditionParts
  Proper e := e.isWellFormed = true
  GoesOn _ _ := False
  IsRead := IsRead

/-- A condition is an expression in parentheses. -/
theorem Expr.spells_condition {e : Expr} {ws : List Word} :
    Expr.condition.Spells e ws ↔ ∃ v,
      ws = Word.plain .openParen :: (v ++ [Word.plain .closeParen]) ∧
        (spelling .lowest).Spells e v := by
  constructor
  · rintro ⟨hp, hws⟩
    obtain ⟨_, rfl, hrest⟩ := spelled_word.mp hws
    obtain ⟨v, _, rfl, hv, hclose⟩ := spelled_append.mp hrest
    obtain ⟨_, rfl, rfl⟩ := spelled_word.mp hclose
    exact ⟨v, rfl, spells_lowest.mpr ⟨hp, hv⟩⟩
  · rintro ⟨v, rfl, hv⟩
    exact ⟨hv.1.1, (hv.2.append Spelled.nil.plain).plain⟩

/-- A condition, to complete what is missing. -/
theorem Expr.spells_condition_zero : Expr.condition.Spells .zero
    [.plain .openParen, .number .integer "0", .plain .closeParen] :=
  Expr.spells_condition.mpr ⟨_, rfl, spells_zero⟩

namespace Phrase

instance : Forward condition := by
  unfold condition
  infer_instance

/-- Conditions are read as they are written. -/
theorem condition_reads (c : Cursor) (hc : c.Closed) : Expr.condition.Reads [] condition c := by
  have hwhole : ∀ {e v}, (Expr.spelling .lowest).Spells e v → Expr.condition.Spells e
      ([] ++ [Word.plain .openParen] ++ v ++ [Word.plain .closeParen]) :=
    fun hv => Expr.spells_condition.mpr ⟨_, by simp, hv⟩
  refine Reads.expect hc (by decide) rfl ⟨_, _, Expr.spells_condition_zero⟩ fun hc₁ => ?_
  refine Reads.bind hc₁ (expr_reads .lowest _ hc₁) (fun e v hv => ⟨_, _, hwhole hv⟩) ?_
  intro e v d hd
  refine Reads.expect hd.closed (by decide) rfl ⟨_, _, hwhole hd.spells⟩ fun _ => ?_
  exact Reads.pure (hwhole hd.spells) not_false

/-- A condition that is written out is read back. -/
theorem condition_tracks (c : Cursor) (hc : c.Closed) : Expr.condition.Tracks condition c := by
  intro e ws r hws _
  obtain ⟨v, rfl, hv⟩ := Expr.spells_condition.mp hws
  refine .expect hc (by decide) fun hc₁ _ => ?_
  have hstops : (Expr.spelling .lowest).Stops e ([Word.plain .closeParen] ++ r) :=
    ⟨_, r, rfl, Expr.not_goesOn (by decide)⟩
  refine .bind hc₁ (expr_tracks .lowest _ hc₁ e v _ hv hstops) fun e' d he hd _ => ?_
  exact .expect hd (by decide) fun _ _ => .pure he

end Phrase

/-! ## Statements and their words -/

/-- A variable as an expression. -/
def LValue.toExpr (l : LValue) : Expr :=
  .plain default (.lvalue l) default

namespace Stmt

/-- Statements: an `else` goes on with one that is open to it. -/
def spelling : Spelling Stmt where
  parts := parts
  Proper s := s.isWellFormed = true
  GoesOn s k := k = .kwElse ∧ s.endsOpen = true
  IsRead := IsRead

end Stmt

/-- Blocks, which a brace ends. -/
def Block.spelling : Spelling Block where
  parts := parts
  Proper b := b.isWellFormed = true
  GoesOn _ _ := False
  IsRead := IsRead

/-- The items of a block. -/
def BlockItem.spelling : Spelling BlockItem where
  parts := parts
  Proper i := i.isWellFormed = true
  GoesOn
    | .decl _, _ => False
    | .stmt s, k => Stmt.spelling.GoesOn s k
  IsRead := IsRead

/-- Whether a block goes on at a token. -/
def TokenKind.inBlock (k : TokenKind) : Bool :=
  k ≠ .closeCurly && k ≠ .eof

/-- A block is its items in curly brackets. -/
theorem Block.spells_iff {id : NodeId} {items : List BlockItem} {span : Span}
    {scope : Option ScopeId} {hasReturn : Bool} {ws : List Word} :
    Block.spelling.Spells ⟨id, items, span, scope, hasReturn⟩ ws ↔
      ∃ v, ws = Word.plain .openCurly :: (v ++ [Word.plain .closeCurly]) ∧
        (BlockItem.spelling.many TokenKind.inBlock).Spells items v := by
  have hproper : Block.spelling.Proper ⟨id, items, span, scope, hasReturn⟩ ↔
      (BlockItem.spelling.many TokenKind.inBlock).Proper items :=
    BlockItem.areWellFormed_iff items
  have hparts : Block.spelling.parts ⟨id, items, span, scope, hasReturn⟩ =
      .plain .openCurly ::
        ((BlockItem.spelling.many TokenKind.inBlock).parts items ++ [Part.plain .closeCurly]) := by
    show Block.parts _ = _
    rw [Block.parts, BlockItem.allParts_eq_flatMap]
    rfl
  unfold Spells
  rw [hproper, hparts]
  constructor
  · rintro ⟨hp, hws⟩
    obtain ⟨_, rfl, hrest⟩ := spelled_word.mp hws
    obtain ⟨v, _, rfl, hv, hclose⟩ := spelled_append.mp hrest
    obtain ⟨_, rfl, rfl⟩ := spelled_word.mp hclose
    exact ⟨v, rfl, hp, hv⟩
  · rintro ⟨v, rfl, hp, hv⟩
    exact ⟨hp, (hv.append Spelled.nil.plain).plain⟩

namespace Stmt

variable {id : NodeId} {span : Span} {hasReturn : Bool} {ws : List Word}

/-- An assignment has its target before the sign and its value after it. -/
theorem spells_assign {target : LValue} {value : Expr} :
    spelling.Spells ⟨id, .assign target value, span, hasReturn⟩ ws ↔
      ∃ u v, ws = u ++ Word.plain .assign :: (v ++ [Word.plain .semicolon]) ∧
        (Expr.spelling .lowest).Spells target.toExpr u ∧
        (Expr.spelling .lowest).Spells value v := by
  have hproper : spelling.Proper ⟨id, .assign target value, span, hasReturn⟩ ↔
      target.toExpr.isWellFormed = true ∧ value.isWellFormed = true :=
    Bool.and_eq_true_iff
  unfold Spells
  rw [hproper]
  constructor
  · rintro ⟨⟨htarget, hvalue⟩, hws⟩
    obtain ⟨u, _, rfl, hu, hrest⟩ := spelled_append.mp hws
    obtain ⟨_, rfl, hafter⟩ := spelled_word.mp hrest
    obtain ⟨v, _, rfl, hv, hclose⟩ := spelled_append.mp hafter
    obtain ⟨_, rfl, rfl⟩ := spelled_word.mp hclose
    exact ⟨u, v, rfl, Expr.spells_lowest.mpr ⟨htarget, hu⟩, Expr.spells_lowest.mpr ⟨hvalue, hv⟩⟩
  · rintro ⟨u, v, rfl, hu, hv⟩
    exact ⟨⟨hu.1.1, hv.1.1⟩, hu.2.append (hv.2.append Spelled.nil.plain).plain⟩

/-- The empty statement is a semicolon. -/
theorem spells_empty :
    spelling.Spells ⟨id, .expr none, span, hasReturn⟩ ws ↔ ws = [.plain .semicolon] := by
  constructor
  · rintro ⟨_, hws⟩
    obtain ⟨_, rfl, rfl⟩ := spelled_word.mp hws
    rfl
  · rintro rfl
    exact ⟨rfl, Spelled.nil.plain⟩

/-- An expression becomes a statement by its semicolon. -/
theorem spells_expr {value : Expr} :
    spelling.Spells ⟨id, .expr (some value), span, hasReturn⟩ ws ↔
      ∃ v, ws = v ++ [Word.plain .semicolon] ∧ (Expr.spelling .lowest).Spells value v := by
  constructor
  · rintro ⟨hp, hws⟩
    obtain ⟨v, _, rfl, hv, hclose⟩ := spelled_append.mp hws
    obtain ⟨_, rfl, rfl⟩ := spelled_word.mp hclose
    exact ⟨v, rfl, Expr.spells_lowest.mpr ⟨hp, hv⟩⟩
  · rintro ⟨v, rfl, hv⟩
    exact ⟨hv.1.1, hv.2.append Spelled.nil.plain⟩

/-- A block is a statement as it stands. -/
theorem spells_block {block : Block} :
    spelling.Spells ⟨id, .block block, span, hasReturn⟩ ws ↔ Block.spelling.Spells block ws :=
  Iff.rfl

/-- A condition without an alternative. -/
theorem spells_if {test : Expr} {branch : Stmt} :
    spelling.Spells ⟨id, .cond test branch none, span, hasReturn⟩ ws ↔
      ∃ u v, ws = Word.plain .kwIf :: (u ++ v) ∧ Expr.condition.Spells test u ∧
        spelling.Spells branch v := by
  have hproper : spelling.Proper ⟨id, .cond test branch none, span, hasReturn⟩ ↔
      test.isWellFormed = true ∧ branch.isWellFormed = true := Bool.and_eq_true_iff
  unfold Spells
  rw [hproper]
  constructor
  · rintro ⟨⟨htest, hbranch⟩, hws⟩
    obtain ⟨_, rfl, hrest⟩ := spelled_word.mp hws
    obtain ⟨u, v, rfl, hu, hv⟩ := spelled_append.mp hrest
    exact ⟨u, v, rfl, ⟨htest, hu⟩, hbranch, hv⟩
  · rintro ⟨u, v, rfl, hu, hv⟩
    exact ⟨⟨hu.1, hv.1⟩, (hu.2.append hv.2).plain⟩

/-- A condition with an alternative. The first branch must not end with a condition that lacks
one, or the alternative would be read as its own. -/
theorem spells_ifElse {test : Expr} {branch other : Stmt} :
    spelling.Spells ⟨id, .cond test branch (some other), span, hasReturn⟩ ws ↔
      ∃ u v x, ws = Word.plain .kwIf :: (u ++ (v ++ Word.plain .kwElse :: x)) ∧
        Expr.condition.Spells test u ∧ branch.endsOpen = false ∧ spelling.Spells branch v ∧
        spelling.Spells other x := by
  -- only here a branch must not end open, as the `else` would belong to it
  have hproper : spelling.Proper ⟨id, .cond test branch (some other), span, hasReturn⟩ ↔
      test.isWellFormed = true ∧ branch.endsOpen = false ∧ branch.isWellFormed = true ∧
        other.isWellFormed = true := by
    show isWellFormed _ = true ↔ _
    rw [isWellFormed]
    simp [and_assoc]
  unfold Spells
  rw [hproper]
  constructor
  · rintro ⟨⟨htest, hclosed, hbranch, hother⟩, hws⟩
    obtain ⟨_, rfl, hrest⟩ := spelled_word.mp hws
    obtain ⟨u, _, rfl, hu, hafter⟩ := spelled_append.mp hrest
    obtain ⟨v, _, rfl, hv, helse⟩ := spelled_append.mp hafter
    obtain ⟨x, rfl, hx⟩ := spelled_word.mp helse
    exact ⟨u, v, x, rfl, ⟨htest, hu⟩, hclosed, ⟨hbranch, hv⟩, hother, hx⟩
  · rintro ⟨u, v, x, rfl, hu, hclosed, hv, hx⟩
    exact ⟨⟨hu.1, hclosed, hv.1, hx.1⟩, (hu.2.append (hv.2.append hx.2.plain)).plain⟩

/-- A loop is its condition and its body. -/
theorem spells_loop {test : Expr} {body : Stmt} :
    spelling.Spells ⟨id, .loop test body, span, hasReturn⟩ ws ↔
      ∃ u v, ws = Word.plain .kwWhile :: (u ++ v) ∧ Expr.condition.Spells test u ∧
        spelling.Spells body v := by
  have hproper : spelling.Proper ⟨id, .loop test body, span, hasReturn⟩ ↔
      test.isWellFormed = true ∧ body.isWellFormed = true := Bool.and_eq_true_iff
  unfold Spells
  rw [hproper]
  constructor
  · rintro ⟨⟨htest, hbody⟩, hws⟩
    obtain ⟨_, rfl, hrest⟩ := spelled_word.mp hws
    obtain ⟨u, v, rfl, hu, hv⟩ := spelled_append.mp hrest
    exact ⟨u, v, rfl, ⟨htest, hu⟩, hbody, hv⟩
  · rintro ⟨u, v, rfl, hu, hv⟩
    exact ⟨⟨hu.1, hv.1⟩, (hu.2.append hv.2).plain⟩

/-- Two words that are known by their kinds. -/
theorem spelled_pair {k k' : TokenKind} :
    Spelled [.plain k, .plain k'] ws ↔ ws = [.plain k, .plain k'] := by
  constructor
  · intro hws
    obtain ⟨_, rfl, hrest⟩ := spelled_word.mp hws
    obtain ⟨_, rfl, rfl⟩ := spelled_word.mp hrest
    rfl
  · rintro rfl
    exact Spelled.nil.plain.plain

theorem spells_leave {target : Option NodeId} :
    spelling.Spells ⟨id, .leave target, span, hasReturn⟩ ws ↔
      ws = [.plain .kwBreak, .plain .semicolon] :=
  (and_iff_right rfl).trans spelled_pair

theorem spells_next {target : Option NodeId} :
    spelling.Spells ⟨id, .next target, span, hasReturn⟩ ws ↔
      ws = [.plain .kwContinue, .plain .semicolon] :=
  (and_iff_right rfl).trans spelled_pair

theorem spells_return {function : Option FunctionId} :
    spelling.Spells ⟨id, .ret none function, span, hasReturn⟩ ws ↔
      ws = [.plain .kwReturn, .plain .semicolon] :=
  (and_iff_right rfl).trans spelled_pair

/-- A value stands between the keyword and the semicolon. -/
theorem spells_returnValue {value : Expr} {function : Option FunctionId} :
    spelling.Spells ⟨id, .ret (some value) function, span, hasReturn⟩ ws ↔
      ∃ v, ws = Word.plain .kwReturn :: (v ++ [Word.plain .semicolon]) ∧
        (Expr.spelling .lowest).Spells value v := by
  constructor
  · rintro ⟨hp, hws⟩
    obtain ⟨_, rfl, hrest⟩ := spelled_word.mp hws
    obtain ⟨v, _, rfl, hv, hclose⟩ := spelled_append.mp hrest
    obtain ⟨_, rfl, rfl⟩ := spelled_word.mp hclose
    exact ⟨v, rfl, Expr.spells_lowest.mpr ⟨hp, hv⟩⟩
  · rintro ⟨v, rfl, hv⟩
    exact ⟨hv.1.1, (hv.2.append Spelled.nil.plain).plain⟩

/-- A statement, to complete what is missing. -/
def empty : Stmt :=
  .plain default (.expr none) default

theorem spells_empty_semicolon : spelling.Spells empty [.plain .semicolon] :=
  spells_empty.mpr rfl

/-- A statement starts with a token that marks its form, or as an expression does. -/
theorem startsWith : spelling.StartsWith fun k =>
    (∃ form, StmtForm.ofToken? k = some form) ∨ ∃ form, OperandForm.ofToken? k = some form := by
  intro s ws hws
  obtain ⟨id, kind, span, hasReturn⟩ := s
  cases kind with
  | assign target value =>
    obtain ⟨u, v, rfl, hu, _⟩ := spells_assign.mp hws
    obtain ⟨w, u', rfl, hw⟩ := Expr.startsWith .lowest _ u hu
    exact ⟨w, _, rfl, Or.inr hw⟩
  | expr value =>
    cases value with
    | none =>
      obtain rfl := spells_empty.mp hws
      exact ⟨_, _, rfl, Or.inl ⟨.empty, rfl⟩⟩
    | some value =>
      obtain ⟨v, rfl, hv⟩ := spells_expr.mp hws
      obtain ⟨w, v', rfl, hw⟩ := Expr.startsWith .lowest _ v hv
      exact ⟨w, _, rfl, Or.inr hw⟩
  | block block =>
    obtain ⟨_, items, _, _, _⟩ := block
    obtain ⟨v, rfl, _⟩ := Block.spells_iff.mp (spells_block.mp hws)
    exact ⟨_, _, rfl, Or.inl ⟨.block, rfl⟩⟩
  | cond test branch other =>
    cases other with
    | none =>
      obtain ⟨u, v, rfl, _⟩ := spells_if.mp hws
      exact ⟨_, _, rfl, Or.inl ⟨.cond, rfl⟩⟩
    | some other =>
      obtain ⟨u, v, x, rfl, _⟩ := spells_ifElse.mp hws
      exact ⟨_, _, rfl, Or.inl ⟨.cond, rfl⟩⟩
  | loop test body =>
    obtain ⟨u, v, rfl, _⟩ := spells_loop.mp hws
    exact ⟨_, _, rfl, Or.inl ⟨.loop, rfl⟩⟩
  | leave target =>
    obtain rfl := spells_leave.mp hws
    exact ⟨_, _, rfl, Or.inl ⟨.leave, rfl⟩⟩
  | next target =>
    obtain rfl := spells_next.mp hws
    exact ⟨_, _, rfl, Or.inl ⟨.next, rfl⟩⟩
  | ret value function =>
    cases value with
    | none =>
      obtain rfl := spells_return.mp hws
      exact ⟨_, _, rfl, Or.inl ⟨.ret, rfl⟩⟩
    | some value =>
      obtain ⟨v, rfl, _⟩ := spells_returnValue.mp hws
      exact ⟨_, _, rfl, Or.inl ⟨.ret, rfl⟩⟩

end Stmt

/-- The token that marks a form of statement. -/
def StmtForm.token : StmtForm → TokenKind
  | block => .openCurly
  | cond => .kwIf
  | loop => .kwWhile
  | leave => .kwBreak
  | next => .kwContinue
  | ret => .kwReturn
  | empty => .semicolon

/-- A form of statement is announced by one token only. -/
theorem StmtForm.eq_token {k : TokenKind} {form : StmtForm} (h : ofToken? k = some form) :
    k = form.token := by
  cases k <;> simp [ofToken?] at h <;> subst h <;> rfl

/-- What starts an operand marks no statement. -/
theorem StmtForm.ofToken?_operand {k : TokenKind}
    (h : ∃ form, OperandForm.ofToken? k = some form) : ofToken? k = none := by
  obtain ⟨form, h⟩ := h
  cases k <;> simp [OperandForm.ofToken?, ofToken?] at h ⊢

/-- What marks a statement or starts an operand starts no declaration, and it is neither an
`else` nor the end of a block. -/
theorem TokenKind.of_startsStmt {k : TokenKind} (h : (∃ form, StmtForm.ofToken? k = some form) ∨
      ∃ form, OperandForm.ofToken? k = some form) :
    k.startsDecl = false ∧ k ≠ .kwElse ∧ k.inBlock = true := by
  rcases h with ⟨form, h⟩ | ⟨form, h⟩
  · cases k <;> simp [StmtForm.ofToken?] at h <;> decide
  · cases k <;> simp [OperandForm.ofToken?] at h <;> decide

/-- What starts a declaration is neither an `else` nor the end of a block. -/
theorem TokenKind.of_startsDecl {k : TokenKind} (h : k.startsDecl = true) :
    k ≠ .kwElse ∧ k.inBlock = true := by
  cases k <;> simp [startsDecl, isDataType] at h <;> decide

/-- The first token of a declaration announces one. -/
theorem Decl.startsWith_startsDecl : Decl.spelling.StartsWith (·.startsDecl = true) := by
  refine Decl.startsWith.mono fun k hk => ?_
  rcases hk with rfl | ⟨t, ht, rfl⟩
  · rfl
  · cases t with
    | void => exact absurd rfl (ht.resolve_left (by decide))
    | _ => rfl

/-- An item of a block starts neither with an `else` nor with the end of the block. -/
theorem BlockItem.startsWith :
    BlockItem.spelling.StartsWith fun k => k ≠ .kwElse ∧ k.inBlock = true := by
  intro i ws hws
  cases i with
  | decl d =>
    obtain ⟨w, u, rfl, hw⟩ := Decl.startsWith_startsDecl d ws hws
    exact ⟨w, u, rfl, TokenKind.of_startsDecl hw⟩
  | stmt s =>
    obtain ⟨w, u, rfl, hw⟩ := Stmt.startsWith s ws hws
    exact ⟨w, u, rfl, (TokenKind.of_startsStmt hw).2⟩

/-- One item of a block can stand after the other. -/
theorem BlockItem.chains : BlockItem.spelling.Chains := by
  intro i j w u _ hj hgoes
  obtain ⟨w', u', heq, hw, _⟩ := BlockItem.startsWith j _ hj
  rw [(List.cons.inj heq).1] at hgoes
  cases i with
  | decl d => exact hgoes
  | stmt s => exact hw hgoes.1

namespace Phrase

variable {stmt : Phrase Stmt} {c : Cursor}

/-! ## Never going back -/

/-- What comes after the expression that a statement starts with. -/
def exprStmtAfter (start : Position) (left : Expr) : Phrase Stmt := do
  if (← kind) = .assign then
    match left.kind with
    | .lvalue target =>
      let _ ← advance
      let value ← expr .lowest
      let _ ← expect .semicolon
      let id ← freshId
      return .plain id (.assign target value) (← spanFrom start)
    | _ => unexpected "left side of an assignment must be a variable"
  else
    let _ ← expect .semicolon
    let id ← freshId
    return .plain id (.expr (some left)) (← spanFrom start)

/-- An expression is read first, and the next token says what it is for. -/
theorem exprStmt_eq : exprStmt = (do
    let start ← position
    let left ← expr .lowest
    exprStmtAfter start left) :=
  rfl

instance (start : Position) (left : Expr) : Forward (exprStmtAfter start left) := by
  unfold exprStmtAfter
  refine .bind inferInstance fun k => ?_
  by_cases hk : k = .assign
  · rw [if_pos hk]
    split <;> infer_instance
  · rw [if_neg hk]
    infer_instance

instance : Forward exprStmt := by
  rw [exprStmt_eq]
  infer_instance

instance : Forward emptyStmt := by
  unfold emptyStmt
  infer_instance

instance [Forward stmt] : Forward (blockItemWith stmt) := by
  unfold blockItemWith
  infer_instance

instance [Forward stmt] : Forward (blockWith stmt) := by
  unfold blockWith
  infer_instance

instance [Forward stmt] : Forward (blockStmtWith stmt) := by
  unfold blockStmtWith
  infer_instance

instance [Forward stmt] : Forward (ifStmtWith stmt) := by
  unfold ifStmtWith
  dsimp only
  infer_instance

instance [Forward stmt] : Forward (whileStmtWith stmt) := by
  unfold whileStmtWith
  infer_instance

instance (jump : StmtKind) : Forward (jumpStmt jump) := by
  unfold jumpStmt
  infer_instance

instance : Forward returnStmt := by
  unfold returnStmt
  dsimp only
  infer_instance

instance [Forward stmt] : Forward (stmtWith stmt) := by
  unfold stmtWith breakStmt continueStmt
  refine .bind inferInstance fun k => ?_
  split <;> infer_instance

instance (levels : Nat) : Forward (stmtWithin levels) := by
  induction levels with
  | zero =>
    unfold stmtWithin
    infer_instance
  | succ levels ih =>
    unfold stmtWithin
    infer_instance

instance : Forward Phrase.stmt := by
  unfold Phrase.stmt
  infer_instance

instance : Forward block := by
  unfold block
  infer_instance

/-! ## Reading what stands there -/

/-- An assignment: its value and a semicolon. -/
theorem exprStmtAfter_assign {start : Position} {left : Expr} {target : LValue}
    (hk : c.kind = .assign) (hleft : left.kind = .lvalue target) :
    exprStmtAfter start left c = (do
      let _ ← advance
      let value ← expr .lowest
      let _ ← expect .semicolon
      let id ← freshId
      return .plain id (.assign target value) (← spanFrom start) : Phrase Stmt) c := by
  show (if c.kind = .assign then _ else _ : Phrase Stmt) c = _
  rw [if_pos hk, hleft]

/-- An assignment to anything else is refused. -/
theorem exprStmtAfter_refused {start : Position} {left : Expr} (hk : c.kind = .assign)
    (hleft : ∀ target, left.kind ≠ .lvalue target) :
    exprStmtAfter start left c =
      (unexpected "left side of an assignment must be a variable" : Phrase Stmt) c := by
  show (if c.kind = .assign then _ else _ : Phrase Stmt) c = _
  rw [if_pos hk]
  cases hkind : left.kind with
  | lvalue target => exact absurd hkind (hleft target)
  | _ => rfl

/-- Without an assignment sign, the expression is the statement. -/
theorem exprStmtAfter_plain {start : Position} {left : Expr} (hk : c.kind ≠ .assign) :
    exprStmtAfter start left c = (do
      let _ ← expect .semicolon
      let id ← freshId
      return .plain id (.expr (some left)) (← spanFrom start) : Phrase Stmt) c := by
  show (if c.kind = .assign then _ else _ : Phrase Stmt) c = _
  rw [if_neg hk]

/-- Assignments and expressions are read as they are written. If a sign follows what cannot be
assigned to, it is the sign that is blamed. -/
theorem exprStmt_reads (hc : c.Closed) : Stmt.spelling.Reads [] exprStmt c := by
  rw [exprStmt_eq]
  have hplain : ∀ {left ws}, (Expr.spelling .lowest).Spells left ws → ∀ id span,
      Stmt.spelling.Spells (.plain id (.expr (some left)) span)
        ([] ++ ws ++ [Word.plain .semicolon]) :=
    fun hws _ _ => Stmt.spells_expr.mpr ⟨_, rfl, hws⟩
  refine Reads.position fun start => ?_
  refine Reads.bind hc (expr_reads .lowest c hc) (fun _ _ h => ⟨_, _, hplain h default default⟩) ?_
  intro left ws d hd
  by_cases hk : d.kind = .assign
  · -- whether the left side is a variable is asked only here, after all of it was read
    by_cases hleft : ∃ target, left.kind = .lvalue target
    · obtain ⟨target, hleft⟩ := hleft
      have htarget : (Expr.spelling .lowest).Spells target.toExpr ws := by
        obtain ⟨id, kind, span, info⟩ := left
        obtain rfl : kind = .lvalue target := hleft
        exact Expr.spells_lvalue.mpr (Expr.spells_lvalue.mp hd.spells)
      have hwhole : ∀ {value v}, (Expr.spelling .lowest).Spells value v → ∀ id span,
          Stmt.spelling.Spells (.plain id (.assign target value) span)
            ([] ++ ws ++ [Word.plain .assign] ++ v ++ [Word.plain .semicolon]) :=
        fun hv _ _ => Stmt.spells_assign.mpr ⟨ws, _, by simp, htarget, hv⟩
      refine Reads.congr (exprStmtAfter_assign hk hleft) ?_
      refine Reads.advance hd.closed (by rw [hk]; decide) fun hc₁ => ?_
      rw [Token.word_eq_plain hk rfl]
      refine Reads.bind hc₁ (expr_reads .lowest _ hc₁)
        (fun _ _ h => ⟨_, _, hwhole h default default⟩) ?_
      intro value v e he
      have hspells := hwhole he.spells
      refine Reads.expect he.closed (by decide) rfl ⟨_, _, hspells default default⟩ fun _ => ?_
      exact Reads.node hspells fun _ _ h => Bool.noConfusion h.2
    · -- as a statement of its own the expression can still go on with a semicolon
      refine Reads.congr (exprStmtAfter_refused hk fun target h => hleft ⟨target, h⟩) ?_
      exact Reads.unexpected ⟨_, _, hplain hd.spells default default⟩
  · refine Reads.congr (exprStmtAfter_plain hk) ?_
    have hspells := hplain hd.spells
    refine Reads.expect hd.closed (by decide) rfl ⟨_, _, hspells default default⟩ fun _ => ?_
    exact Reads.node hspells fun _ _ h => Bool.noConfusion h.2

/-- The empty statement is read as it is written. -/
theorem emptyStmt_reads (hc : c.Closed) (hk : c.kind = .semicolon) :
    Stmt.spelling.Reads [] emptyStmt c := by
  refine Reads.advance hc (by rw [hk]; decide) fun _ => ?_
  rw [Token.word_eq_plain hk rfl]
  exact Reads.node (fun _ _ => Stmt.spells_empty.mpr rfl) fun _ _ h => Bool.noConfusion h.2

/-- A jump is its keyword and a semicolon. -/
theorem jumpStmt_reads {jump : StmtKind} {k : TokenKind} (hc : c.Closed) (hk : c.kind = k)
    (hne : k ≠ .eof) (htext : k.hasText = false)
    (hspells : ∀ id span, Stmt.spelling.Spells (.plain id jump span)
      [.plain k, .plain .semicolon])
    (hstops : ∀ id span, (Stmt.plain id jump span).endsOpen = false) :
    Stmt.spelling.Reads [] (jumpStmt jump) c := by
  refine Reads.advance hc (by rw [hk]; exact hne) fun hc₁ => ?_
  rw [Token.word_eq_plain hk htext]
  refine Reads.expect hc₁ (by decide) rfl ⟨_, _, hspells default default⟩ fun _ => ?_
  refine Reads.node hspells fun id span h => ?_
  exact Bool.noConfusion ((hstops id span).symm.trans h.2)

/-- A return is read with its value, unless a semicolon follows the keyword. -/
theorem returnStmt_reads (hc : c.Closed) (hk : c.kind = .kwReturn) :
    Stmt.spelling.Reads [] returnStmt c := by
  refine Reads.advance hc (by rw [hk]; decide) fun hc₁ => Reads.kind ?_
  rw [Token.word_eq_plain hk rfl]
  dsimp only
  by_cases hsemicolon : c.advance.kind = .semicolon
  · rw [if_pos hsemicolon, pure_bind]
    have hspells : ∀ id span, Stmt.spelling.Spells (.plain id (.ret none none) span)
        ([] ++ [Word.plain .kwReturn] ++ [Word.plain .semicolon]) :=
      fun _ _ => Stmt.spells_return.mpr rfl
    refine Reads.expect hc₁ (by decide) rfl ⟨_, _, hspells default default⟩ fun _ => ?_
    exact Reads.node hspells fun _ _ h => Bool.noConfusion h.2
  · rw [if_neg hsemicolon, bind_map_left]
    have hwhole : ∀ {value v}, (Expr.spelling .lowest).Spells value v → ∀ id span,
        Stmt.spelling.Spells (.plain id (.ret (some value) none) span)
          ([] ++ [Word.plain .kwReturn] ++ v ++ [Word.plain .semicolon]) :=
      fun hv _ _ => Stmt.spells_returnValue.mpr ⟨_, by simp, hv⟩
    refine Reads.bind hc₁ (expr_reads .lowest _ hc₁)
      (fun _ _ h => ⟨_, _, hwhole h default default⟩) ?_
    intro value v d hd
    have hspells := hwhole hd.spells
    refine Reads.expect hd.closed (by decide) rfl ⟨_, _, hspells default default⟩ fun _ => ?_
    exact Reads.node hspells fun _ _ h => Bool.noConfusion h.2

/-- The statements inside are read as they should, at every cursor. -/
def ReadsStmt (stmt : Phrase Stmt) : Prop :=
  ∀ d, d.Closed → Stmt.spelling.Reads [] stmt d

/-- Declarations and statements are read as they are written, told apart by their first token. -/
theorem blockItemWith_reads (hstmt : ReadsStmt stmt) (c : Cursor) (hc : c.Closed) :
    BlockItem.spelling.Reads [] (blockItemWith stmt) c := by
  refine Reads.kind ?_
  by_cases hk : c.kind.startsDecl = true
  · rw [if_pos hk]
    exact Reads.map (decl_reads c hc) (fun _ _ h => h) fun _ _ h => h
  · rw [if_neg hk]
    exact Reads.map (hstmt c hc) (fun _ _ h => h) fun _ _ h => h

/-- Blocks are read as they are written. -/
theorem blockWith_reads (hstmt : ReadsStmt stmt) (c : Cursor) (hc : c.Closed) :
    Block.spelling.Reads [] (blockWith stmt) c := by
  have hwhole : ∀ {items v}, (BlockItem.spelling.many TokenKind.inBlock).Spells items v →
      ∀ id span, Block.spelling.Spells (.plain id items span)
        ([] ++ [Word.plain .openCurly] ++ v ++ [Word.plain .closeCurly]) :=
    fun hv _ _ => Block.spells_iff.mpr ⟨_, by simp, hv⟩
  have hitems : ∀ d : Cursor, d.Closed → (BlockItem.spelling.many TokenKind.inBlock).Reads []
      (many TokenKind.inBlock (blockItemWith stmt)) d :=
    many_reads rfl (BlockItem.startsWith.mono fun _ _ => trivial)
      fun d hd _ => blockItemWith_reads hstmt d hd
  refine Reads.position fun start => ?_
  refine Reads.expect hc (by decide) rfl ⟨_, _, hwhole many_nil default default⟩ fun hc₁ => ?_
  refine Reads.bind hc₁ (hitems _ hc₁) (fun _ _ h => ⟨_, _, hwhole h default default⟩) ?_
  intro items v d hd
  have hspells := hwhole hd.spells
  refine Reads.expect hd.closed (by decide) rfl ⟨_, _, hspells default default⟩ fun _ => ?_
  exact Reads.node hspells fun _ _ => not_false

/-- A block is read as a statement. -/
theorem blockStmtWith_reads (hstmt : ReadsStmt stmt) (hc : c.Closed) :
    Stmt.spelling.Reads [] (blockStmtWith stmt) c := by
  have hwhole : ∀ {block v}, Block.spelling.Spells block v → ∀ id span,
      Stmt.spelling.Spells (.plain id (.block block) span) ([] ++ v) :=
    fun hv _ _ => Stmt.spells_block.mpr hv
  refine Reads.position fun start => ?_
  refine Reads.bind hc (blockWith_reads hstmt c hc)
    (fun _ _ h => (hwhole h default default).viable) ?_
  intro block v d hd
  exact Reads.node (hwhole hd.spells) fun _ _ h => Bool.noConfusion h.2

/-- A condition is read with its alternative if the keyword of one follows. -/
theorem ifStmtWith_reads (hstmt : ReadsStmt stmt) (hc : c.Closed) (hk : c.kind = .kwIf) :
    Stmt.spelling.Reads [] (ifStmtWith stmt) c := by
  refine Reads.advance hc (by rw [hk]; decide) fun hc₁ => ?_
  rw [Token.word_eq_plain hk rfl]
  have hif : ∀ {test u branch v}, Expr.condition.Spells test u → Stmt.spelling.Spells branch v →
      ∀ id span, Stmt.spelling.Spells (.plain id (.cond test branch none) span)
        ([] ++ [Word.plain .kwIf] ++ u ++ v) :=
    fun hu hv _ _ => Stmt.spells_if.mpr ⟨_, _, by simp, hu, hv⟩
  refine Reads.bind hc₁ (condition_reads _ hc₁) ?_ ?_
  · intro test u hu
    exact ⟨_, _, hif hu Stmt.spells_empty_semicolon default default⟩
  intro test u d hd
  refine Reads.bind hd.closed (hstmt d hd.closed) ?_ ?_
  · intro branch v hv
    exact (hif hd.spells hv default default).viable
  intro branch v e he
  refine Reads.kind ?_
  dsimp only
  by_cases helse : e.kind = .kwElse
  · rw [if_pos helse]
    refine Reads.advance he.closed (by rw [helse]; decide) fun he₁ => ?_
    rw [Token.word_eq_plain helse rfl, bind_map_left]
    -- the branch has been read to where an `else` stands, so it does not take one
    have hclosed : branch.endsOpen = false :=
      Bool.eq_false_iff.mpr fun hopen => he.stops ⟨helse, hopen⟩
    have hwhole : ∀ {other x}, Stmt.spelling.Spells other x → ∀ id span,
        Stmt.spelling.Spells (.plain id (.cond test branch (some other)) span)
          ([] ++ [Word.plain .kwIf] ++ u ++ v ++ [Word.plain .kwElse] ++ x) :=
      fun hx _ _ => Stmt.spells_ifElse.mpr
        ⟨_, _, _, by simp, hd.spells, hclosed, he.spells, hx⟩
    refine Reads.bind he₁ (hstmt _ he₁) (fun _ _ h => (hwhole h default default).viable) ?_
    intro other x f hf
    exact Reads.node (hwhole hf.spells) fun _ _ => hf.stops
  · rw [if_neg helse, pure_bind]
    exact Reads.node (hif hd.spells he.spells) fun _ _ h => helse h.1

/-- Loops are read as they are written. -/
theorem whileStmtWith_reads (hstmt : ReadsStmt stmt) (hc : c.Closed) (hk : c.kind = .kwWhile) :
    Stmt.spelling.Reads [] (whileStmtWith stmt) c := by
  refine Reads.advance hc (by rw [hk]; decide) fun hc₁ => ?_
  rw [Token.word_eq_plain hk rfl]
  have hwhole : ∀ {test u body v}, Expr.condition.Spells test u → Stmt.spelling.Spells body v →
      ∀ id span, Stmt.spelling.Spells (.plain id (.loop test body) span)
        ([] ++ [Word.plain .kwWhile] ++ u ++ v) :=
    fun hu hv _ _ => Stmt.spells_loop.mpr ⟨_, _, by simp, hu, hv⟩
  refine Reads.bind hc₁ (condition_reads _ hc₁) ?_ ?_
  · intro test u hu
    exact ⟨_, _, hwhole hu Stmt.spells_empty_semicolon default default⟩
  intro test u d hd
  refine Reads.bind hd.closed (hstmt d hd.closed) ?_ ?_
  · intro body v hv
    exact (hwhole hd.spells hv default default).viable
  intro body v e he
  exact Reads.node (hwhole hd.spells he.spells) fun _ _ => he.stops

/-- Statements are read as they are written, by the form that their first token announces. -/
theorem stmtWith_reads (hstmt : ReadsStmt stmt) : ReadsStmt (stmtWith stmt) := by
  intro c hc
  refine Reads.kind ?_
  cases hform : StmtForm.ofToken? c.kind with
  | none => exact exprStmt_reads hc
  | some form =>
    have hkind := StmtForm.eq_token hform
    cases form with
    | block => exact blockStmtWith_reads hstmt hc
    | cond => exact ifStmtWith_reads hstmt hc hkind
    | loop => exact whileStmtWith_reads hstmt hc hkind
    | leave =>
      exact jumpStmt_reads hc hkind (by decide) rfl (fun _ _ => Stmt.spells_leave.mpr rfl)
        fun _ _ => rfl
    | next =>
      exact jumpStmt_reads hc hkind (by decide) rfl (fun _ _ => Stmt.spells_next.mpr rfl)
        fun _ _ => rfl
    | ret => exact returnStmt_reads hc hkind
    | empty => exact emptyStmt_reads hc hkind

/-- However many levels of nesting are left, statements are read as they are written. -/
theorem stmtWithin_reads (levels : Nat) : ReadsStmt (stmtWithin levels) := by
  induction levels with
  | zero =>
    intro c _
    exact Reads.unexpected ⟨_, _, Stmt.spells_empty_semicolon⟩
  | succ levels ih => exact stmtWith_reads ih

/-- Statements are read as they are written. -/
theorem stmt_reads : ReadsStmt Phrase.stmt := by
  intro c hc
  have hrun : Phrase.stmt c = stmtWithin (c.ahead.length + 1) c := rfl
  exact Reads.congr hrun (stmtWithin_reads _ c hc)

/-- The body of a function is read as it is written. -/
theorem block_reads (c : Cursor) (hc : c.Closed) : Block.spelling.Reads [] block c :=
  blockWith_reads stmt_reads c hc

/-! ## Along a statement -/

/-- The statements inside are followed at every cursor with fewer than `n` tokens ahead. -/
def TracksStmt (stmt : Phrase Stmt) (n : Nat) : Prop :=
  ∀ d, d.Closed → d.ahead.length < n → Stmt.spelling.Tracks stmt d

/-- A statement without a mark is read as an expression. -/
theorem stmtWith_none (h : StmtForm.ofToken? c.kind = none) : stmtWith stmt c = exprStmt c := by
  rw [stmtWith, kind_bind, h]

/-- An assignment that is written out is read back. -/
theorem assign_follows {target : LValue} {value : Expr} {id : NodeId} {span : Span}
    {hasReturn : Bool} {u v r : List Word} (hc : c.Closed)
    (hu : (Expr.spelling .lowest).Spells target.toExpr u)
    (hv : (Expr.spelling .lowest).Spells value v) :
    exprStmt.Follows c (u ++ Word.plain .assign :: (v ++ [Word.plain .semicolon])) r
      (Stmt.IsRead · ⟨id, .assign target value, span, hasReturn⟩) := by
  rw [exprStmt_eq]
  refine .position fun start => ?_
  have hassign : (Expr.spelling .lowest).Stops target.toExpr
      (Word.plain .assign :: (v ++ [Word.plain .semicolon]) ++ r) :=
    ⟨_, _, rfl, Expr.not_goesOn (by decide)⟩
  refine .bind hc (expr_tracks .lowest c hc _ u _ hu hassign) fun left d hleft hd _ => ?_
  obtain ⟨target', hkind, htarget⟩ := hleft.exists_lvalue
  refine .of_head rfl fun hhead => ?_
  refine .congr (exprStmtAfter_assign (congrArg Word.kind hhead) hkind) ?_
  refine .advance hd TokenKind.noConfusion fun _ hd₁ _ => ?_
  have hsemicolon : (Expr.spelling .lowest).Stops value ([Word.plain .semicolon] ++ r) :=
    ⟨_, _, rfl, Expr.not_goesOn (by decide)⟩
  refine .bind hd₁ (expr_tracks .lowest _ hd₁ value v _ hv hsemicolon)
    fun value' e hvalue he _ => ?_
  exact .expect he (by decide) fun _ _ => .node fun _ _ => .assign htarget hvalue

/-- An expression statement that is written out is read back. -/
theorem exprStmt_follows {value : Expr} {id : NodeId} {span : Span} {hasReturn : Bool}
    {v r : List Word} (hc : c.Closed) (hv : (Expr.spelling .lowest).Spells value v) :
    exprStmt.Follows c (v ++ [Word.plain .semicolon]) r
      (Stmt.IsRead · ⟨id, .expr (some value), span, hasReturn⟩) := by
  rw [exprStmt_eq]
  refine .position fun start => ?_
  have hsemicolon : (Expr.spelling .lowest).Stops value ([Word.plain .semicolon] ++ r) :=
    ⟨_, _, rfl, Expr.not_goesOn (by decide)⟩
  refine .bind hc (expr_tracks .lowest c hc value v _ hv hsemicolon) fun left d hleft hd _ => ?_
  refine .of_head rfl fun hhead => ?_
  have hk : d.kind ≠ .assign := by
    rw [← d.word_kind, hhead]
    exact TokenKind.noConfusion
  refine .congr (exprStmtAfter_plain hk) ?_
  exact .expect hd (by decide) fun _ _ => .node fun _ _ => .expr (.some hleft)

/-- A jump is followed along its keyword and its semicolon. -/
theorem jumpStmt_follows {jump : StmtKind} {k : TokenKind} {s : Stmt} {r : List Word}
    (hc : c.Closed) (hne : k ≠ .eof) (h : ∀ id span, Stmt.IsRead (.plain id jump span) s) :
    (jumpStmt jump).Follows c [.plain k, .plain .semicolon] r (Stmt.IsRead · s) := by
  refine .advance hc hne fun _ hc₁ _ => ?_
  exact .expect hc₁ (by decide) fun _ _ => .node h

/-- A return without a value is read back. -/
theorem returnStmt_follows {id : NodeId} {function : Option FunctionId} {span : Span}
    {hasReturn : Bool} {r : List Word} (hc : c.Closed) :
    returnStmt.Follows c [.plain .kwReturn, .plain .semicolon] r
      (Stmt.IsRead · ⟨id, .ret none function, span, hasReturn⟩) := by
  refine .advance hc TokenKind.noConfusion fun _ hc₁ _ => ?_
  refine .look_plain rfl ?_
  rw [if_pos rfl, pure_bind]
  exact .expect hc₁ (by decide) fun _ _ => .node fun _ _ => .ret .none

/-- A return with a value is read back. -/
theorem returnValue_follows {value : Expr} {id : NodeId} {function : Option FunctionId}
    {span : Span} {hasReturn : Bool} {v r : List Word} (hc : c.Closed)
    (hv : (Expr.spelling .lowest).Spells value v) :
    returnStmt.Follows c (Word.plain .kwReturn :: (v ++ [Word.plain .semicolon])) r
      (Stmt.IsRead · ⟨id, .ret (some value) function, span, hasReturn⟩) := by
  refine .advance hc TokenKind.noConfusion fun _ hc₁ _ => ?_
  obtain ⟨w, x, hwx, form, hform⟩ := Expr.startsWith .lowest value v hv
  have hk : w.kind ≠ .semicolon := by
    intro hsemicolon
    rw [hsemicolon] at hform
    exact absurd hform (by simp [OperandForm.ofToken?])
  refine .look (w := w) (u := x ++ [Word.plain .semicolon] ++ r) rfl (by simp [hwx]) ?_
  rw [if_neg hk, bind_map_left]
  have hstops : (Expr.spelling .lowest).Stops value ([Word.plain .semicolon] ++ r) :=
    ⟨_, _, rfl, Expr.not_goesOn (by decide)⟩
  refine .bind hc₁ (expr_tracks .lowest _ hc₁ value v _ hv hstops) fun value' d hvalue hd _ => ?_
  exact .expect hd (by decide) fun _ _ => .node fun _ _ => .ret (.some hvalue)

section Nested

variable [Forward stmt]

/-- An item of a block that is written out is read back. -/
theorem blockItemWith_tracks (hc : c.Closed) (hstmt : Stmt.spelling.Tracks stmt c) :
    BlockItem.spelling.Tracks (blockItemWith stmt) c := by
  intro i ws r hws hr
  cases i with
  | decl d =>
    obtain ⟨w, u, rfl, hw⟩ := Decl.startsWith_startsDecl d ws hws
    refine .look rfl rfl ?_
    rw [if_pos hw]
    exact .map (decl_tracks c hc d _ r hws hr) fun _ h => BlockItem.IsRead.decl h
  | stmt s =>
    obtain ⟨w, u, rfl, hw⟩ := Stmt.startsWith s ws hws
    refine .look rfl rfl ?_
    rw [if_neg (Bool.eq_false_iff.mp (TokenKind.of_startsStmt hw).1)]
    exact .map (hstmt s _ r hws hr) fun _ h => BlockItem.IsRead.stmt h

/-- A block that is written out is read back, if the statements in it are. -/
theorem blockWith_tracks (hc : c.Closed) (hstmt : TracksStmt stmt c.ahead.length) :
    Block.spelling.Tracks (blockWith stmt) c := by
  intro block ws r hws hr
  obtain ⟨id, items, span, scope, hasReturn⟩ := block
  obtain ⟨v, rfl, hv⟩ := Block.spells_iff.mp hws
  refine .position fun start => .expect hc (by decide) fun hc₁ hlength => ?_
  have hitems : (BlockItem.spelling.many TokenKind.inBlock).Tracks
      (many TokenKind.inBlock (blockItemWith stmt)) c.advance :=
    many_tracks rfl (BlockItem.startsWith.mono fun _ h => h.2) BlockItem.chains _ hc₁
      fun d hd hle => blockItemWith_tracks hd (hstmt d hd (by omega))
  have hstops : (BlockItem.spelling.many TokenKind.inBlock).Stops items
      ([Word.plain .closeCurly] ++ r) := by
    refine ⟨_, _, rfl, ?_⟩
    rintro (hmore | ⟨i, _, hgoes⟩)
    · exact Bool.noConfusion hmore
    · cases i with
      | decl d => exact hgoes
      | stmt s => exact TokenKind.noConfusion hgoes.1
  refine .bind hc₁ (hitems items v _ hv hstops) fun items' d h hd _ => ?_
  exact .expect hd (by decide) fun _ _ => .node fun _ _ => .mk h

/-- A block that is written out as a statement is read back. -/
theorem blockStmtWith_follows {block : Block} {id : NodeId} {span : Span} {hasReturn : Bool}
    {ws : List Word} {w : Word} {u : List Word} (hc : c.Closed)
    (hstmt : TracksStmt stmt c.ahead.length) (hws : Block.spelling.Spells block ws) :
    (blockStmtWith stmt).Follows c ws (w :: u)
      (Stmt.IsRead · ⟨id, .block block, span, hasReturn⟩) := by
  refine .position fun start => ?_
  refine .bind_last hc (blockWith_tracks hc hstmt block ws _ hws ⟨w, u, rfl, not_false⟩) ?_
  intro block' d h _
  exact .node fun _ _ => .block h

/-- A condition without an alternative is read back, if the next word does not announce one. -/
theorem ifStmt_follows {test : Expr} {branch : Stmt} {id : NodeId} {span : Span}
    {hasReturn : Bool} {u v : List Word} {w : Word} {x : List Word} (hc : c.Closed)
    (hstmt : TracksStmt stmt c.ahead.length) (hu : Expr.condition.Spells test u)
    (hv : Stmt.spelling.Spells branch v) (helse : w.kind ≠ .kwElse) :
    (ifStmtWith stmt).Follows c (Word.plain .kwIf :: (u ++ v)) (w :: x)
      (Stmt.IsRead · ⟨id, .cond test branch none, span, hasReturn⟩) := by
  refine .advance hc TokenKind.noConfusion fun _ hc₁ hlength₁ => ?_
  have hcondition := stops_of_never (S := Expr.condition) (a := test) (fun _ => not_false) v w x
  refine .bind hc₁ (condition_tracks _ hc₁ test u _ hu hcondition) ?_
  intro test' d htest hd hlength₂
  have hbranch : Stmt.spelling.Stops branch (w :: x) := ⟨w, x, rfl, fun h => helse h.1⟩
  refine .bind_last hd (hstmt d hd (by omega) branch v _ hv hbranch) fun branch' e h _ => ?_
  refine .look rfl rfl ?_
  rw [if_neg helse, pure_bind]
  exact .node fun _ _ => .cond htest h .none

/-- A condition with an alternative is read back. As the first branch ends closed, it does not
take the alternative for its own. -/
theorem ifElse_follows {test : Expr} {branch other : Stmt} {id : NodeId} {span : Span}
    {hasReturn : Bool} {u v y r : List Word} (hc : c.Closed)
    (hstmt : TracksStmt stmt c.ahead.length) (hu : Expr.condition.Spells test u)
    (hclosed : branch.endsOpen = false) (hv : Stmt.spelling.Spells branch v)
    (hy : Stmt.spelling.Spells other y) (hr : Stmt.spelling.Stops other r) :
    (ifStmtWith stmt).Follows c (Word.plain .kwIf :: (u ++ (v ++ Word.plain .kwElse :: y))) r
      (Stmt.IsRead · ⟨id, .cond test branch (some other), span, hasReturn⟩) := by
  refine .advance hc TokenKind.noConfusion fun _ hc₁ hlength₁ => ?_
  have hcondition : Expr.condition.Stops test (v ++ Word.plain .kwElse :: y ++ r) := by
    rw [List.append_assoc]
    exact stops_of_never (fun _ => not_false) v _ _
  refine .bind hc₁ (condition_tracks _ hc₁ test u _ hu hcondition) ?_
  intro test' d htest hd hlength₂
  -- the branch is closed to the `else` after it
  have hbranch : Stmt.spelling.Stops branch (Word.plain .kwElse :: y ++ r) := by
    refine ⟨_, _, rfl, fun h => ?_⟩
    exact Bool.noConfusion (hclosed.symm.trans h.2)
  refine .bind hd (hstmt d hd (by omega) branch v _ hv hbranch) fun branch' e h he hlength₃ => ?_
  refine .look_plain rfl ?_
  rw [if_pos rfl]
  refine .advance he TokenKind.noConfusion fun _ he₁ hlength₄ => ?_
  rw [bind_map_left]
  refine .bind_last he₁ (hstmt _ he₁ (by omega) other y r hy hr) fun other' _ hother _ => ?_
  exact .node fun _ _ => .cond htest h (.some hother)

/-- A loop that is written out is read back. -/
theorem whileStmt_follows {test : Expr} {body : Stmt} {id : NodeId} {span : Span}
    {hasReturn : Bool} {u v : List Word} {w : Word} {x : List Word} (hc : c.Closed)
    (hstmt : TracksStmt stmt c.ahead.length) (hu : Expr.condition.Spells test u)
    (hv : Stmt.spelling.Spells body v) (hr : Stmt.spelling.Stops body (w :: x)) :
    (whileStmtWith stmt).Follows c (Word.plain .kwWhile :: (u ++ v)) (w :: x)
      (Stmt.IsRead · ⟨id, .loop test body, span, hasReturn⟩) := by
  refine .advance hc TokenKind.noConfusion fun _ hc₁ hlength₁ => ?_
  have hcondition := stops_of_never (S := Expr.condition) (a := test) (fun _ => not_false) v w x
  refine .bind hc₁ (condition_tracks _ hc₁ test u _ hu hcondition) ?_
  intro test' d htest hd hlength₂
  refine .bind_last hd (hstmt d hd (by omega) body v _ hv hr) fun body' e h _ => ?_
  exact .node fun _ _ => .loop htest h

end Nested

/-- A statement that is written out is read back, whatever its form. -/
theorem stmtWith_tracks [Forward stmt] (hc : c.Closed) (hstmt : TracksStmt stmt c.ahead.length) :
    Stmt.spelling.Tracks (stmtWith stmt) c := by
  intro s ws r hws hr
  obtain ⟨w, x, rfl, hgoes⟩ := hr
  obtain ⟨id, kind, span, hasReturn⟩ := s
  cases kind with
  | assign target value =>
    obtain ⟨u, v, rfl, hu, hv⟩ := Stmt.spells_assign.mp hws
    -- a statement that starts as an expression has no form of its own
    obtain ⟨w', u', rfl, hw'⟩ := Expr.startsWith .lowest _ u hu
    refine .of_head rfl fun hhead => .congr (stmtWith_none ?_) (assign_follows hc hu hv)
    rw [← c.word_kind, hhead]
    exact StmtForm.ofToken?_operand hw'
  | expr value =>
    cases value with
    | none =>
      obtain rfl := Stmt.spells_empty.mp hws
      refine .look_plain rfl (.advance hc TokenKind.noConfusion fun _ _ _ => ?_)
      exact .node fun _ _ => Stmt.IsRead.expr .none
    | some value =>
      obtain ⟨v, rfl, hv⟩ := Stmt.spells_expr.mp hws
      obtain ⟨w', v', rfl, hw'⟩ := Expr.startsWith .lowest _ v hv
      refine .of_head rfl fun hhead => .congr (stmtWith_none ?_) (exprStmt_follows hc hv)
      rw [← c.word_kind, hhead]
      exact StmtForm.ofToken?_operand hw'
  | block block =>
    have hblock := Stmt.spells_block.mp hws
    obtain ⟨_, items, _, _, _⟩ := block
    obtain ⟨v, rfl, _⟩ := Block.spells_iff.mp hblock
    exact .look_plain rfl (blockStmtWith_follows hc hstmt hblock)
  | cond test branch other =>
    cases other with
    | none =>
      obtain ⟨u, v, rfl, hu, hv⟩ := Stmt.spells_if.mp hws
      exact .look_plain rfl (ifStmt_follows hc hstmt hu hv fun h => hgoes ⟨h, rfl⟩)
    | some other =>
      obtain ⟨u, v, y, rfl, hu, hclosed, hv, hy⟩ := Stmt.spells_ifElse.mp hws
      exact .look_plain rfl (ifElse_follows hc hstmt hu hclosed hv hy ⟨w, x, rfl, hgoes⟩)
  | loop test body =>
    obtain ⟨u, v, rfl, hu, hv⟩ := Stmt.spells_loop.mp hws
    exact .look_plain rfl (whileStmt_follows hc hstmt hu hv ⟨w, x, rfl, hgoes⟩)
  | leave target =>
    obtain rfl := Stmt.spells_leave.mp hws
    exact .look_plain rfl (jumpStmt_follows hc (by decide) fun _ _ => Stmt.IsRead.leave)
  | next target =>
    obtain rfl := Stmt.spells_next.mp hws
    exact .look_plain rfl (jumpStmt_follows hc (by decide) fun _ _ => Stmt.IsRead.next)
  | ret value function =>
    cases value with
    | none =>
      obtain rfl := Stmt.spells_return.mp hws
      exact .look_plain rfl (returnStmt_follows hc)
    | some value =>
      obtain ⟨v, rfl, hv⟩ := Stmt.spells_returnValue.mp hws
      exact .look_plain rfl (returnValue_follows hc hv)

/-- A statement is read back if it has no more tokens than there are levels. -/
theorem stmtWithin_tracks (levels : Nat) : TracksStmt (stmtWithin levels) levels := by
  induction levels with
  | zero =>
    intro c _ h
    exact absurd h (Nat.not_lt_zero _)
  | succ levels ih =>
    intro c hc hlevels
    exact stmtWith_tracks hc fun d hd hlt => ih d hd (by omega)

/-- A statement that is written out is read back. -/
theorem stmt_tracks (c : Cursor) (hc : c.Closed) : Stmt.spelling.Tracks Phrase.stmt c := by
  have hrun : Phrase.stmt c = stmtWithin (c.ahead.length + 1) c := rfl
  exact Tracks.congr hrun (stmtWithin_tracks _ c hc (Nat.lt_succ_self _))

/-- A body that is written out is read back. -/
theorem block_tracks (c : Cursor) (hc : c.Closed) : Block.spelling.Tracks block c :=
  blockWith_tracks hc fun d hd _ => stmt_tracks d hd

end Phrase

end CactLang
