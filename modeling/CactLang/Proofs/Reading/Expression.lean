import CactLang.Proofs.Bare
import CactLang.Proofs.Reading.Repetition

/-!
# Reading expressions

An expression is known by its first token, and where it ends is told by the token after
it: its last operand may be a name, which takes brackets and parentheses, and an operator
that binds tighter than the place allows is read on.

> `Expr.spelling b`: the expressions that are read where operators must bind tighter than
> `b`. Among those for `unary` no operator stands between operands, so they are operands.

Reading takes the operands of a chain `a * b + c` from left to right, while the tree has
the last operator at its root. So the proofs go along the left operands: whatever can be
done with the whole chain is done by what is left to read after its left operand.
-/

namespace CactLang

/-! ## Tables of operators -/

namespace Operator

/-- Where one operand may start with a sign, the sign is an operator. -/
theorem ofUnary?_of_sign {k : TokenKind} (h : OperandForm.ofToken? k = some .sign) :
    ∃ op, ofUnary? k = some op ∧ op.token? = some k ∧ op.isUnary = true ∧ k.hasText = false := by
  cases k <;> simp [OperandForm.ofToken?] at h <;> exact ⟨_, rfl, rfl, rfl, rfl⟩

/-- An operator in front of an operand is written with a sign. -/
theorem sign_of_isUnary {op : Operator} (h : op.isUnary = true) :
    ∃ k, op.token? = some k ∧ ofUnary? k = some op ∧ OperandForm.ofToken? k = some .sign := by
  cases op <;> simp [isUnary] at h <;> exact ⟨_, rfl, rfl, rfl⟩

/-- A token that has a precedence is an operator. -/
theorem ofBinary?_of_precedence {k : TokenKind} {p : Precedence}
    (h : Precedence.ofToken? k = some p) :
    ∃ op, ofBinary? k = some op ∧ op.token? = some k ∧ op.precedence? = some p ∧
      k.hasText = false := by
  cases k <;> simp [Precedence.ofToken?] at h <;> subst h <;> exact ⟨_, rfl, rfl, rfl, rfl⟩

/-- An operator between operands is written with a token of its precedence. -/
theorem token_of_precedence {op : Operator} {p : Precedence} (h : op.precedence? = some p) :
    ∃ k, op.token? = some k ∧ ofBinary? k = some op ∧ Precedence.ofToken? k = some p := by
  cases op <;> simp [precedence?] at h <;> subst h <;> exact ⟨_, rfl, rfl, rfl⟩

/-- An operator is a single token. -/
theorem parts_eq {op : Operator} {k : TokenKind} (h : op.token? = some k) :
    op.parts = [.plain k] := by
  unfold parts
  rw [h]
  rfl

end Operator

namespace Precedence

/-- Operators between operands are looser than those in front of one. -/
theorem rank_lt_unary {k : TokenKind} {p : Precedence} (h : ofToken? k = some p) :
    p.rank < unary.rank := by
  cases k <;> simp [ofToken?] at h <;> subst h <;> decide

/-- What has a precedence is no bracket and not the end of the input. -/
theorem ofToken?_ne {k : TokenKind} {p : Precedence} (h : ofToken? k = some p) :
    k ≠ .openBracket ∧ k ≠ .openParen ∧ k ≠ .eof := by
  cases k <;> simp [ofToken?] at h <;> decide

end Precedence

/-- A literal has a form. -/
theorem NumberKind.ofToken?_of_number {k : TokenKind}
    (h : OperandForm.ofToken? k = some .number) :
    ∃ kind, ofToken? k = some kind ∧ k = kind.token := by
  cases k <;> simp [OperandForm.ofToken?] at h <;> exact ⟨_, rfl, rfl⟩

theorem OperandForm.eq_truth {k : TokenKind} (h : ofToken? k = some .truth) :
    k = .kwTrue ∨ k = .kwFalse := by
  revert h
  cases k <;> decide

theorem OperandForm.eq_identifier {k : TokenKind} (h : ofToken? k = some .name) :
    k = .identifier := by
  revert h
  cases k <;> decide

theorem OperandForm.eq_openParen {k : TokenKind} (h : ofToken? k = some .group) :
    k = .openParen := by
  revert h
  cases k <;> decide

theorem OperandForm.ofToken?_ne_eof {k : TokenKind} {form : OperandForm}
    (h : ofToken? k = some form) : k ≠ .eof := by
  intro hk
  rw [hk] at h
  exact absurd h (by simp [ofToken?])

/-! ## Where an expression ends -/

namespace Expr

/-- Whether a token would be read as part of the last operand: a bracket after a variable,
and a parenthesis if it has no indices yet. -/
def tailGoesOn : Expr → TokenKind → Prop
  | ⟨_, .lvalue lvalue, _, _⟩, k =>
    k = .openBracket ∨ (k = .openParen ∧ lvalue.indices = [])
  | ⟨_, .unary _ operand, _, _⟩, k => operand.tailGoesOn k
  | ⟨_, .binary _ _ right, _, _⟩, k => right.tailGoesOn k
  | _, _ => False

/-- Only a bracket or a parenthesis is read as part of an operand. -/
theorem tailGoesOn_opens (e : Expr) (k : TokenKind) (h : e.tailGoesOn k) :
    k = .openBracket ∨ k = .openParen := by
  fun_induction tailGoesOn e k with
  | case1 => exact h.imp_right And.left
  | case2 _ _ _ _ _ _ ih => exact ih h
  | case3 _ _ _ _ _ _ _ ih => exact ih h
  | case4 => exact h.elim

/-- Expressions whose operators bind tighter than `b`. -/
def spelling (b : Precedence) : Spelling Expr where
  parts := parts
  Proper e := e.isWellFormed = true ∧ b.rank < e.rank
  GoesOn e k := e.tailGoesOn k ∨ ∃ p, Precedence.ofToken? k = some p ∧ b.rank < p.rank
  IsRead := IsRead

/-- Induction along the left operands. -/
theorem induction_left {P : Expr → Prop} (operand : ∀ e : Expr, e.isBinary = false → P e)
    (binary : ∀ id op left right span info, P left → P ⟨id, .binary op left right, span, info⟩) :
    ∀ e, P e
  | ⟨_, .number .., _, _⟩ => operand _ rfl
  | ⟨_, .bool _, _, _⟩ => operand _ rfl
  | ⟨_, .lvalue _, _, _⟩ => operand _ rfl
  | ⟨_, .paren _, _, _⟩ => operand _ rfl
  | ⟨_, .unary .., _, _⟩ => operand _ rfl
  | ⟨_, .call .., _, _⟩ => operand _ rfl
  | ⟨id, .binary op left right, span, info⟩ =>
    binary id op left right span info (induction_left operand binary left)
termination_by structural e => e

/-- An expression ends before a token that is no operator and opens nothing. -/
theorem not_goesOn {b : Precedence} {e : Expr} {k : TokenKind}
    (h : k ≠ .openBracket ∧ k ≠ .openParen ∧ Precedence.ofToken? k = none) :
    ¬(spelling b).GoesOn e k := by
  rintro (htail | ⟨p, hp, _⟩)
  · exact (tailGoesOn_opens e k htail).elim h.1 h.2.1
  · rw [h.2.2] at hp
    exact absurd hp (by simp)

/-! ## Expressions and their words -/

variable {b p : Precedence} {k : TokenKind} {e : Expr} {ws : List Word} {id : NodeId}
  {span : Span} {info : Option ExprInfo}

/-- What is not a binary operation binds tighter than any of them. -/
theorem rank_operand (h : e.isBinary = false) : e.rank = Precedence.primary.rank + 1 := by
  obtain ⟨_, kind, _, _⟩ := e
  cases kind with
  | binary => exact absurd h (by simp [isBinary])
  | _ => rfl

/-- A binary operation binds as tightly as its operator. -/
theorem rank_binary {op : Operator} {left right : Expr} (hp : op.precedence? = some p) :
    (⟨id, .binary op left right, span, info⟩ : Expr).rank = p.rank := by
  simp only [rank, hp, Option.elim_some]

/-- The left operand binds at least as tightly as the operator and the right one binds tighter, so
operators of one level group to the left. -/
theorem isWellFormed_binary {op : Operator} {left right : Expr} :
    (⟨id, .binary op left right, span, info⟩ : Expr).isWellFormed = true ↔
      ∃ p, op.precedence? = some p ∧ p.rank ≤ left.rank ∧ p.rank < right.rank ∧
        left.isWellFormed = true ∧ right.isWellFormed = true := by
  rw [isWellFormed]
  cases hp : op.precedence? with
  | none => simp
  | some p => simp [and_assoc]

/-- Every expression is tight enough where the loosest operators are read. -/
theorem rank_pos (h : e.isWellFormed = true) : Precedence.lowest.rank < e.rank := by
  obtain ⟨id, kind, span, info⟩ := e
  cases kind with
  | binary op left right =>
    obtain ⟨p, hp, _⟩ := isWellFormed_binary.mp h
    rw [rank_binary hp]
    cases op <;> simp [Operator.precedence?] at hp <;> subst hp <;> decide
  | _ => exact Nat.succ_pos _

/-- An operand is tight enough everywhere. -/
theorem rank_lt (b : Precedence) (h : e.isBinary = false) : b.rank < e.rank := by
  rw [rank_operand h]
  cases b <;> decide

/-- What is tighter than a sign is an operand. -/
theorem isBinary_eq_false (hwf : e.isWellFormed = true) (h : Precedence.unary.rank < e.rank) :
    e.isBinary = false := by
  obtain ⟨id, kind, span, info⟩ := e
  cases kind with
  | binary op left right =>
    obtain ⟨p, hp, _⟩ := isWellFormed_binary.mp hwf
    obtain ⟨k, _, _, hk⟩ := Operator.token_of_precedence hp
    have hlt := Precedence.rank_lt_unary hk
    rw [rank_binary hp] at h
    omega
  | _ => rfl

/-- After an operand, only what its last name could go on with would go on with it. -/
theorem goesOn_unary : (spelling .unary).GoesOn e k ↔ e.tailGoesOn k := by
  constructor
  · rintro (h | ⟨p, hp, hlt⟩)
    · exact h
    · have := Precedence.rank_lt_unary hp
      omega
  · exact Or.inl

/-- At the lowest level every well-formed expression is allowed. -/
theorem spells_lowest :
    (spelling .lowest).Spells e ws ↔ e.isWellFormed = true ∧ Spelled e.parts ws :=
  ⟨fun h => ⟨h.1.1, h.2⟩, fun h => ⟨⟨h.1, rank_pos h.1⟩, h.2⟩⟩

/-- An operand is allowed at every level. -/
theorem spells_operand (h : e.isBinary = false) :
    (spelling b).Spells e ws ↔ e.isWellFormed = true ∧ Spelled e.parts ws :=
  ⟨fun hs => ⟨hs.1.1, hs.2⟩, fun hs => ⟨⟨hs.1, rank_lt b h⟩, hs.2⟩⟩

theorem spells_number {text : String} {kind : NumberKind} :
    (spelling b).Spells ⟨id, .number text kind, span, info⟩ ws ↔ ws = [.number kind text] := by
  rw [spells_operand rfl, isWellFormed, parts, spelled_word]
  simp [Spelled]

theorem spells_bool {value : Bool} :
    (spelling b).Spells ⟨id, .bool value, span, info⟩ ws ↔
      ws = [.plain (if value then .kwTrue else .kwFalse)] := by
  rw [spells_operand rfl, isWellFormed, parts, Part.plain, spelled_word]
  simp [Spelled]

/-- A variable is its name and its indices. -/
theorem spells_lvalue {l : LValue} :
    (spelling b).Spells ⟨id, .lvalue l, span, info⟩ ws ↔ ∃ v, ws = .name l.name :: v ∧
      ((spelling .lowest).bracketed.many (· = .openBracket)).Spells l.indices v := by
  obtain ⟨lid, name, indices, lspan, symbol, assignable⟩ := l
  have hparts : (allParts indices).flatMap bracket =
      ((spelling .lowest).bracketed.many (· = .openBracket)).parts indices := by
    rw [allParts_eq_map, List.flatMap_map]
    rfl
  have hproper : areWellFormed indices = true ↔
      ((spelling .lowest).bracketed.many (· = .openBracket)).Proper indices := by
    rw [areWellFormed_iff]
    exact forall₂_congr fun e _ => ⟨fun h => ⟨h, rank_pos h⟩, And.left⟩
  rw [spells_operand rfl, isWellFormed, parts, LValue.isWellFormed, LValue.parts, Part.name,
    spelled_word, hparts, hproper]
  constructor
  · rintro ⟨hp, v, rfl, hv⟩
    exact ⟨v, rfl, hp, hv⟩
  · rintro ⟨v, rfl, hp, hv⟩
    exact ⟨hp, v, rfl, hv⟩

/-- A call is its name and its arguments in parentheses. -/
theorem spells_call {callee : String} {arguments : List Expr} {function : Option FunctionId} :
    (spelling b).Spells ⟨id, .call callee arguments function, span, info⟩ ws ↔
      ∃ v, ws = .name callee :: .plain .openParen :: v ∧
        ((spelling .lowest).listUntil .closeParen).Spells arguments v := by
  have hproper : areWellFormed arguments = true ↔
      ((spelling .lowest).listUntil .closeParen).Proper arguments := by
    rw [areWellFormed_iff]
    exact forall₂_congr fun e _ => ⟨fun h => ⟨h, rank_pos h⟩, And.left⟩
  rw [spells_operand rfl, isWellFormed, parts, allParts_eq_map, Part.name, spelled_word, hproper]
  constructor
  · rintro ⟨hp, _, rfl, hrest⟩
    obtain ⟨v, rfl, hv⟩ := spelled_word.mp hrest
    exact ⟨v, rfl, hp, hv⟩
  · rintro ⟨v, rfl, hp, hv⟩
    exact ⟨hp, _, rfl, hv.plain⟩

/-- A group is its expression in parentheses. -/
theorem spells_paren {inner : Expr} :
    (spelling b).Spells ⟨id, .paren inner, span, info⟩ ws ↔
      ∃ v, ws = Word.plain .openParen :: (v ++ [Word.plain .closeParen]) ∧
        (spelling .lowest).Spells inner v := by
  rw [spells_operand rfl, isWellFormed, parts]
  constructor
  · rintro ⟨hp, hws⟩
    obtain ⟨_, rfl, hrest⟩ := spelled_word.mp hws
    obtain ⟨v, _, rfl, hv, hclose⟩ := spelled_append.mp hrest
    obtain ⟨_, rfl, rfl⟩ := spelled_word.mp hclose
    exact ⟨v, rfl, spells_lowest.mpr ⟨hp, hv⟩⟩
  · rintro ⟨v, rfl, hv⟩
    obtain ⟨hp, hv⟩ := spells_lowest.mp hv
    exact ⟨hp, (hv.append Spelled.nil.plain).plain⟩

/-- A sign stands before an operand. -/
theorem spells_unary {op : Operator} {operand : Expr} :
    (spelling b).Spells ⟨id, .unary op operand, span, info⟩ ws ↔
      op.isUnary = true ∧ ∃ k v, op.token? = some k ∧ ws = .plain k :: v ∧
        (spelling .unary).Spells operand v := by
  rw [spells_operand rfl, isWellFormed, parts]
  simp only [Bool.and_eq_true, Bool.not_eq_eq_eq_not, Bool.not_true]
  constructor
  · rintro ⟨⟨⟨hop, hbinary⟩, hwf⟩, hws⟩
    obtain ⟨k, hk, _⟩ := Operator.sign_of_isUnary hop
    rw [Operator.parts_eq hk] at hws
    obtain ⟨v, rfl, hv⟩ := spelled_word.mp hws
    exact ⟨hop, k, v, hk, rfl, (spells_operand hbinary).mpr ⟨hwf, hv⟩⟩
  · rintro ⟨hop, k, v, hk, rfl, hv⟩
    rw [Operator.parts_eq hk]
    exact ⟨⟨⟨hop, isBinary_eq_false hv.1.1 hv.1.2⟩, hv.1.1⟩, hv.2.plain⟩

/-- A binary operation that is allowed at a level is a left operand of the same level, its
operator, and a right operand of the operator's own level. -/
theorem spells_binary {op : Operator} {left right : Expr} :
    (spelling b).Spells ⟨id, .binary op left right, span, info⟩ ws ↔
      ∃ p k u v, op.precedence? = some p ∧ op.token? = some k ∧ b.rank < p.rank ∧
        p.rank ≤ left.rank ∧ ws = u ++ Word.plain k :: v ∧ (spelling b).Spells left u ∧
        (spelling p).Spells right v := by
  constructor
  · rintro ⟨⟨hwf, hb⟩, hws⟩
    obtain ⟨p, hp, hleft, hright, hwfl, hwfr⟩ := isWellFormed_binary.mp hwf
    obtain ⟨k, hk, _⟩ := Operator.token_of_precedence hp
    have hbp : b.rank < p.rank := by
      rw [← rank_binary hp]
      exact hb
    have hparts : Spelled (left.parts ++ (op.parts ++ right.parts)) ws := hws
    rw [Operator.parts_eq hk] at hparts
    obtain ⟨u, _, rfl, hu, hrest⟩ := spelled_append.mp hparts
    obtain ⟨v, rfl, hv⟩ := spelled_word.mp hrest
    exact ⟨p, k, u, v, hp, hk, hbp, hleft, rfl, ⟨⟨hwfl, by omega⟩, hu⟩, ⟨hwfr, hright⟩, hv⟩
  · rintro ⟨p, k, u, v, hp, hk, hbp, hleft, rfl, hu, hv⟩
    refine ⟨⟨isWellFormed_binary.mpr ⟨p, hp, hleft, hv.1.2, hu.1.1, hv.1.1⟩, ?_⟩, ?_⟩
    · rw [rank_binary hp]
      exact hbp
    · show Spelled (left.parts ++ (op.parts ++ right.parts)) _
      rw [Operator.parts_eq hk]
      exact hu.2.append hv.2.plain

/-- A number, to complete what is missing. -/
def zero : Expr :=
  .plain default (.number "0" .integer) default

theorem spells_zero : (spelling b).Spells zero [.number .integer "0"] :=
  spells_number.mpr rfl

/-- Before the first word, everything can still become an expression. -/
theorem viable_nil : (spelling b).Viable [] :=
  ⟨zero, _, spells_zero⟩

/-- An expression starts with a token that starts an operand. -/
theorem startsWith (b : Precedence) :
    (spelling b).StartsWith fun k => ∃ form, OperandForm.ofToken? k = some form := by
  intro e
  -- an operation starts as its left operand does
  induction e using induction_left with
  | operand e he =>
    intro ws hws
    obtain ⟨id, kind, span, info⟩ := e
    cases kind with
    | number text kind =>
      obtain rfl := spells_number.mp hws
      exact ⟨_, _, rfl, .number, by cases kind <;> rfl⟩
    | bool value =>
      obtain rfl := spells_bool.mp hws
      exact ⟨_, _, rfl, .truth, by cases value <;> rfl⟩
    | lvalue l =>
      obtain ⟨v, rfl, _⟩ := spells_lvalue.mp hws
      exact ⟨_, _, rfl, .name, rfl⟩
    | paren inner =>
      obtain ⟨v, rfl, _⟩ := spells_paren.mp hws
      exact ⟨_, _, rfl, .group, rfl⟩
    | unary op operand =>
      obtain ⟨hop, k, v, hk, rfl, _⟩ := spells_unary.mp hws
      obtain ⟨k', hk', _, hform⟩ := Operator.sign_of_isUnary hop
      obtain rfl : k = k' := Option.some.inj (hk.symm.trans hk')
      exact ⟨_, _, rfl, .sign, hform⟩
    | binary => exact absurd he (by simp [isBinary])
    | call callee arguments function =>
      obtain ⟨v, rfl, _⟩ := spells_call.mp hws
      exact ⟨_, _, rfl, .name, rfl⟩
  | binary id op left right span info ih =>
    intro ws hws
    obtain ⟨p, k, u, v, _, _, _, _, rfl, hu, _⟩ := spells_binary.mp hws
    obtain ⟨w, u', rfl, hw⟩ := ih u hu
    exact ⟨w, _, rfl, hw⟩

end Expr

namespace Phrase

open Spelling

variable {expr : Precedence → Phrase Expr}

/-! ## Never going back -/

instance : Forward number := by
  unfold number
  refine .bind inferInstance fun token => ?_
  split <;> infer_instance

instance : Forward truth := by
  unfold truth
  infer_instance

instance [∀ b, Forward (expr b)] : Forward (nameWith expr) := by
  unfold nameWith
  infer_instance

instance [∀ b, Forward (expr b)] : Forward (signWith expr) := by
  unfold signWith
  refine .bind inferInstance fun token => ?_
  split <;> infer_instance

instance [∀ b, Forward (expr b)] : Forward (groupWith expr) := by
  unfold groupWith
  infer_instance

instance [∀ b, Forward (expr b)] : Forward (operandWith expr) := by
  unfold operandWith
  refine .bind inferInstance fun k => ?_
  split <;> infer_instance

instance [∀ b, Forward (expr b)] (left : Expr) (p : Precedence) :
    Forward (operationWith expr left p) := by
  unfold operationWith
  refine .bind inferInstance fun token => ?_
  split <;> infer_instance

instance [∀ b, Forward (expr b)] (bound : Precedence) (rounds : Nat) (left : Expr) :
    Forward (extendWith expr bound rounds left) := by
  induction rounds generalizing left with
  | zero =>
    unfold extendWith
    infer_instance
  | succ rounds ih =>
    unfold extendWith
    refine .bind inferInstance fun k => ?_
    split <;> infer_instance

instance (levels : Nat) (b : Precedence) : Forward (exprWithin levels b) := by
  induction levels generalizing b with
  | zero =>
    unfold exprWithin
    infer_instance
  | succ levels ih =>
    unfold exprWithin
    infer_instance

instance (b : Precedence) : Forward (Phrase.expr b) := by
  unfold Phrase.expr
  infer_instance

/-! ## Operands -/

variable {c : Cursor}

/-- The sub-expressions are read as they should, at every cursor. -/
def ReadsExpr (expr : Precedence → Phrase Expr) : Prop :=
  ∀ b d, d.Closed → (Expr.spelling b).Reads [] (expr b) d

/-- On a number, the phrase takes the token. -/
theorem number_eq {kind : NumberKind} (h : NumberKind.ofToken? c.kind = some kind) :
    number c = (do
      let token ← advance
      return .plain (← freshId) (.number token.text kind) token.span : Phrase Expr) c := by
  rw [number, advance_bind, show NumberKind.ofToken? c.current.kind = some kind from h]
  rfl

/-- On a sign, the phrase takes the token and reads its operand. -/
theorem signWith_eq {op : Operator} (h : Operator.ofUnary? c.kind = some op) :
    signWith expr c = (do
      let token ← advance
      let operand ← expr .unary
      let id ← freshId
      return .plain id (.unary op operand) (← spanFrom token.span.start) : Phrase Expr) c := by
  rw [signWith, advance_bind, show Operator.ofUnary? c.current.kind = some op from h]
  rfl

/-- Numbers are read as they are written. -/
theorem number_reads (hc : c.Closed) (hk : OperandForm.ofToken? c.kind = some .number) :
    (Expr.spelling .unary).Reads [] number c := by
  obtain ⟨kind, hkind, htoken⟩ := NumberKind.ofToken?_of_number hk
  refine Reads.congr (number_eq hkind) ?_
  refine Reads.advance hc (OperandForm.ofToken?_ne_eof hk) fun _ => ?_
  rw [Token.word_eq_number kind htoken]
  exact Reads.freshId (Reads.pure (Expr.spells_number.mpr rfl) fun h => Expr.goesOn_unary.mp h)

/-- The two truth values are read as they are written. -/
theorem truth_reads (hc : c.Closed) (hk : OperandForm.ofToken? c.kind = some .truth) :
    (Expr.spelling .unary).Reads [] truth c := by
  have hword : c.current.word =
      .plain (if decide (c.kind = .kwTrue) then .kwTrue else .kwFalse) := by
    refine Token.word_eq_plain ?_ (by split <;> rfl)
    rcases OperandForm.eq_truth hk with htrue | hfalse
    · rw [if_pos (decide_eq_true htrue)]
      exact htrue
    · rw [if_neg (by rw [hfalse]; decide)]
      exact hfalse
  refine Reads.advance hc (OperandForm.ofToken?_ne_eof hk) fun _ => ?_
  rw [hword]
  exact Reads.freshId (Reads.pure (Expr.spells_bool.mpr rfl) fun h => Expr.goesOn_unary.mp h)

/-- A name is read with its arguments if a parenthesis follows, and with its indices if not. -/
theorem nameWith_reads (hexpr : ReadsExpr expr) (hc : c.Closed) (hk : c.kind = .identifier) :
    (Expr.spelling .unary).Reads [] (nameWith expr) c := by
  refine Reads.advance hc (by rw [hk]; decide) fun hc₁ => ?_
  rw [Token.word_eq_name hk]
  refine Reads.kind ?_
  by_cases hopen : c.advance.kind = .openParen
  · rw [if_pos hopen]
    refine Reads.advance hc₁ (by rw [hopen]; decide) fun hc₂ => ?_
    rw [Token.word_eq_plain hopen rfl]
    refine Reads.bind hc₂ (listUntil_reads (by decide) rfl (hexpr .lowest) _ hc₂) ?_ ?_
    · intro arguments ws hws
      have hcall : (Expr.spelling .unary).Spells
          (.plain default (.call c.current.text arguments none) default) _ :=
        Expr.spells_call.mpr ⟨ws, rfl, hws⟩
      exact hcall.viable
    · intro arguments ws d hd
      refine Reads.node (fun id span => ?_) fun _ _ h => Expr.goesOn_unary.mp h
      exact Expr.spells_call.mpr ⟨ws, rfl, hd.spells⟩
  · rw [if_neg hopen]
    refine Reads.bind hc₁ (bracketed_reads (hexpr .lowest) _ hc₁) ?_ ?_
    · intro indices ws hws
      have hvariable : (Expr.spelling .unary).Spells
          (.plain default (.lvalue (.plain default c.current.text indices default)) default) _ :=
        Expr.spells_lvalue.mpr ⟨ws, rfl, hws⟩
      exact hvariable.viable
    · intro indices ws d hd
      refine Reads.spanFrom fun span => Reads.freshId ?_
      refine Reads.freshId (Reads.pure ?_ fun h => ?_)
      · exact Expr.spells_lvalue.mpr ⟨ws, rfl, hd.spells⟩
      · rcases Expr.goesOn_unary.mp h with hbracket | ⟨hparen, hnil⟩
        · exact hd.stops (Or.inl (decide_eq_true hbracket))
        · -- no index was read, so the token after the name is still the current one
          obtain rfl : indices = [] := hnil
          obtain rfl : ws = [] := hd.spells.2
          exact hopen (hd.kind_eq.symm.trans hparen)

/-- A sign is read with its operand. -/
theorem signWith_reads (hexpr : ReadsExpr expr) (hc : c.Closed)
    (hk : OperandForm.ofToken? c.kind = some .sign) :
    (Expr.spelling .unary).Reads [] (signWith expr) c := by
  obtain ⟨op, hop, htoken, hunary, htext⟩ := Operator.ofUnary?_of_sign hk
  refine Reads.congr (signWith_eq hop) ?_
  refine Reads.advance hc (OperandForm.ofToken?_ne_eof hk) fun hc₁ => ?_
  rw [Token.word_eq_plain rfl htext]
  refine Reads.bind hc₁ (hexpr .unary _ hc₁) ?_ ?_
  · intro operand ws hws
    have hsign : (Expr.spelling .unary).Spells (.plain default (.unary op operand) default) _ :=
      Expr.spells_unary.mpr ⟨hunary, _, ws, htoken, rfl, hws⟩
    exact hsign.viable
  · intro operand ws d hd
    refine Reads.node (fun id span => ?_) fun _ _ h => ?_
    · exact Expr.spells_unary.mpr ⟨hunary, _, ws, htoken, rfl, hd.spells⟩
    · exact hd.stops (Expr.goesOn_unary.mpr (Expr.goesOn_unary.mp h))

/-- A group is read up to its closing parenthesis. -/
theorem groupWith_reads (hexpr : ReadsExpr expr) (hc : c.Closed) (hk : c.kind = .openParen) :
    (Expr.spelling .unary).Reads [] (groupWith expr) c := by
  refine Reads.advance hc (by rw [hk]; decide) fun hc₁ => ?_
  rw [Token.word_eq_plain hk rfl]
  have hwhole : ∀ {inner ws}, (Expr.spelling .lowest).Spells inner ws → ∀ id span,
      (Expr.spelling .unary).Spells (.plain id (.paren inner) span)
        ([] ++ [Word.plain .openParen] ++ ws ++ [Word.plain .closeParen]) :=
    fun hws _ _ => Expr.spells_paren.mpr ⟨_, by simp, hws⟩
  refine Reads.bind hc₁ (hexpr .lowest _ hc₁) ?_ ?_
  · intro inner ws hws
    exact ⟨_, _, hwhole hws default default⟩
  · intro inner ws d hd
    refine Reads.expect hd.closed (by decide) rfl ⟨_, _, hwhole hd.spells default default⟩ ?_
    intro _
    exact Reads.node (hwhole hd.spells) fun _ _ h => Expr.goesOn_unary.mp h

/-- Operands are read as they are written, by the form that their first token announces. -/
theorem operandWith_reads (hexpr : ReadsExpr expr) (hc : c.Closed) :
    (Expr.spelling .unary).Reads [] (operandWith expr) c := by
  refine Reads.kind ?_
  cases hform : OperandForm.ofToken? c.kind with
  | none => exact Reads.unexpected Expr.viable_nil
  | some form =>
    cases form with
    | number => exact number_reads hc hform
    | truth => exact truth_reads hc hform
    | name => exact nameWith_reads hexpr hc (OperandForm.eq_identifier hform)
    | sign => exact signWith_reads hexpr hc hform
    | group => exact groupWith_reads hexpr hc (OperandForm.eq_openParen hform)

/-! ## Operations -/

/-- A round: an operator, its right operand, and on with the operation they make. -/
theorem extendWith_more {b p : Precedence} {op : Operator} {rounds : Nat} {left : Expr}
    (hp : Precedence.ofToken? c.kind = some p) (hop : Operator.ofBinary? c.kind = some op)
    (hb : b.rank < p.rank) :
    extendWith expr b (rounds + 1) left c = (do
      let _ ← advance
      let right ← expr p
      let id ← freshId
      extendWith expr b rounds
        (.plain id (.binary op left right) (.between left.span right.span)) : Phrase Expr) c := by
  have hround : extendWith expr b (rounds + 1) left c =
      (operationWith expr left p >>= extendWith expr b rounds) c := by
    rw [extendWith, kind_bind, hp]
    show (if b.rank < p.rank then _ else _ : Phrase Expr) c = _
    rw [if_pos hb]
  have hoperation : operationWith expr left p c = (do
      let _ ← advance
      let right ← expr p
      return .plain (← freshId) (.binary op left right) (.between left.span right.span) :
        Phrase Expr) c := by
    rw [operationWith, advance_bind, show Operator.ofBinary? c.current.kind = some op from hop]
    rfl
  -- only the first of the two phrases is opened, the loop after it stays closed
  have hbind : ∀ {m m' : Phrase Expr} {f : Expr → Phrase Expr}, m c = m' c →
      (m >>= f) c = (m' >>= f) c := by
    intro m m' f h
    simp only [bind, EStateM.bind, h]
  rw [hround, hbind hoperation]
  simp only [bind_assoc, pure_bind]

/-- The loop over operators ends at a token that is no operator above the bound. -/
theorem extendWith_done {b : Precedence} {rounds : Nat} {left : Expr}
    (h : ∀ p, Precedence.ofToken? c.kind = some p → p.rank ≤ b.rank) :
    extendWith expr b rounds left c = .ok left c := by
  cases rounds with
  | zero => rfl
  | succ rounds =>
    rw [extendWith, kind_bind]
    cases hp : Precedence.ofToken? c.kind with
    | none => rfl
    | some p =>
      show (if b.rank < p.rank then _ else _ : Phrase Expr) c = _
      rw [if_neg (Nat.not_lt.mpr (h p hp))]
      rfl

/-- The loop over operators: whatever has been read is an expression of the level, and every
operator above the bound makes a larger one of it. -/
theorem extendWith_reads (hexpr : ReadsExpr expr) (b : Precedence) (rounds : Nat) :
    ∀ (c : Cursor) (left : Expr) (ws : List Word), c.Closed → c.ahead.length ≤ rounds →
      (Expr.spelling b).Spells left ws → ¬left.tailGoesOn c.kind →
      (∀ p, Precedence.ofToken? c.kind = some p → p.rank ≤ left.rank) →
      (Expr.spelling b).Reads ws (extendWith expr b rounds left) c := by
  induction rounds with
  | zero =>
    intro c left ws hc hrounds hleft htail _
    refine Reads.pure hleft ?_
    rintro (h | ⟨p, hp, _⟩)
    · exact htail h
    · -- no tokens are left, so the current one ends the input
      rw [hc.kind_eq_eof (Nat.le_zero.mp hrounds)] at hp
      exact absurd hp (by simp [Precedence.ofToken?])
  | succ rounds ih =>
    intro c left ws hc hrounds hleft htail hprec
    by_cases hmore : ∃ p, Precedence.ofToken? c.kind = some p ∧ b.rank < p.rank
    · obtain ⟨p, hp, hb⟩ := hmore
      obtain ⟨op, hop, htoken, hopp, htext⟩ := Operator.ofBinary?_of_precedence hp
      have hne := (Precedence.ofToken?_ne hp).2.2
      have hlength := (Cursor.takes_advance hc hne).length
      have hwhole : ∀ {right vs}, (Expr.spelling p).Spells right vs → ∀ id span,
          (Expr.spelling b).Spells (.plain id (.binary op left right) span)
            (ws ++ [Word.plain c.kind] ++ vs) :=
        fun hvs _ _ => Expr.spells_binary.mpr
          ⟨p, c.kind, ws, _, hopp, htoken, hb, hprec p hp, by simp, hleft, hvs⟩
      refine Reads.congr (extendWith_more hp hop hb) (Reads.advance hc hne fun hc₁ => ?_)
      rw [Token.word_eq_plain rfl htext]
      refine Reads.bind hc₁ (hexpr p _ hc₁) ?_ ?_
      · intro right vs hvs
        exact (hwhole hvs default default).viable
      · intro right vs d hd
        have hlength' := hd.length
        rw [List.length_singleton] at hlength
        refine Reads.freshId (ih _ _ _ hd.closed ?_ (hwhole hd.spells _ _) ?_ ?_)
        · show d.ahead.length ≤ rounds
          omega
        · exact fun h => hd.stops (Or.inl h)
        · -- the right operand would have taken a tighter operator
          intro q hq
          rw [Expr.plain, Expr.rank_binary hopp]
          exact Nat.not_lt.mp fun hlt => hd.stops (Or.inr ⟨q, hq, hlt⟩)
    · have hdone : ∀ p, Precedence.ofToken? c.kind = some p → p.rank ≤ b.rank := by
        intro p hp
        exact Nat.not_lt.mp fun hlt => hmore ⟨p, hp, hlt⟩
      refine Reads.congr (extendWith_done hdone) (Reads.pure hleft ?_)
      rintro (h | h)
      · exact htail h
      · exact hmore h

/-- Expressions are read as they are written, at every level, however many levels of nesting are
left. -/
theorem exprWithin_reads (levels : Nat) : ReadsExpr (exprWithin levels) := by
  induction levels with
  | zero =>
    intro b c _
    exact Reads.unexpected Expr.viable_nil
  | succ levels ih =>
    intro b c hc
    -- an operand is spelled alike whatever binds around it
    have hspells : ∀ {left ws}, (Expr.spelling .unary).Spells left ws →
        left.isBinary = false ∧ (Expr.spelling b).Spells left ws := by
      intro left ws h
      have hbinary := Expr.isBinary_eq_false h.1.1 h.1.2
      exact ⟨hbinary, (Expr.spells_operand hbinary).mpr ((Expr.spells_operand hbinary).mp h)⟩
    refine Reads.bind hc (operandWith_reads ih hc) ?_ ?_
    · intro left ws hleft
      exact (hspells hleft).2.viable
    · intro left ws d hd
      obtain ⟨hbinary, hleft⟩ := hspells hd.spells
      refine extendWith_reads ih b _ d left ws hd.closed (Nat.le_refl _) hleft ?_ ?_
      · exact fun h => hd.stops (Or.inl h)
      · intro p _
        exact Nat.le_of_lt (Expr.rank_lt p hbinary)

/-- Expressions are read as they are written. -/
theorem expr_reads : ReadsExpr Phrase.expr := by
  intro b c hc
  have hrun : Phrase.expr b c = exprWithin (c.ahead.length + 1) b c := rfl
  exact Reads.congr hrun (exprWithin_reads _ b c hc)

/-! ## Along an expression -/

/-- The sub-expressions are followed at every cursor with fewer than `n` tokens ahead. -/
def TracksExpr (expr : Precedence → Phrase Expr) (n : Nat) : Prop :=
  ∀ b d, d.Closed → d.ahead.length < n → (Expr.spelling b).Tracks (expr b) d

/-- What starts with a name is read as a name. -/
theorem operandWith_name {text : String} (h : c.current.word = .name text) :
    operandWith expr c = nameWith expr c := by
  have hkind : c.kind = .identifier := congrArg Word.kind h
  rw [operandWith, kind_bind, hkind]
  rfl

section Operand

variable [∀ b, Forward (expr b)] {id : NodeId} {span : Span} {info : Option ExprInfo}
  {w : Word} {u : List Word}

/-- A number that is written out is read back. -/
theorem number_follows (hc : c.Closed) {text : String} {kind : NumberKind} {r : List Word} :
    (operandWith expr).Follows c [.number kind text] r
      (Expr.IsRead · ⟨id, .number text kind, span, info⟩) := by
  refine .of_head rfl fun hhead => ?_
  have hkind : c.kind = kind.token := congrArg Word.kind hhead
  have htext : c.current.text = text := Token.text_eq hhead (by cases kind <;> rfl)
  refine .kind ?_
  have hform : NumberKind.ofToken? c.kind = some kind := by
    rw [hkind]
    cases kind <;> rfl
  rw [show OperandForm.ofToken? c.kind = some .number by rw [hkind]; cases kind <;> rfl]
  refine .congr (number_eq hform) ?_
  refine .advance hc (by cases kind <;> exact TokenKind.noConfusion) fun _ _ _ => ?_
  rw [htext]
  exact .freshId (.pure .number)

/-- A truth value that is written out is read back. -/
theorem truth_follows (hc : c.Closed) {value : Bool} {r : List Word} :
    (operandWith expr).Follows c [.plain (if value then .kwTrue else .kwFalse)] r
      (Expr.IsRead · ⟨id, .bool value, span, info⟩) := by
  refine .of_head rfl fun hhead => ?_
  have hkind : c.kind = if value then .kwTrue else .kwFalse := congrArg Word.kind hhead
  have hvalue : decide (c.current.kind = .kwTrue) = value := by
    show decide (c.kind = .kwTrue) = value
    rw [hkind]
    cases value <;> rfl
  refine .kind ?_
  rw [show OperandForm.ofToken? c.kind = some .truth by rw [hkind]; cases value <;> rfl]
  refine .advance hc (by cases value <;> exact TokenKind.noConfusion) fun _ _ _ => ?_
  rw [hvalue]
  exact .freshId (.pure .bool)

/-- A call that is written out is read back. -/
theorem call_follows (hexpr : TracksExpr expr c.ahead.length) (hc : c.Closed) {callee : String}
    {arguments : List Expr} {function : Option FunctionId} {v : List Word}
    (hv : ((Expr.spelling .lowest).listUntil .closeParen).Spells arguments v) :
    (operandWith expr).Follows c (.name callee :: .plain .openParen :: v) (w :: u)
      (Expr.IsRead · ⟨id, .call callee arguments function, span, info⟩) := by
  refine .of_head rfl fun hhead => .congr (operandWith_name hhead) ?_
  have htext : c.current.text = callee := Token.text_eq hhead rfl
  refine .advance hc TokenKind.noConfusion fun _ hc₁ hlength₁ => ?_
  refine .look_plain rfl ?_
  rw [if_pos rfl]
  refine .advance hc₁ TokenKind.noConfusion fun _ hc₂ hlength₂ => ?_
  have hfirst : (Expr.spelling .lowest).StartsWith (· ≠ .closeParen) := by
    refine (Expr.startsWith .lowest).mono fun k hk hclose => ?_
    rw [hclose] at hk
    exact absurd hk (by simp [OperandForm.ofToken?])
  have hlist : ((Expr.spelling .lowest).listUntil .closeParen).Tracks
      (listUntil .closeParen (expr .lowest)) c.advance.advance :=
    listUntil_tracks (by decide) (by decide) hfirst (fun _ _ => Expr.not_goesOn (by decide))
      (fun _ _ => Expr.not_goesOn (by decide)) _ hc₂ fun d hd hle => hexpr .lowest d hd (by omega)
  refine .bind_last hc₂ (hlist arguments v _ hv ⟨w, u, rfl, False.elim⟩)
    fun arguments' d harguments _ => ?_
  rw [htext]
  exact .node fun _ _ => .call harguments

/-- A variable that is written out is read back, if the next word is not taken for more of it. -/
theorem lvalue_follows (hexpr : TracksExpr expr c.ahead.length) (hc : c.Closed) {l : LValue}
    {v : List Word}
    (hv : ((Expr.spelling .lowest).bracketed.many (· = .openBracket)).Spells l.indices v)
    (hbracket : w.kind ≠ .openBracket) (hparen : l.indices = [] → w.kind ≠ .openParen) :
    (operandWith expr).Follows c (.name l.name :: v) (w :: u)
      (Expr.IsRead · ⟨id, .lvalue l, span, info⟩) := by
  obtain ⟨lid, name, indices, lspan, symbol, assignable⟩ := l
  -- what follows the name is no `(`, so it is not read as a call
  obtain ⟨w', u', hw', hnot⟩ : ∃ w' u', v ++ w :: u = w' :: u' ∧ w'.kind ≠ .openParen := by
    cases indices with
    | nil =>
      obtain rfl : v = [] := hv.2
      exact ⟨w, u, rfl, hparen rfl⟩
    | cons index indices =>
      obtain ⟨us, vs, rfl, hus, _⟩ := of_many_cons hv
      obtain ⟨v', rfl, _⟩ := spells_bracketed.mp hus
      exact ⟨_, _, rfl, TokenKind.noConfusion⟩
  refine .of_head rfl fun hhead => .congr (operandWith_name hhead) ?_
  have htext : c.current.text = name := Token.text_eq hhead rfl
  refine .advance hc TokenKind.noConfusion fun _ hc₁ hlength₁ => ?_
  refine .look rfl hw' ?_
  rw [if_neg hnot]
  have hlist : ((Expr.spelling .lowest).bracketed.many (· = .openBracket)).Tracks
      (bracketed (expr .lowest)) c.advance :=
    bracketed_tracks (fun _ _ => Expr.not_goesOn (by decide)) _ hc₁
      fun d hd hle => hexpr .lowest d hd (by omega)
  have hstops : ((Expr.spelling .lowest).bracketed.many (· = .openBracket)).Stops indices
      (w :: u) := by
    refine ⟨w, u, rfl, ?_⟩
    rintro (h | ⟨_, _, h⟩)
    · exact hbracket (of_decide_eq_true h)
    · exact h
  refine .bind_last hc₁ (hlist indices v _ hv hstops) fun indices' d hindices _ => ?_
  rw [htext]
  exact .spanFrom fun _ => .freshId (.freshId (.pure (.lvalue (.mk hindices))))

/-- A sign with its operand is read back. -/
theorem sign_follows (hexpr : TracksExpr expr c.ahead.length) (hc : c.Closed) {op : Operator}
    {operand : Expr} {k : TokenKind} {v r : List Word} (hop : op.isUnary = true)
    (hk : op.token? = some k) (hv : (Expr.spelling .unary).Spells operand v)
    (hr : (Expr.spelling .unary).Stops operand r) :
    (operandWith expr).Follows c (.plain k :: v) r
      (Expr.IsRead · ⟨id, .unary op operand, span, info⟩) := by
  obtain ⟨k', hk', hunary, hform⟩ := Operator.sign_of_isUnary hop
  obtain rfl : k = k' := Option.some.inj (hk.symm.trans hk')
  refine .of_head rfl fun hhead => .kind ?_
  have hkind : c.kind = k := congrArg Word.kind hhead
  rw [← hkind] at hform hunary
  rw [hform]
  refine .congr (signWith_eq hunary) ?_
  rw [hkind] at hform
  refine .advance hc (OperandForm.ofToken?_ne_eof hform) fun _ hc₁ hlength₁ => ?_
  refine .bind_last hc₁ (hexpr .unary _ hc₁ (by omega) operand v r hv hr) fun operand' d h _ => ?_
  exact .node fun _ _ => .unary h

/-- A group that is written out is read back. -/
theorem group_follows (hexpr : TracksExpr expr c.ahead.length) (hc : c.Closed) {inner : Expr}
    {v r : List Word} (hv : (Expr.spelling .lowest).Spells inner v) :
    (operandWith expr).Follows c (Word.plain .openParen :: (v ++ [Word.plain .closeParen])) r
      (Expr.IsRead · ⟨id, .paren inner, span, info⟩) := by
  refine .look_plain rfl ?_
  refine .advance hc TokenKind.noConfusion fun _ hc₁ hlength₁ => ?_
  have hstops : (Expr.spelling .lowest).Stops inner ([Word.plain .closeParen] ++ r) :=
    ⟨_, r, rfl, Expr.not_goesOn (by decide)⟩
  refine .bind hc₁ (hexpr .lowest _ hc₁ (by omega) inner v _ hv hstops) fun inner' d h hd _ => ?_
  exact .expect hd (by decide) fun _ _ => .node fun _ _ => .paren h

end Operand

/-- An operand that is written out is read back, whatever its form. -/
theorem operandWith_tracks [∀ b, Forward (expr b)] (hexpr : TracksExpr expr c.ahead.length)
    (hc : c.Closed) : (Expr.spelling .unary).Tracks (operandWith expr) c := by
  intro e ws r hws hr
  have hbinary := Expr.isBinary_eq_false hws.1.1 hws.1.2
  obtain ⟨w, u, rfl, hgoes⟩ := hr
  rw [Expr.goesOn_unary] at hgoes
  obtain ⟨id, kind, span, info⟩ := e
  cases kind with
  | number text kind =>
    obtain rfl := Expr.spells_number.mp hws
    exact number_follows hc
  | bool value =>
    obtain rfl := Expr.spells_bool.mp hws
    exact truth_follows hc
  | lvalue l =>
    obtain ⟨v, rfl, hv⟩ := Expr.spells_lvalue.mp hws
    exact lvalue_follows hexpr hc hv (fun h => hgoes (Or.inl h))
      fun hnil h => hgoes (Or.inr ⟨h, hnil⟩)
  | paren inner =>
    obtain ⟨v, rfl, hv⟩ := Expr.spells_paren.mp hws
    exact group_follows hexpr hc hv
  | unary op operand =>
    obtain ⟨hop, k, v, hk, rfl, hv⟩ := Expr.spells_unary.mp hws
    exact sign_follows hexpr hc hop hk hv ⟨w, u, rfl, fun h => hgoes (Expr.goesOn_unary.mp h)⟩
  | binary => exact absurd hbinary (by simp [Expr.isBinary])
  | call callee arguments function =>
    obtain ⟨v, rfl, hv⟩ := Expr.spells_call.mp hws
    exact call_follows hexpr hc hv

/-- A round follows an operator that binds tightly enough and its right operand, and then
whatever the next round follows. -/
theorem extendWith_follows [∀ b, Forward (expr b)] {b p : Precedence} {op : Operator}
    {k : TokenKind} {left' right : Expr} {rounds : Nat} {vs ws r : List Word}
    {Q : Expr → Prop} (hexpr : TracksExpr expr c.ahead.length) (hc : c.Closed)
    (hbinary : Operator.ofBinary? k = some op) (hp : Precedence.ofToken? k = some p)
    (hb : b.rank < p.rank) (hrounds : c.ahead.length ≤ rounds)
    (hvs : (Expr.spelling p).Spells right vs) (hstops : (Expr.spelling p).Stops right (ws ++ r))
    (hrest : ∀ right' d id span rounds', right'.IsRead right → d.Closed →
      d.ahead.length + (vs.length + 1) = c.ahead.length → d.ahead.length ≤ rounds' →
      (extendWith expr b rounds' (.plain id (.binary op left' right') span)).Follows d ws r Q) :
    (extendWith expr b rounds left').Follows c (Word.plain k :: (vs ++ ws)) r Q := by
  have hne := (Precedence.ofToken?_ne hp).2.2
  refine .of_head rfl fun hhead => ?_
  have hkind : c.kind = k := congrArg Word.kind hhead
  have hahead := List.length_pos_iff.mpr (hc.ahead_ne_nil (by rw [hkind]; exact hne))
  obtain ⟨rounds, rfl⟩ : ∃ n, rounds = n + 1 := ⟨rounds - 1, by omega⟩
  rw [← hkind] at hp hbinary
  refine .congr (extendWith_more hp hbinary hb) ?_
  refine .advance hc hne fun _ hc₁ hlength₁ => ?_
  refine .bind hc₁ (hexpr p _ hc₁ (by omega) right vs _ hvs hstops) ?_
  intro right' d hright hd hlength₂
  refine .freshId (hrest right' _ _ _ rounds hright hd ?_ ?_)
  · show d.ahead.length + (vs.length + 1) = c.ahead.length
    omega
  · show d.ahead.length ≤ rounds
    omega

/-- Reading an expression starts with its leftmost operand and comes to where all of `e` is
read and the operators after it are next. -/
theorem chain_follows (expr : Precedence → Phrase Expr) [∀ b, Forward (expr b)]
    (b : Precedence) {Q : Expr → Prop}
    {r : List Word} (e : Expr) : ∀ (c : Cursor) (ws ws₂ : List Word) (w : Word) (u : List Word),
      c.Closed → TracksExpr expr c.ahead.length → (Expr.spelling b).Spells e ws →
      ws₂ ++ r = w :: u → ¬e.tailGoesOn w.kind →
      (∀ p, Precedence.ofToken? w.kind = some p → p.rank ≤ e.rank) →
      (∀ e' d rounds, e'.IsRead e → d.Closed → d.ahead.length + ws.length = c.ahead.length →
        d.ahead.length ≤ rounds → (extendWith expr b rounds e').Follows d ws₂ r Q) →
      Follows (do
        let left ← operandWith expr
        extendWith expr b (← get).ahead.length left) c (ws ++ ws₂) r Q := by
  -- down the left operands: the operand read first is the leftmost one, and each operation on
  -- the way up is one more round
  induction e using Expr.induction_left with
  | operand e he =>
    intro c ws ws₂ w u hc hexpr hws hw htail _ hrest
    have hleft : (Expr.spelling .unary).Spells e ws :=
      (Expr.spells_operand he).mpr ((Expr.spells_operand he).mp hws)
    have hstops : (Expr.spelling .unary).Stops e (ws₂ ++ r) :=
      ⟨w, u, hw, fun h => htail (Expr.goesOn_unary.mp h)⟩
    refine .bind hc (operandWith_tracks hexpr hc e ws _ hleft hstops) fun e' d h hd hlength => ?_
    exact .congr rfl (hrest e' d d.ahead.length h hd hlength (Nat.le_refl _))
  | binary id op left right span info ih =>
    intro c ws ws₂ w u hc hexpr hws hw htail hprec hrest
    obtain ⟨p, k, us, vs, hp, hk, hb, hrank, rfl, hus, hvs⟩ := Expr.spells_binary.mp hws
    obtain ⟨k', hk', hbinary, hkp⟩ := Operator.token_of_precedence hp
    obtain rfl : k = k' := Option.some.inj (hk.symm.trans hk')
    have hne := Precedence.ofToken?_ne hkp
    rw [List.append_assoc]
    refine ih c us _ (.plain k) _ hc hexpr hus rfl ?_ ?_ ?_
    · exact fun h => (Expr.tailGoesOn_opens left k h).elim hne.1 hne.2.1
    · intro q hq
      obtain rfl : p = q := Option.some.inj (hkp.symm.trans hq)
      exact hrank
    · intro left' d rounds hleft hd hlength hrounds
      -- what comes next is no operator tighter than this one
      have hstops : (Expr.spelling p).Stops right (ws₂ ++ r) := by
        refine ⟨w, u, hw, ?_⟩
        rintro (h | ⟨q, hq, hlt⟩)
        · exact htail h
        · have hle := hprec q hq
          rw [Expr.rank_binary hp] at hle
          omega
      have hexpr' : TracksExpr expr d.ahead.length := fun p d' hd' hlt =>
        hexpr p d' hd' (by omega)
      refine extendWith_follows hexpr' hd hbinary hkp hb hrounds hvs hstops ?_
      intro right' d₂ id' span' rounds' hright hd₂ hlength₂ hrounds'
      refine hrest _ d₂ rounds' (.binary hleft hright) hd₂ ?_ hrounds'
      rw [List.length_append, List.length_cons]
      omega

/-- An expression is read back if it has no more tokens than there are levels. -/
theorem exprWithin_tracks (levels : Nat) : TracksExpr (exprWithin levels) levels := by
  induction levels with
  | zero =>
    intro b c _ h
    exact absurd h (Nat.not_lt_zero _)
  | succ levels ih =>
    intro b c hc hlevels e ws r hws hr
    obtain ⟨w, u, rfl, hgoes⟩ := hr
    -- the word after the expression binds no tighter than `b`, so the loop ends before it
    have hloose : ∀ p, Precedence.ofToken? w.kind = some p → p.rank ≤ b.rank := by
      intro p hp
      exact Nat.not_lt.mp fun hlt => hgoes (Or.inr ⟨p, hp, hlt⟩)
    have hchain := chain_follows (exprWithin levels) b (Q := (Expr.IsRead · e)) (r := w :: u) e c
      ws [] w u hc
      (fun b d hd hlt => ih b d hd (by omega)) hws rfl (fun h => hgoes (Or.inl h))
      (fun p hp => Nat.le_trans (hloose p hp) (Nat.le_of_lt hws.1.2)) ?_
    · rw [List.append_nil] at hchain
      exact hchain
    · intro e' d rounds he' _ _ _
      refine .of_head rfl fun hhead => .congr (extendWith_done ?_) (.pure he')
      rw [← Cursor.word_kind, hhead]
      exact hloose

/-- An expression that is written out is read back. -/
theorem expr_tracks (b : Precedence) (c : Cursor) (hc : c.Closed) :
    (Expr.spelling b).Tracks (Phrase.expr b) c := by
  have hrun : Phrase.expr b c = exprWithin (c.ahead.length + 1) b c := rfl
  exact Tracks.congr hrun (exprWithin_tracks _ b c hc (Nat.lt_succ_self _))

end Phrase

end CactLang
