import Mathlib.Logic.Function.Iterate
import CactLang.Proofs.Reading.Program

/-!
# Precedence and levels of operators

Expressions are read by one loop that compares the next operator with what the place allows.
A grammar says the same with a level for each precedence: a level is a chain of expressions of
the next tighter level with operators of its own between them, grouped to the left, and the
innermost level is that of prefix operators and primaries.

> `expr_eq_stratified`: the loop reads what the levels read, identities and spans included, and
> fails where they fail.

What has to be seen is that one loop for all operators above some level does the work of a
loop for the tighter ones and a loop for that level after it (`extendWith_split`). The first
level then comes off, and the rest is the same for fewer levels.
-/

namespace CactLang

/-! ## The grammar by levels -/

/-- The binary operators, level by level, the loosest first. -/
def Operator.strata : List (List (TokenKind × Operator)) :=
  [[(.or, .or)],
    [(.and, .and)],
    [(.equal, .equal), (.notEqual, .notEqual)],
    [(.less, .less), (.lessEqual, .lessEqual), (.greater, .greater),
      (.greaterEqual, .greaterEqual)],
    [(.plus, .add), (.dash, .sub)],
    [(.star, .mul), (.slash, .div), (.percent, .mod)]]

/-- The levels that bind tighter than `bound`, the loosest of them first. -/
def Precedence.tighter (bound : Precedence) : List (List (TokenKind × Operator)) :=
  Operator.strata.drop bound.rank

namespace Stratified

open Phrase

/-- Goes on after `left` with operators of one level and their right operands, at most
`rounds` times. -/
def chainWithin (stratum : List (TokenKind × Operator)) (operand : Phrase Expr) :
    (rounds : Nat) → Expr → Phrase Expr
  | 0, left => pure left
  | rounds + 1, left => do
    match stratum.lookup (← kind) with
    | none => return left
    | some operator =>
      let _ ← advance
      let right ← operand
      let id ← freshId
      chainWithin stratum operand rounds
        (.plain id (.binary operator left right) (.between left.span right.span))

/-- Goes on after `left` for as long as there are operators of the level. -/
def chain (stratum : List (TokenKind × Operator)) (operand : Phrase Expr) (left : Expr) :
    Phrase Expr := do
  chainWithin stratum operand (← get).ahead.length left

/-- Reads the first of the levels, and inside of it the others; `innermost` comes last. -/
def level (innermost : Phrase Expr) : List (List (TokenKind × Operator)) → Phrase Expr
  | [] => innermost
  | stratum :: tighter => do
    let left ← level innermost tighter
    chain stratum (level innermost tighter) left

/-- A prefix operator and its operand. -/
def prefixed (operator : Operator) (operand : Phrase Expr) : Phrase Expr := do
  let start := (← advance).span.start
  let operand ← operand
  let id ← freshId
  return .plain id (.unary operator operand) (← spanFrom start)

/-- A literal, a name, or a whole expression in parentheses. -/
def primary (whole : Phrase Expr) : Phrase Expr := do
  match ← kind with
  | .integerLiteral | .floatLiteral | .doubleLiteral => number
  | .kwTrue | .kwFalse => truth
  | .identifier => nameWith fun _ => whole
  | .openParen => groupWith fun _ => whole
  | _ => unexpected "expected an expression"

/-- The innermost level, with at most `nesting` expressions around one another: prefix
operators, which stand before an operand of this level again, and primaries. -/
def innermostWithin : (nesting : Nat) → Phrase Expr
  | 0 => unexpected "expected an expression"
  | nesting + 1 => do
    match ← kind with
    | .plus => prefixed .plus (innermostWithin nesting)
    | .dash => prefixed .neg (innermostWithin nesting)
    | .not => prefixed .not (innermostWithin nesting)
    | _ => primary (level (innermostWithin nesting) Operator.strata)

/-- Reads an expression, starting at the level just tighter than `bound`. -/
def exprWithin (nesting : Nat) (bound : Precedence) : Phrase Expr :=
  level (innermostWithin nesting) bound.tighter

end Stratified

/-! ## Tables -/

namespace Precedence

/-- The operators of a level are those of one precedence. -/
def Holds (p : Precedence) (stratum : List (TokenKind × Operator)) : Prop :=
  ∀ k, stratum.lookup k = if ofToken? k = some p then Operator.ofBinary? k else none

theorem rank_injective {p q : Precedence} (h : p.rank = q.rank) : p = q := by
  cases p <;> cases q <;> first | rfl | exact absurd h (by decide)

/-- Either nothing is tighter, or the next level is that of the next precedence. -/
theorem tighter_cases (b : Precedence) :
    (b.tighter = [] ∧ ∀ k p, ofToken? k = some p → p.rank ≤ b.rank) ∨
      ∃ (p : Precedence) (stratum : List (TokenKind × Operator)),
        b.tighter = stratum :: p.tighter ∧ p.rank = b.rank + 1 ∧ p.Holds stratum := by
  -- no operator between operands binds tighter than the multiplicative ones
  have hlast : ∀ k p, ofToken? k = some p → p.rank ≤ 6 := by
    intro k p h
    have := rank_lt_unary h
    have : Precedence.unary.rank = 7 := rfl
    omega
  cases b with
  | lowest => exact .inr ⟨.or, _, rfl, rfl, fun k => by cases k <;> rfl⟩
  | or => exact .inr ⟨.and, _, rfl, rfl, fun k => by cases k <;> rfl⟩
  | and => exact .inr ⟨.equality, _, rfl, rfl, fun k => by cases k <;> rfl⟩
  | equality => exact .inr ⟨.relational, _, rfl, rfl, fun k => by cases k <;> rfl⟩
  | relational => exact .inr ⟨.additive, _, rfl, rfl, fun k => by cases k <;> rfl⟩
  | additive => exact .inr ⟨.multiplicative, _, rfl, rfl, fun k => by cases k <;> rfl⟩
  | multiplicative => exact .inl ⟨rfl, hlast⟩
  | unary => exact .inl ⟨rfl, fun k p h => Nat.le_trans (hlast k p h) (by decide)⟩
  | primary => exact .inl ⟨rfl, fun k p h => Nat.le_trans (hlast k p h) (by decide)⟩

end Precedence

/-! ## Reading the same -/

variable {α β : Type} {c d : Cursor}

/-- Where an expression has been read, tokens have been taken, and no operator that was still
allowed stands next. -/
theorem Expr.reads_ok {b : Precedence} {m : Phrase Expr} {e : Expr}
    (h : (Expr.spelling b).Reads [] m c) (hc : c.Closed) (hm : m c = .ok e d) :
    d.Closed ∧ d.ahead.length < c.ahead.length ∧
      ∀ p, Precedence.ofToken? d.kind = some p → p.rank ≤ b.rank := by
  unfold Spelling.Reads at h
  rw [hm] at h
  obtain ⟨ts, htakes, hspells, hstops⟩ := h
  have hpos := ((Expr.startsWith b).mono fun _ _ => trivial).length_pos hspells
  have hlength := htakes.length
  rw [List.nil_append, List.length_map] at hpos
  refine ⟨htakes.closed hc, by omega, fun p hp => ?_⟩
  exact Nat.not_lt.mp fun hlt => hstops (.inr ⟨p, hp, hlt⟩)

namespace Phrase

theorem bind_congr_at {m m' : Phrase α} {f f' : α → Phrase β} (hm : m' c = m c)
    (hf : ∀ a d, m c = .ok a d → f' a d = f a d) : (m' >>= f') c = (m >>= f) c := by
  cases hmc : m c with
  | ok a d =>
    rw [bind_of_ok (hm.trans hmc), bind_of_ok hmc]
    exact hf a d hmc
  | error e d => rw [bind_of_error (hm.trans hmc), bind_of_error hmc]

section

variable {S : Spelling α} {item item' : Phrase α} {n : Nat}

/-- What is read is read further on. -/
theorem stays_of_reads {m : Phrase α} {a : α} (h : S.Reads [] m c) (hc : c.Closed)
    (hm : m c = .ok a d) : d.Closed ∧ d.ahead.length ≤ c.ahead.length := by
  unfold Spelling.Reads at h
  rw [hm] at h
  obtain ⟨ts, htakes, _⟩ := h
  have hlength := htakes.length
  exact ⟨htakes.closed hc, by omega⟩

/-- Items that are read alike make lists that are read alike. -/
theorem manyWithin_congr {more : TokenKind → Bool}
    (hitem : ∀ d : Cursor, d.Closed → more d.kind = true → S.Reads [] item d)
    (heq : ∀ d : Cursor, d.Closed → more d.kind = true → d.ahead.length ≤ n → item' d = item d)
    (rounds : Nat) : ∀ c : Cursor, c.Closed → c.ahead.length ≤ n →
      manyWithin more item' rounds c = manyWithin more item rounds c := by
  induction rounds with
  | zero =>
    intro c _ _
    rfl
  | succ rounds ih =>
    intro c hc hn
    cases hmore : more c.kind with
    | false => rw [manyWithin_done hmore, manyWithin_done hmore]
    | true =>
      rw [manyWithin_more hmore, manyWithin_more hmore]
      refine bind_congr_at (heq c hc hmore hn) fun a d hd => ?_
      obtain ⟨hclosed, hle⟩ := stays_of_reads (hitem c hc hmore) hc hd
      exact bind_congr_at (ih d hclosed (Nat.le_trans hle hn)) fun _ _ _ => rfl

variable (hitem : ∀ d : Cursor, d.Closed → S.Reads [] item d)
  (heq : ∀ d : Cursor, d.Closed → d.ahead.length ≤ n → item' d = item d)

include hitem heq

theorem commaSeparated_congr (hc : c.Closed) (hn : c.ahead.length ≤ n) :
    commaSeparated item' c = commaSeparated item c := by
  refine bind_congr_at (heq c hc hn) fun a d hd => ?_
  obtain ⟨hclosed, hle⟩ := stays_of_reads (hitem c hc) hc hd
  refine bind_congr_at ?_ fun _ _ _ => rfl
  refine manyWithin_congr (S := S.after .comma) (n := n)
    (fun e he hk => comma_reads hitem e he (of_decide_eq_true hk))
    (fun e he hk hle => ?_) _ d hclosed (Nat.le_trans hle hn)
  have htakes := Cursor.takes_advance he (by rw [of_decide_eq_true hk]; decide)
  have hlength := htakes.length
  exact heq e.advance (htakes.closed he) (by omega)

theorem listUntil_congr (close : TokenKind) (hc : c.Closed) (hn : c.ahead.length ≤ n) :
    listUntil close item' c = listUntil close item c := by
  show (if c.kind = close then _ else _ : Phrase (List α)) c = _
  show _ = (if c.kind = close then _ else _ : Phrase (List α)) c
  by_cases hk : c.kind = close
  · rw [if_pos hk, if_pos hk]
  · rw [if_neg hk, if_neg hk]
    exact bind_congr_at (commaSeparated_congr hitem heq hc hn) fun _ _ _ => rfl

theorem bracketed_congr (hc : c.Closed) (hn : c.ahead.length ≤ n) :
    bracketed item' c = bracketed item c := by
  refine manyWithin_congr (S := S.bracketed) (n := n)
    (fun e he hk => bracket_reads hitem e he (of_decide_eq_true hk))
    (fun e he hk hle => ?_) _ c hc hn
  have htakes := Cursor.takes_advance he (by rw [of_decide_eq_true hk]; decide)
  have hlength := htakes.length
  rw [advance_bind, advance_bind]
  exact bind_congr_at (heq e.advance (htakes.closed he) (by omega)) fun _ _ _ => rfl

end

theorem nameWith_congr {expr : Precedence → Phrase Expr} {whole : Phrase Expr}
    (hexpr : ReadsExpr expr) (hc : c.Closed) (hk : c.kind = .identifier)
    (heq : ∀ d : Cursor, d.Closed → d.ahead.length < c.ahead.length →
      whole d = expr .lowest d) :
    nameWith (fun _ => whole) c = nameWith expr c := by
  have htakes := Cursor.takes_advance hc (by rw [hk]; decide)
  have hlength := htakes.length
  have hclosed := htakes.closed hc
  rw [List.length_singleton] at hlength
  rw [nameWith, nameWith, advance_bind, advance_bind, kind_bind, kind_bind]
  by_cases hopen : c.advance.kind = .openParen
  · have htakes' := Cursor.takes_advance hclosed (by rw [hopen]; decide)
    have hlength' := htakes'.length
    rw [if_pos hopen, if_pos hopen, advance_bind, advance_bind]
    refine bind_congr_at (listUntil_congr (hexpr .lowest) (fun d hd hle => ?_) .closeParen
      (htakes'.closed hclosed) (Nat.le_refl _)) fun _ _ _ => rfl
    exact heq d hd (by omega)
  · rw [if_neg hopen, if_neg hopen]
    refine bind_congr_at (bracketed_congr (hexpr .lowest) (fun d hd hle => ?_) hclosed
      (Nat.le_refl _)) fun _ _ _ => rfl
    exact heq d hd (by omega)

end Phrase

/-! ## The innermost level -/

namespace Stratified

open Phrase

variable {expr : Precedence → Phrase Expr}

theorem prefixed_eq {op : Operator} {operand : Phrase Expr}
    (hop : Operator.ofUnary? c.kind = some op) (heq : operand c.advance = expr .unary c.advance) :
    prefixed op operand c = signWith expr c := by
  rw [signWith_eq hop, prefixed, advance_bind, advance_bind]
  exact bind_congr_at heq fun _ _ _ => rfl

/-- The innermost level is that of operands. -/
theorem innermostWithin_eq (hexpr : ReadsExpr expr) {nesting : Nat} (hc : c.Closed)
    (heq : ∀ b (d : Cursor), d.Closed → d.ahead.length < c.ahead.length →
      exprWithin nesting b d = expr b d) :
    innermostWithin (nesting + 1) c = operandWith expr c := by
  -- a token that is not the end leaves fewer ahead, where the two are known to agree
  have hnext : c.kind ≠ .eof → c.advance.Closed ∧ c.advance.ahead.length < c.ahead.length := by
    intro hk
    have htakes := Cursor.takes_advance hc hk
    have hlength := htakes.length
    rw [List.length_singleton] at hlength
    exact ⟨htakes.closed hc, by omega⟩
  have hsign : ∀ {op}, Operator.ofUnary? c.kind = some op → c.kind ≠ .eof →
      prefixed op (innermostWithin nesting) c = signWith expr c := by
    intro op hop hk
    exact prefixed_eq hop (heq .unary _ (hnext hk).1 (hnext hk).2)
  have hgroup : c.kind = .openParen →
      groupWith (fun _ => level (innermostWithin nesting) Operator.strata) c =
        groupWith expr c := by
    intro hk
    have hk' : c.kind ≠ .eof := by
      rw [hk]
      decide
    rw [groupWith, groupWith, advance_bind, advance_bind]
    exact bind_congr_at (heq .lowest _ (hnext hk').1 (hnext hk').2) fun _ _ _ => rfl
  rw [innermostWithin, operandWith, primary, kind_bind, kind_bind]
  cases hk : c.kind with
  | plus => exact hsign (by rw [hk]; rfl) (by rw [hk]; decide)
  | dash => exact hsign (by rw [hk]; rfl) (by rw [hk]; decide)
  | not => exact hsign (by rw [hk]; rfl) (by rw [hk]; decide)
  | identifier =>
    refine (kind_bind _).trans ?_
    rw [hk]
    exact nameWith_congr hexpr hc hk (heq .lowest)
  | openParen =>
    refine (kind_bind _).trans ?_
    rw [hk]
    exact hgroup hk
  | _ =>
    refine (kind_bind _).trans ?_
    rw [hk]
    rfl

/-! ## One loop, or one for each level -/

section

variable {stratum : List (TokenKind × Operator)} {operand : Phrase Expr} {left : Expr}

theorem chainWithin_more {op : Operator} {rounds : Nat} (h : stratum.lookup c.kind = some op) :
    chainWithin stratum operand (rounds + 1) left c = (do
      let _ ← advance
      let right ← operand
      let id ← freshId
      chainWithin stratum operand rounds
        (.plain id (.binary op left right) (.between left.span right.span)) : Phrase Expr) c := by
  rw [chainWithin, kind_bind, h]

theorem chainWithin_done {rounds : Nat} (h : stratum.lookup c.kind = none) :
    chainWithin stratum operand rounds left c = .ok left c := by
  cases rounds with
  | zero => rfl
  | succ rounds =>
    rw [chainWithin, kind_bind, h]
    rfl

variable {b p : Precedence} {n : Nat}

/-- Operators of other levels are none of the chain's. -/
theorem lookup_eq_none (hstratum : p.Holds stratum)
    (h : ∀ q, Precedence.ofToken? c.kind = some q → q.rank ≠ p.rank) :
    stratum.lookup c.kind = none := by
  rw [hstratum, if_neg]
  intro hp
  exact h p hp rfl

theorem lookup_eq_some (hstratum : p.Holds stratum) {op : Operator}
    (h : stratum.lookup c.kind = some op) :
    Precedence.ofToken? c.kind = some p ∧ Operator.ofBinary? c.kind = some op := by
  rw [hstratum] at h
  by_cases hp : Precedence.ofToken? c.kind = some p
  · rw [if_pos hp] at h
    exact ⟨hp, h⟩
  · rw [if_neg hp] at h
    exact absurd h (by simp)

variable (hexpr : ReadsExpr expr) (hstratum : p.Holds stratum)
  (hoperand : ∀ d : Cursor, d.Closed → d.ahead.length < n → operand d = expr p d)

include hexpr hstratum hoperand

/-- More rounds than there are tokens make no difference. -/
theorem chainWithin_rounds (rounds : Nat) : ∀ (rounds' : Nat) (c : Cursor) (left : Expr),
    c.Closed → c.ahead.length ≤ n → c.ahead.length ≤ rounds → c.ahead.length ≤ rounds' →
      chainWithin stratum operand rounds left c = chainWithin stratum operand rounds' left c := by
  induction rounds with
  | zero =>
    intro rounds' c left hc _ hrounds _
    -- no rounds are left only at the end of the input, which is no operator
    have hnone : stratum.lookup c.kind = none := by
      rw [hc.kind_eq_eof (Nat.le_zero.mp hrounds), hstratum]
      rfl
    rw [chainWithin_done hnone, chainWithin_done hnone]
  | succ rounds ih =>
    intro rounds' c left hc hn hrounds hrounds'
    cases hop : stratum.lookup c.kind with
    | none => rw [chainWithin_done hop, chainWithin_done hop]
    | some op =>
      have hne := (Precedence.ofToken?_ne (lookup_eq_some hstratum hop).1).2.2
      have htakes := Cursor.takes_advance hc hne
      have hlength := htakes.length
      rw [List.length_singleton] at hlength
      obtain ⟨rest, rfl⟩ : ∃ rest, rounds' = rest + 1 := ⟨rounds' - 1, by omega⟩
      rw [chainWithin_more hop, chainWithin_more hop, advance_bind, advance_bind]
      -- the operand takes a token, so one round less is enough for what is ahead of it
      refine bind_congr_at rfl fun right d hd => ?_
      rw [hoperand _ (htakes.closed hc) (by omega)] at hd
      obtain ⟨hclosed, hlt, _⟩ := Expr.reads_ok (hexpr p _ (htakes.closed hc)) (htakes.closed hc) hd
      exact ih rest { d with nodeCount := d.nodeCount + 1 } _ hclosed
        (show d.ahead.length ≤ n by omega) (show d.ahead.length ≤ rounds by omega)
        (show d.ahead.length ≤ rest by omega)

/-- The loop for all operators above `b` is the loop for those above the next precedence, and
then a chain of the operators of that one. -/
theorem extendWith_split (hp : p.rank = b.rank + 1) (rounds : Nat) :
    ∀ (rounds' : Nat) (c : Cursor) (left : Expr), c.Closed → c.ahead.length ≤ n →
      c.ahead.length ≤ rounds → c.ahead.length ≤ rounds' →
      (extendWith expr p rounds' left >>= chain stratum operand) c =
        extendWith expr b rounds left c := by
  -- where no operator above `b` stands, all loops are done
  have hdone : ∀ (rounds rounds' : Nat) (c : Cursor) (left : Expr),
      (∀ q, Precedence.ofToken? c.kind = some q → q.rank ≤ b.rank) →
      (extendWith expr p rounds' left >>= chain stratum operand) c =
        extendWith expr b rounds left c := by
    intro rounds rounds' c left h
    have hnone := lookup_eq_none (c := c) hstratum fun q hq => by
      have := h q hq
      omega
    rw [extendWith_done h, bind_of_ok (extendWith_done fun q hq => by have := h q hq; omega)]
    exact chainWithin_done hnone
  induction rounds with
  | zero =>
    intro rounds' c left hc _ hrounds _
    refine hdone 0 rounds' c left fun q hq => ?_
    rw [hc.kind_eq_eof (Nat.le_zero.mp hrounds)] at hq
    exact absurd hq (by simp [Precedence.ofToken?])
  | succ rounds ih =>
    intro rounds' c left hc hn hrounds hrounds'
    by_cases hmore : ∃ q, Precedence.ofToken? c.kind = some q ∧ b.rank < q.rank
    · obtain ⟨q, hq, hlt⟩ := hmore
      obtain ⟨op, hop, _⟩ := Operator.ofBinary?_of_precedence hq
      have htakes := Cursor.takes_advance hc (Precedence.ofToken?_ne hq).2.2
      have hclosed := htakes.closed hc
      have hlength := htakes.length
      rw [List.length_singleton] at hlength
      rw [extendWith_more hq hop hlt, advance_bind]
      by_cases hqp : p.rank < q.rank
      · -- a tighter operator is taken by the first loop
        obtain ⟨rest, rfl⟩ : ∃ rest, rounds' = rest + 1 := ⟨rounds' - 1, by omega⟩
        rw [bind_congr_at (extendWith_more hq hop hqp) fun _ _ _ => rfl, bind_assoc, advance_bind]
        simp only [bind_assoc]
        refine bind_congr_at rfl fun right d hd => ?_
        obtain ⟨hd', hless, _⟩ := Expr.reads_ok (hexpr q _ hclosed) hclosed hd
        exact ih rest { d with nodeCount := d.nodeCount + 1 } _ hd'
          (show d.ahead.length ≤ n by omega) (show d.ahead.length ≤ rounds by omega)
          (show d.ahead.length ≤ rest by omega)
      · -- an operator of the level itself is left to the chain
        obtain rfl : q = p := Precedence.rank_injective (by omega)
        have hlookup : stratum.lookup c.kind = some op := by
          rw [hstratum, if_pos hq]
          exact hop
        obtain ⟨rest, hrest⟩ : ∃ rest, c.ahead.length = rest + 1 := ⟨c.ahead.length - 1, by omega⟩
        have hstop : extendWith expr q rounds' left c = .ok left c :=
          extendWith_done fun q' hq' => by
            rw [hq] at hq'
            exact Nat.le_of_eq (congrArg Precedence.rank (Option.some.inj hq').symm)
        rw [bind_of_ok hstop]
        show chainWithin stratum operand c.ahead.length left c = _
        rw [hrest, chainWithin_more hlookup, advance_bind]
        refine bind_congr_at (hoperand _ hclosed (by omega)) fun right d hd => ?_
        obtain ⟨hd', hless, hstops⟩ := Expr.reads_ok (hexpr q _ hclosed) hclosed hd
        have hrun := ih rounds { d with nodeCount := d.nodeCount + 1 }
          (.plain ⟨d.nodeCount⟩ (.binary op left right) (.between left.span right.span)) hd'
          (show d.ahead.length ≤ n by omega) (show d.ahead.length ≤ rounds by omega)
          (show d.ahead.length ≤ rounds by omega)
        -- the right operand has taken what is tighter, so the first loop stops at once
        rw [bind_of_ok (extendWith_done (c := { d with nodeCount := d.nodeCount + 1 }) hstops)]
          at hrun
        refine Eq.trans ?_ hrun
        exact chainWithin_rounds hexpr hstratum hoperand rest _ _ _ hd'
          (show d.ahead.length ≤ n by omega) (show d.ahead.length ≤ rest by omega) (Nat.le_refl _)
    · refine hdone _ rounds' c left fun q hq => ?_
      exact Nat.not_lt.mp fun hlt => hmore ⟨q, hq, hlt⟩

end

/-! ## All levels -/

/-- Operands and a loop, as the levels above `b`. -/
theorem level_eq (hexpr : ReadsExpr expr) {innermost : Phrase Expr} (hc : c.Closed)
    (hinnermost : innermost c = operandWith expr c)
    (heq : ∀ b (d : Cursor), d.Closed → d.ahead.length < c.ahead.length →
      level innermost b.tighter d = expr b d)
    (strata : List (List (TokenKind × Operator))) : ∀ b : Precedence, b.tighter = strata →
      level innermost strata c =
        (operandWith expr >>= fun left => do
          extendWith expr b (← get).ahead.length left) c := by
  induction strata with
  | nil =>
    intro b hb
    -- no stratum is tighter, so the loop ends at once
    have hlast : ∀ k p, Precedence.ofToken? k = some p → p.rank ≤ b.rank := by
      obtain ⟨_, hlast⟩ | ⟨p, stratum, htighter, _⟩ := b.tighter_cases
      · exact hlast
      · rw [hb] at htighter
        exact absurd htighter (by simp)
    have hpure : operandWith expr c = (operandWith expr >>= Pure.pure) c := by
      rw [bind_pure]
    rw [level, hinnermost, hpure]
    exact bind_congr_at rfl fun left d _ => (extendWith_done (hlast d.kind)).symm
  | cons stratum strata ih =>
    intro b hb
    obtain ⟨hnil, _⟩ | ⟨p, stratum', htighter, hp, hstratum⟩ := b.tighter_cases
    · rw [hb] at hnil
      exact absurd hnil (by simp)
    · -- the tighter levels are one loop by induction; this stratum is split off from it
      obtain ⟨rfl, rfl⟩ := List.cons.inj (hb.symm.trans htighter)
      rw [level, bind_congr_at (ih p rfl) fun _ _ _ => rfl, bind_assoc]
      refine bind_congr_at rfl fun left d hd => ?_
      obtain ⟨hclosed, hlt, _⟩ := Expr.reads_ok (operandWith_reads hexpr hc) hc hd
      exact extendWith_split hexpr hstratum (heq p) hp _ _ d left hclosed (Nat.le_of_lt hlt)
        (Nat.le_refl _) (Nat.le_refl _)

/-- The levels read what the loop reads, however deep both of them may nest, as long as they
may nest as deep as there are tokens. -/
theorem exprWithin_eq (n : Nat) : ∀ (c : Cursor) (nesting levels : Nat) (b : Precedence),
    c.Closed → c.ahead.length < n → c.ahead.length < nesting → c.ahead.length < levels →
      exprWithin nesting b c = Phrase.exprWithin levels b c := by
  induction n with
  | zero =>
    intro c _ _ _ _ hn
    exact absurd hn (Nat.not_lt_zero _)
  | succ n ih =>
    intro c nesting levels b hc hn hnesting hlevels
    obtain ⟨nesting, rfl⟩ : ∃ k, nesting = k + 1 := ⟨nesting - 1, by omega⟩
    obtain ⟨levels, rfl⟩ : ∃ k, levels = k + 1 := ⟨levels - 1, by omega⟩
    have hexpr := exprWithin_reads levels
    have hinnermost : innermostWithin (nesting + 1) c = operandWith _ c :=
      innermostWithin_eq hexpr hc fun b d hd hlt =>
        ih d nesting levels b hd (by omega) (by omega) (by omega)
    exact level_eq hexpr hc hinnermost
      (fun b d hd hlt => ih d (nesting + 1) levels b hd (by omega) (by omega) (by omega)) _ b rfl

end Stratified

/-! ## At every place of every input -/

namespace Cursor

/-- The last token ends the input. -/
def Ended (c : Cursor) : Prop :=
  (c.ahead.getLastD c.current).kind = .eof

theorem Ended.closed (h : c.Ended) : c.Closed :=
  ⟨c.ahead.getLastD c.current, List.getLastD_mem_cons .., h⟩

theorem Ended.advance (h : c.Ended) : c.advance.Ended := by
  unfold Cursor.advance
  cases hahead : c.ahead with
  | nil => exact h
  | cons next ahead =>
    unfold Ended at h
    rw [hahead, List.getLastD_cons] at h
    exact h

theorem ofTokens_isEnded (tokens : List Token) (file : String) :
    (ofTokens tokens file).Ended := by
  cases tokens with
  | nil => rfl
  | cons first rest =>
    unfold Ended ofTokens
    dsimp only
    by_cases hlast : (rest.getLastD first).kind = .eof
    · rw [if_pos hlast, List.append_nil]
      exact hlast
    · rw [if_neg hlast, List.getLastD_concat]
      rfl

theorem Ended.iterate (h : c.Ended) (place : Nat) : (Cursor.advance^[place] c).Ended := by
  induction place with
  | zero => exact h
  | succ place ih =>
    rw [Function.iterate_succ_apply']
    exact ih.advance

end Cursor

/-- **Reading by precedence is reading by levels.** At every place of every input, with any
number of identities handed out, and for every bound: the loop gives the expression that the
levels give, at the same cursor, or the same diagnostic. How deep the levels may nest makes no
difference, from the number of tokens on. -/
theorem expr_eq_stratified (tokens : List Token) (file : String) (place nodeCount nesting : Nat)
    (bound : Precedence) :
    let c := { Cursor.advance^[place] (.ofTokens tokens file) with nodeCount }
    Stratified.exprWithin (c.ahead.length + 1 + nesting) bound c = Phrase.expr bound c := by
  intro c
  have hclosed : c.Closed := ((Cursor.ofTokens_isEnded tokens file).iterate place).closed
  exact Stratified.exprWithin_eq _ c _ _ bound hclosed (Nat.lt_succ_self _) (by omega)
    (Nat.lt_succ_self _)

end CactLang
