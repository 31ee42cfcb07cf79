import CactLang.Proofs.Pieces
import CactLang.Proofs.Reading.Program

/-!
# How a tree is built

Reading takes tokens, and from time to time it makes a piece out of the ones it has made
since some cursor: the piece is given the next identity and the span from that cursor to the
last token taken. Whatever the grammar does is a sequence of such steps.

> `c.Builds xs d`: from `c` to `d` the pieces `xs` are built, one after the other, with any
> tokens around them.

> `c.Makes x d`: from `c` to `d` the piece `x` is made, of all the tokens there.

Every phrase that gives a value makes its piece. So a property of trees that were read has
to be shown for a token and for a piece only, and not for each form of the grammar.
-/

namespace CactLang

/-! ## Building -/

/-- The cursor after a piece has been given its identities. -/
def Cursor.skip (c : Cursor) (x : Piece) : Cursor :=
  { c with nodeCount := c.nodeCount + x.ids.length }

/-- The piece can be made at `d` of what was built since `c`. -/
structure Piece.Ends (x : Piece) (c d : Cursor) : Prop where
  /-- Its identities are the next ones. -/
  ids : x.ids = (List.range' d.nodeCount x.ids.length).map NodeId.mk
  /-- It stands where what it was made of stands. -/
  span : x.span = d.spanFrom c.current.span.start
  /-- It is written as the tokens say. -/
  spelled : ∃ ts, c.Takes ts (d.skip x) ∧ Spelled x.parts (ts.map Token.word)

namespace Cursor

/-- The end of the token that was taken stands behind the next one. -/
theorem behind_advance {c : Cursor} (hc : c.Closed) (hk : c.kind ≠ .eof) :
    c.advance.behind = c.current.span.stop := by
  have hne := hc.ahead_ne_nil hk
  unfold advance
  cases hahead : c.ahead with
  | nil => exact absurd hahead hne
  | cons next ahead => rfl

/-- From one cursor to the other the pieces are built, in this order. -/
inductive Builds : Cursor → List Piece → Cursor → Prop
  | none (c : Cursor) : Builds c [] c
  | token {c : Cursor} (hk : c.kind ≠ .eof) : Builds c [] c.advance
  | piece {c d : Cursor} {x : Piece} (hinner : Builds c x.inner d) (hends : x.Ends c d) :
    Builds c [x] (d.skip x)
  | append {c d e : Cursor} {xs ys : List Piece} (hxs : Builds c xs d) (hys : Builds d ys e) :
    Builds c (xs ++ ys) e

/-- From one cursor to the other the piece is made. -/
def Makes (c : Cursor) (x : Piece) (e : Cursor) : Prop :=
  ∃ d, c.Builds x.inner d ∧ x.Ends c d ∧ e = d.skip x

/-- From one cursor to the other the expression is made; if it is a variable, it can be made
the target of an assignment as well. -/
def MakesExpr (c : Cursor) (e : Expr) (d : Cursor) : Prop :=
  c.Makes (.node (.expr e)) d ∧ ∀ l, e.kind = .lvalue l → c.Makes (.target l) d

variable {c d e : Cursor} {x : Piece} {xs : List Piece}

namespace Builds

/-- Building takes no end of the input. -/
theorem closed (h : c.Builds xs d) (hc : c.Closed) : d.Closed := by
  induction h with
  | none => exact hc
  | token hk => exact hc.advance hk
  | piece _ _ ih => exact ih hc
  | append _ _ ihx ihy => exact ihy (ihx hc)

/-- A token before what is built. -/
theorem after_token (hk : c.kind ≠ .eof) (h : c.advance.Builds xs d) : c.Builds xs d :=
  .append (.token hk) h

/-- A token after what is built. -/
theorem then_token (h : c.Builds xs d) (hk : d.kind ≠ .eof) : c.Builds xs d.advance := by
  have happend := h.append (.token hk)
  rw [List.append_nil] at happend
  exact happend

end Builds

namespace Makes

/-- A piece that is made is built. -/
theorem builds (h : c.Makes x e) : c.Builds [x] e := by
  obtain ⟨d, hinner, hends, rfl⟩ := h
  exact .piece hinner hends

theorem closed (h : c.Makes x e) (hc : c.Closed) : e.Closed :=
  h.builds.closed hc

/-- A piece spans from its first token to its last one. -/
theorem span (h : c.Makes x e) : x.span = e.spanFrom c.current.span.start := by
  obtain ⟨d, _, hends, rfl⟩ := h
  exact hends.span

/-- A piece is spelled by the tokens it is made of. -/
theorem spelled (h : c.Makes x e) :
    ∃ ts, c.Takes ts e ∧ Spelled x.parts (ts.map Token.word) := by
  obtain ⟨d, _, hends, rfl⟩ := h
  exact hends.spelled

end Makes

/-- An expression other than a variable is no target. -/
theorem Makes.expr {v : Expr} (h : c.Makes (.node (.expr v)) d) (hv : ∀ l, v.kind ≠ .lvalue l) :
    c.MakesExpr v d :=
  ⟨h, fun l hl => absurd hl (hv l)⟩

end Cursor

/-! ## Phrases that give a value -/

namespace Phrase

variable {α β : Type}

/-- If the phrase gives a value at `c`, the value and the cursor after it have the property. -/
def Yields (m : Phrase α) (c : Cursor) (Q : α → Cursor → Prop) : Prop :=
  ∀ a d, m c = .ok a d → Q a d

namespace Yields

variable {c : Cursor} {P : α → Cursor → Prop} {Q : β → Cursor → Prop}

theorem pure {a : α} (h : P a c) : Yields (Pure.pure a) c P := by
  intro a' d hrun
  cases hrun
  exact h

theorem unexpected {hint : String} : Yields (Phrase.unexpected hint) c P := by
  intro a d hrun
  cases hrun

/-- What a phrase does at a cursor is all that counts. -/
theorem congr {m m' : Phrase α} (h : m c = m' c) (hm : Yields m' c P) : Yields m c P := by
  intro a d hrun
  exact hm a d (h.symm.trans hrun)

/-- The value of the first phrase has a property from which the second one goes on. -/
theorem bind {m : Phrase α} {f : α → Phrase β} (hm : Yields m c P)
    (hf : ∀ a d, P a d → Yields (f a) d Q) : Yields (m >>= f) c Q := by
  intro b e hrun
  cases hmc : m c with
  | ok a d =>
    rw [bind_of_ok hmc] at hrun
    exact hf a d (hm a d hmc) b e hrun
  | error err d =>
    rw [bind_of_error hmc] at hrun
    cases hrun

/-- The property of what is made of a value. -/
theorem map {m : Phrase α} {f : α → β} (hm : Yields m c fun a d => Q (f a) d) :
    Yields (f <$> m) c Q := by
  intro b e hrun
  simp only [Functor.map, EStateM.map] at hrun
  cases hmc : m c with
  | ok a d =>
    rw [hmc] at hrun
    cases hrun
    exact hm _ _ hmc
  | error err d =>
    rw [hmc] at hrun
    cases hrun

theorem kind {f : TokenKind → Phrase β} (h : Yields (f c.kind) c Q) :
    Yields (Phrase.kind >>= f) c Q :=
  h

theorem position {f : Position → Phrase β} (h : Yields (f c.current.span.start) c Q) :
    Yields (Phrase.position >>= f) c Q :=
  h

theorem advance {f : Token → Phrase β} (h : Yields (f c.current) c.advance Q) :
    Yields (Phrase.advance >>= f) c Q :=
  h

/-- The phrase goes on only if the token is of the kind that is asked for. -/
theorem expectOr {k : TokenKind} {error : Cursor → Diagnostic} {f : Token → Phrase β}
    (h : c.kind = k → Yields (f c.current) c.advance Q) :
    Yields (Phrase.expectOr k error >>= f) c Q := by
  intro b e hrun
  by_cases hk : c.kind = k
  · rw [expectOr_bind_of_eq hk] at hrun
    exact h hk b e hrun
  · rw [expectOr_bind_of_ne hk] at hrun
    cases hrun

theorem expect {k : TokenKind} {f : Token → Phrase β}
    (h : c.kind = k → Yields (f c.current) c.advance Q) :
    Yields (Phrase.expect k >>= f) c Q :=
  expectOr h

theorem identifier {place : String} {f : String → Phrase β}
    (h : c.kind = .identifier → Yields (f c.current.text) c.advance Q) :
    Yields (Phrase.identifier place >>= f) c Q := by
  unfold Phrase.identifier
  rw [bind_assoc]
  exact expectOr h

/-- The phrase goes on only after the token of a type. -/
theorem basicType {allowVoid : Bool} {f : BasicType → Phrase β}
    (h : ∀ t : BasicType, c.kind ≠ .eof → Yields (f t) c.advance Q) :
    Yields (Phrase.basicType allowVoid >>= f) c Q := by
  rcases basicType_cases allowVoid c with ⟨t, _, hk, hrun⟩ | ⟨_, hrun⟩
  · intro b e hbind
    rw [bind_of_ok hrun] at hbind
    refine h t ?_ b e hbind
    rw [hk]
    exact t.token_plain.2
  · intro b e hbind
    rw [bind_of_error hrun] at hbind
    cases hbind

/-- A node is given its identity and its span. -/
theorem node {mk : NodeId → Span → β} {start : Position}
    (h : Q (mk ⟨c.nodeCount⟩ (c.spanFrom start)) { c with nodeCount := c.nodeCount + 1 }) :
    Yields (do
      let id ← Phrase.freshId
      return mk id (← Phrase.spanFrom start)) c Q :=
  pure (a := mk ⟨c.nodeCount⟩ (c.spanFrom start))
    (c := { c with nodeCount := c.nodeCount + 1 }) h

/-- What is read is written as the tokens say. -/
theorem of_reads {S : Spelling α} {m : Phrase α} (hreads : S.Reads [] m c)
    (h : Yields m c fun a d =>
      (∃ ts, c.Takes ts d ∧ Spelled (S.parts a) (ts.map Token.word)) → P a d) :
    Yields m c P := by
  intro a d hrun
  unfold Spelling.Reads at hreads
  rw [hrun] at hreads
  obtain ⟨ts, htakes, hspells, _⟩ := hreads
  exact h a d hrun ⟨ts, htakes, hspells.2⟩

end Yields

/-! ### Repetition -/

section

variable {item : Phrase α} {piece : α → Piece}

/-- The phrase makes a piece of each value. -/
def Made (item : Phrase α) (piece : α → Piece) : Prop :=
  ∀ c : Cursor, c.Closed → item.Yields c fun a d => c.Builds [piece a] d

/-- The loop builds one piece each round. -/
theorem manyWithin_builds {more : TokenKind → Bool}
    (hitem : ∀ c : Cursor, c.Closed → more c.kind = true →
      item.Yields c fun a d => c.Builds [piece a] d) (rounds : Nat) :
    ∀ c : Cursor, c.Closed →
      (manyWithin more item rounds).Yields c fun as d => c.Builds (as.map piece) d := by
  induction rounds with
  | zero =>
    intro c _
    exact .pure (.none c)
  | succ rounds ih =>
    intro c hc
    by_cases hmore : more c.kind = true
    · refine .congr (manyWithin_more hmore) (.bind (hitem c hc hmore) fun a d hd => ?_)
      refine .bind (ih d (hd.closed hc)) fun as e he => ?_
      exact .pure (hd.append he)
    · have hdone : manyWithin more item (rounds + 1) c = (pure [] : Phrase (List α)) c :=
        manyWithin_done (Bool.eq_false_iff.mpr hmore)
      exact .congr hdone (.pure (.none c))

theorem many_builds {more : TokenKind → Bool} {c : Cursor} (hc : c.Closed)
    (hitem : ∀ c : Cursor, c.Closed → more c.kind = true →
      item.Yields c fun a d => c.Builds [piece a] d) :
    (many more item).Yields c fun as d => c.Builds (as.map piece) d :=
  manyWithin_builds hitem _ c hc

/-- A comma is a token before the next piece. -/
theorem commaSeparated_builds {c : Cursor} (hc : c.Closed) (hitem : Made item piece) :
    (commaSeparated item).Yields c fun as d => c.Builds (as.map piece) d := by
  refine .bind (hitem c hc) fun a d hd => ?_
  have hrest : (many (· = .comma) (Phrase.advance *> item)).Yields d
      fun as e => d.Builds (as.map piece) e := by
    refine many_builds (hd.closed hc) fun b hb hcomma => ?_
    have hk : b.kind ≠ .eof := by
      rw [of_decide_eq_true hcomma]
      decide
    intro a' e hrun
    exact .after_token hk (hitem _ (hb.advance hk) a' e hrun)
  refine .bind hrest fun as e he => ?_
  exact .pure (hd.append he)

/-- The closing token comes after the last piece. -/
theorem listUntil_builds {close : TokenKind} {c : Cursor} (hc : c.Closed) (hclose : close ≠ .eof)
    (hitem : Made item piece) :
    (listUntil close item).Yields c fun as d => c.Builds (as.map piece) d := by
  refine .kind ?_
  dsimp only
  by_cases hk : c.kind = close
  · rw [if_pos hk, pure_bind]
    refine .expect fun hk => .pure ?_
    exact .token (by rw [hk]; exact hclose)
  · rw [if_neg hk]
    refine .bind (commaSeparated_builds hc hitem) fun as d hd => .expect fun hk => .pure ?_
    exact hd.then_token (by rw [hk]; exact hclose)

/-- A piece stands between its two brackets. -/
theorem bracketed_builds {c : Cursor} (hc : c.Closed) (hitem : Made item piece) :
    (bracketed item).Yields c fun as d => c.Builds (as.map piece) d := by
  refine many_builds hc fun b hb hopen => ?_
  have hk : b.kind ≠ .eof := by
    rw [of_decide_eq_true hopen]
    decide
  refine .advance (.bind (hitem _ (hb.advance hk)) fun a d hd => ?_)
  refine .expect fun hclose => .pure ?_
  exact .after_token hk (hd.then_token (by rw [hclose]; decide))

end

/-! ### Expressions -/

section

variable {expr : Precedence → Phrase Expr} {c : Cursor}

/-- The sub-expressions are made at every cursor. -/
def ExprMade (expr : Precedence → Phrase Expr) : Prop :=
  ∀ (b : Precedence) (c : Cursor), c.Closed → (expr b).Yields c c.MakesExpr

theorem ExprMade.made (hexpr : ExprMade expr) (b : Precedence) :
    Made (expr b) fun e => .node (.expr e) :=
  fun c hc e d hrun => (hexpr b c hc e d hrun).1.builds

/-- A token alone is made an expression. -/
theorem literal_makes {kind : ExprKind} (hc : c.Closed) (hk : c.kind ≠ .eof)
    (hinner : kind.inner = []) (hkind : ∀ l, kind ≠ .lvalue l) :
    Yields (do return .plain (← freshId) kind c.current.span) c.advance fun e d =>
      (∃ ts, c.Takes ts d ∧ Spelled e.parts (ts.map Token.word)) → c.MakesExpr e d := by
  refine .pure (c := { c.advance with nodeCount := c.advance.nodeCount + 1 }) fun hspelled => ?_
  refine Cursor.Makes.expr ⟨c.advance, ?_, ⟨rfl, ?_, hspelled⟩, rfl⟩ hkind
  · rw [Piece.inner, Node.inner, Expr.plain, hinner]
    exact .token hk
  · rw [Cursor.spanFrom, Cursor.behind_advance hc hk]
    rfl

/-- A number is made of its token. -/
theorem number_makes (hc : c.Closed) (hk : OperandForm.ofToken? c.kind = some .number) :
    number.Yields c c.MakesExpr := by
  obtain ⟨kind, hkind, _⟩ := NumberKind.ofToken?_of_number hk
  refine .of_reads (number_reads hc hk) (.congr (number_eq hkind) (.advance ?_))
  exact literal_makes hc (OperandForm.ofToken?_ne_eof hk) rfl fun _ => ExprKind.noConfusion

/-- A truth value is made of its token. -/
theorem truth_makes (hc : c.Closed) (hk : OperandForm.ofToken? c.kind = some .truth) :
    truth.Yields c c.MakesExpr := by
  refine .of_reads (truth_reads hc hk) (.advance ?_)
  exact literal_makes hc (OperandForm.ofToken?_ne_eof hk) rfl fun _ => ExprKind.noConfusion

/-- A call is made of its arguments, a variable of its indices. A variable makes two nodes:
itself, and the expression that it stands for. -/
theorem nameWith_makes (hexpr : ExprMade expr) (hreads : ReadsExpr expr) (hc : c.Closed)
    (hk : c.kind = .identifier) : (nameWith expr).Yields c c.MakesExpr := by
  have hne : c.kind ≠ .eof := by
    rw [hk]
    decide
  have hc₁ := hc.advance hne
  refine .of_reads (nameWith_reads hreads hc hk) (.advance (.kind ?_))
  by_cases hopen : c.advance.kind = .openParen
  · rw [if_pos hopen]
    have hne₁ : c.advance.kind ≠ .eof := by
      rw [hopen]
      decide
    have hc₂ := hc₁.advance hne₁
    refine .advance (.bind (listUntil_builds hc₂ (by decide) (hexpr.made .lowest)) ?_)
    intro arguments d hd
    refine .node fun hspelled => ?_
    refine Cursor.Makes.expr ⟨d, ?_, ⟨rfl, rfl, hspelled⟩, rfl⟩ fun _ => ExprKind.noConfusion
    exact .after_token hne (.after_token hne₁ hd)
  · rw [if_neg hopen]
    refine .bind (bracketed_builds hc₁ (hexpr.made .lowest)) fun indices d hd => ?_
    have hbuilds := hd.after_token hne
    -- the variable takes one identity, and what wraps it the next
    refine .pure (c := { d with nodeCount := d.nodeCount + 1 + 1 }) fun hspelled => ?_
    obtain ⟨ts, htakes, hparts⟩ := hspelled
    have hvariable : c.Makes (.node (.lvalue (.plain ⟨d.nodeCount⟩ c.current.text indices
        (d.spanFrom c.current.span.start)))) { d with nodeCount := d.nodeCount + 1 } :=
      ⟨d, hbuilds, ⟨rfl, rfl, ts, ⟨htakes.tokens, htakes.inner⟩, hparts⟩, rfl⟩
    refine ⟨⟨_, hvariable.builds, ⟨rfl, rfl, ts, htakes, hparts⟩, rfl⟩, fun l hl => ?_⟩
    obtain rfl := ExprKind.lvalue.inj hl
    exact ⟨_, hvariable.builds, ⟨rfl, rfl, ts, htakes, hparts⟩, rfl⟩

/-- A sign makes an expression of its operand. -/
theorem signWith_makes (hexpr : ExprMade expr) (hreads : ReadsExpr expr) (hc : c.Closed)
    (hk : OperandForm.ofToken? c.kind = some .sign) : (signWith expr).Yields c c.MakesExpr := by
  have hne := OperandForm.ofToken?_ne_eof hk
  have hc₁ := hc.advance hne
  obtain ⟨op, hop, _⟩ := Operator.ofUnary?_of_sign hk
  refine .of_reads (signWith_reads hreads hc hk) (.congr (signWith_eq hop) (.advance ?_))
  refine .bind (hexpr .unary _ hc₁) fun operand d hd => .node fun hspelled => ?_
  refine Cursor.Makes.expr ⟨d, ?_, ⟨rfl, rfl, hspelled⟩, rfl⟩ fun _ => ExprKind.noConfusion
  exact hd.1.builds.after_token hne

/-- Parentheses make an expression of what stands in them. -/
theorem groupWith_makes (hexpr : ExprMade expr) (hreads : ReadsExpr expr) (hc : c.Closed)
    (hk : c.kind = .openParen) : (groupWith expr).Yields c c.MakesExpr := by
  have hne : c.kind ≠ .eof := by
    rw [hk]
    decide
  have hc₁ := hc.advance hne
  refine .of_reads (groupWith_reads hreads hc hk) (.advance ?_)
  refine .bind (hexpr .lowest _ hc₁) fun inner d hd => ?_
  refine .expect fun hclose => .node fun hspelled => ?_
  refine Cursor.Makes.expr ⟨d.advance, ?_, ⟨rfl, rfl, hspelled⟩, rfl⟩ fun _ => ExprKind.noConfusion
  exact (hd.1.builds.after_token hne).then_token (by rw [hclose]; decide)

/-- Every form of operand is made of what was built since its first token. -/
theorem operandWith_makes (hexpr : ExprMade expr) (hreads : ReadsExpr expr) (hc : c.Closed) :
    (operandWith expr).Yields c c.MakesExpr := by
  refine .kind ?_
  cases hform : OperandForm.ofToken? c.kind with
  | none => exact .unexpected
  | some form =>
    cases form with
    | number => exact number_makes hc hform
    | truth => exact truth_makes hc hform
    | name => exact nameWith_makes hexpr hreads hc (OperandForm.eq_identifier hform)
    | sign => exact signWith_makes hexpr hreads hc hform
    | group => exact groupWith_makes hexpr hreads hc (OperandForm.eq_openParen hform)

/-- An operator between two expressions makes an expression of them. -/
theorem binary_makes {op : Operator} {b d : Cursor} {left right : Expr} (hc : c.Closed)
    (hop : op.token? = some b.kind) (htext : b.kind.hasText = false) (hk : b.kind ≠ .eof)
    (hleft : c.Makes (.node (.expr left)) b) (hright : b.advance.Makes (.node (.expr right)) d) :
    c.MakesExpr (.plain ⟨d.nodeCount⟩ (.binary op left right) (.between left.span right.span))
      { d with nodeCount := d.nodeCount + 1 } := by
  refine Cursor.Makes.expr ⟨d, ?_, ⟨rfl, ?_, ?_⟩, rfl⟩ fun _ => ExprKind.noConfusion
  · exact hleft.builds.append (.after_token hk hright.builds)
  · have hstart : left.span = b.spanFrom c.current.span.start := hleft.span
    have hstop : right.span = d.spanFrom b.advance.current.span.start := hright.span
    show Span.between left.span right.span = _
    rw [hstart, hstop]
    rfl
  · obtain ⟨ts, hts, hleftParts⟩ := hleft.spelled
    obtain ⟨us, hus, hrightParts⟩ := hright.spelled
    have htoken := Cursor.takes_advance (hts.closed hc) hk
    have htakes := hts.trans (htoken.trans hus)
    refine ⟨ts ++ ([b.current] ++ us), ⟨htakes.tokens, htakes.inner⟩, ?_⟩
    rw [List.map_append, List.map_append, List.map_singleton, Token.word_eq_plain rfl htext]
    refine hleftParts.append (.append ?_ hrightParts)
    rw [Operator.parts_eq hop]
    exact Spelled.nil.plain

/-- The loop over operators makes larger and larger expressions, each from the same
first token. -/
theorem extendWith_makes (hexpr : ExprMade expr) (b : Precedence) (rounds : Nat) :
    ∀ (c d : Cursor) (left : Expr), c.Closed → c.MakesExpr left d →
      (extendWith expr b rounds left).Yields d c.MakesExpr := by
  induction rounds with
  | zero =>
    intro c d left _ hleft
    exact .pure hleft
  | succ rounds ih =>
    intro c d left hc hleft
    have hd := hleft.1.closed hc
    by_cases hmore : ∃ p, Precedence.ofToken? d.kind = some p ∧ b.rank < p.rank
    · obtain ⟨p, hp, hb⟩ := hmore
      obtain ⟨op, hop, htoken, _, htext⟩ := Operator.ofBinary?_of_precedence hp
      have hne := (Precedence.ofToken?_ne hp).2.2
      have hd₁ := hd.advance hne
      refine .congr (extendWith_more hp hop hb) (.advance (.bind (hexpr p _ hd₁) ?_))
      intro right e hright
      exact ih c { e with nodeCount := e.nodeCount + 1 } _ hc
        (binary_makes hc htoken htext hne hleft.1 hright.1)
    · have hdone : extendWith expr b (rounds + 1) left d = (pure left : Phrase Expr) d :=
        extendWith_done fun p hp => Nat.not_lt.mp fun hlt => hmore ⟨p, hp, hlt⟩
      exact .congr hdone (.pure hleft)

/-- Expressions are made at every level of nesting. -/
theorem exprWithin_makes (levels : Nat) : ExprMade (exprWithin levels) := by
  induction levels with
  | zero =>
    intro b c _
    exact .unexpected
  | succ levels ih =>
    intro b c hc
    refine .bind (operandWith_makes ih (exprWithin_reads levels) hc) fun left d hleft => ?_
    exact extendWith_makes ih b _ c d left hc hleft

/-- Expressions that are read are made. -/
theorem expr_makes : ExprMade Phrase.expr :=
  fun b c hc => exprWithin_makes _ b c hc

end

/-! ### Declarations -/

section

variable {c : Cursor}

/-- A dimension is made of one token or two. -/
theorem dimension_makes (hc : c.Closed) : dimension.Yields c fun dim d => c.Makes (.dim dim) d := by
  refine .of_reads (dimension_reads c hc) (.position (.kind ?_))
  dsimp only
  by_cases hk : c.kind = .dash
  · rw [if_pos hk]
    refine .advance (.expectOr fun hk₁ => ?_)
    refine .pure fun hspelled => ⟨_, ?_, ⟨rfl, rfl, hspelled⟩, rfl⟩
    exact .after_token (by rw [hk]; decide) (.token (by rw [hk₁]; decide))
  · rw [if_neg hk]
    refine .expectOr fun hk₁ => .pure fun hspelled => ⟨_, ?_, ⟨rfl, rfl, hspelled⟩, rfl⟩
    exact .token (by rw [hk₁]; decide)

theorem dimension_made : Made dimension .dim :=
  fun _ hc dim d hrun => (dimension_makes hc dim d hrun).builds

/-- Initial values are made at every level of nesting. -/
theorem initializerWithin_makes (levels : Nat) :
    ∀ c : Cursor, c.Closed → (initializerWithin levels).Yields c fun x d =>
      c.Makes (.node (.init x)) d := by
  induction levels with
  | zero =>
    intro c _
    exact .unexpected
  | succ levels ih =>
    intro c hc
    refine .of_reads (initializerWithin_reads (levels + 1) c hc) (.position (.kind ?_))
    by_cases hk : c.kind = .openCurly
    · rw [if_pos hk]
      have hne : c.kind ≠ .eof := by
        rw [hk]
        decide
      have hmade : Made (initializerWithin levels) fun x => .node (.init x) :=
        fun c hc x d hrun => (ih c hc x d hrun).builds
      have hc₁ := hc.advance hne
      refine .advance (.bind (listUntil_builds hc₁ (by decide) hmade) fun items d hd => ?_)
      exact .node fun hspelled => ⟨d, hd.after_token hne, ⟨rfl, rfl, hspelled⟩, rfl⟩
    · rw [if_neg hk]
      refine .bind (expr_makes .lowest c hc) fun value d hd => .node fun hspelled => ?_
      exact ⟨d, hd.1.builds, ⟨rfl, rfl, hspelled⟩, rfl⟩

theorem initializer_makes (hc : c.Closed) :
    initializer.Yields c fun x d => c.Makes (.node (.init x)) d :=
  initializerWithin_makes _ c hc

/-- A definition is made of its dimensions and its initial value. -/
theorem varDef_makes (isConstant : Bool) (hc : c.Closed) :
    (varDef isConstant).Yields c fun v d => c.Makes (.node (.varDef v)) d := by
  refine .of_reads (varDef_reads isConstant c hc) (.position (.identifier fun hk => ?_))
  have hne : c.kind ≠ .eof := by
    rw [hk]
    decide
  have hc₁ := hc.advance hne
  refine .bind (bracketed_builds hc₁ dimension_made) fun dims d hd => .kind ?_
  have hdims := hd.after_token hne
  dsimp only
  by_cases hassign : d.kind = .assign
  · rw [if_pos hassign, bind_map_left]
    have hne₁ : d.kind ≠ .eof := by
      rw [hassign]
      decide
    have hd₁ := (hd.closed hc₁).advance hne₁
    refine .advance (.bind (initializer_makes hd₁) fun init e he => .node fun hspelled => ?_)
    exact ⟨e, hdims.append (he.builds.after_token hne₁), ⟨rfl, rfl, hspelled⟩, rfl⟩
  · rw [if_neg hassign]
    cases isConstant with
    | true => exact .bind (P := fun _ _ => False) .unexpected fun _ _ h => h.elim
    | false =>
      rw [if_neg Bool.false_ne_true, pure_bind]
      refine .node fun hspelled => ⟨d, ?_, ⟨rfl, rfl, hspelled⟩, rfl⟩
      exact hdims.append (.none d)

/-- A declaration is made of its definitions, after its marker and its type. -/
theorem decl_makes (hc : c.Closed) : decl.Yields c fun v d => c.Makes (.node (.decl v)) d := by
  have hafter : ∀ (isConstant : Bool) (b : Cursor), b.Closed → c.Builds [] b →
      (declAfter c.current.span.start isConstant).Yields b fun v d =>
        (∃ ts, c.Takes ts d ∧ Spelled v.parts (ts.map Token.word)) →
          c.Makes (.node (.decl v)) d := by
    intro isConstant b hb hbuilds
    refine .basicType fun basic hne => ?_
    have hb₁ := hb.advance hne
    have hmade : Made (varDef isConstant) fun v => .node (.varDef v) :=
      fun _ hc v d hrun => (varDef_makes isConstant hc v d hrun).builds
    refine .bind (commaSeparated_builds hb₁ hmade) fun defs d hd => .expect fun hk => ?_
    have hdefs := hbuilds.append (hd.after_token hne)
    refine .node fun hspelled => ⟨d.advance, ?_, ⟨rfl, rfl, hspelled⟩, rfl⟩
    exact hdefs.then_token (by rw [hk]; decide)
  refine .of_reads (decl_reads c hc) (.congr (decl_eq c) ?_)
  by_cases hk : c.kind = .kwConst
  · rw [if_pos hk]
    have hne : c.kind ≠ .eof := by
      rw [hk]
      decide
    exact .advance (hafter true _ (hc.advance hne) (.token hne))
  · rw [if_neg hk]
    exact hafter false c hc (.none c)

/-- An open dimension builds nothing but takes its brackets. -/
theorem outerDimension_builds (hc : c.Closed) (hk : c.kind = .openBracket) :
    outerDimension.Yields c fun outer d => c.Builds (outer.toList.map .dim) d := by
  have hne : c.kind ≠ .eof := by
    rw [hk]
    decide
  have hc₁ := hc.advance hne
  refine .advance (.kind ?_)
  dsimp only
  by_cases hclose : c.advance.kind = .closeBracket
  · rw [if_pos hclose, pure_bind]
    refine .expect fun hk₁ => .pure ?_
    exact .after_token hne (.token (by rw [hk₁]; decide))
  · rw [if_neg hclose, bind_map_left]
    refine .bind (dimension_makes hc₁) fun dim d hd => .expect fun hk₁ => .pure ?_
    exact (hd.builds.after_token hne).then_token (by rw [hk₁]; decide)

/-- A parameter is made of its dimensions. -/
theorem param_makes (hc : c.Closed) : param.Yields c fun p d => c.Makes (.node (.param p)) d := by
  have hafter : ∀ (basic : BasicType) (name : String) (isOpen : Bool) (outer : List Dimension)
      (b : Cursor), b.Closed → c.Builds (outer.map .dim) b →
      (paramAfter c.current.span.start basic name isOpen outer).Yields b fun p d =>
        (∃ ts, c.Takes ts d ∧ Spelled p.parts (ts.map Token.word)) →
          c.Makes (.node (.param p)) d := by
    intro basic name isOpen outer b hb houter
    refine .bind (bracketed_builds hb dimension_made) fun inner d hd => .node fun hspelled => ?_
    have hdims := houter.append hd
    rw [← List.map_append] at hdims
    exact ⟨d, hdims, ⟨rfl, rfl, hspelled⟩, rfl⟩
  refine .of_reads (param_reads c hc) ?_
  rw [param_eq]
  refine .position (.basicType fun basic hne => .identifier fun hk => .kind ?_)
  have hc₁ := hc.advance hne
  have hne₁ : c.advance.kind ≠ .eof := by
    rw [hk]
    decide
  have hc₂ := hc₁.advance hne₁
  have htokens : c.Builds [] c.advance.advance := .after_token hne (.token hne₁)
  by_cases hopen : c.advance.advance.kind = .openBracket
  · rw [if_pos hopen]
    refine .bind (outerDimension_builds hc₂ hopen) fun outer d hd => ?_
    exact hafter _ _ _ _ d (hd.closed hc₂) (htokens.append hd)
  · rw [if_neg hopen]
    exact hafter _ _ _ [] _ hc₂ htokens

end

/-! ### Statements -/

section

variable {stmt : Phrase Stmt} {c : Cursor}

/-- The statements inside are made at every cursor. -/
def StmtMade (stmt : Phrase Stmt) : Prop :=
  ∀ c : Cursor, c.Closed → stmt.Yields c fun t d => c.Makes (.node (.stmt t)) d

/-- An assignment is made of its target and its value, an expression statement of
its expression. -/
theorem exprStmt_makes (hc : c.Closed) :
    exprStmt.Yields c fun t d => c.Makes (.node (.stmt t)) d := by
  refine .of_reads (exprStmt_reads hc) ?_
  rw [exprStmt_eq]
  refine .position (.bind (expr_makes .lowest c hc) fun left d hleft => ?_)
  have hd := hleft.1.closed hc
  by_cases hk : d.kind = .assign
  · by_cases hvariable : ∃ target, left.kind = .lvalue target
    · obtain ⟨target, htarget⟩ := hvariable
      have hne : d.kind ≠ .eof := by
        rw [hk]
        decide
      have hd₁ := hd.advance hne
      refine .congr (exprStmtAfter_assign hk htarget) (.advance ?_)
      refine .bind (expr_makes .lowest _ hd₁) fun value e hvalue => .expect fun hsemicolon => ?_
      refine .node fun hspelled => ⟨e.advance, ?_, ⟨rfl, rfl, hspelled⟩, rfl⟩
      have hboth := (hleft.2 target htarget).builds.append (hvalue.1.builds.after_token hne)
      exact hboth.then_token (by rw [hsemicolon]; decide)
    · refine .congr (exprStmtAfter_refused hk fun target h => hvariable ⟨target, h⟩) ?_
      exact .unexpected
  · refine .congr (exprStmtAfter_plain hk) (.expect fun hsemicolon => .node fun hspelled => ?_)
    refine ⟨d.advance, ?_, ⟨rfl, rfl, hspelled⟩, rfl⟩
    exact hleft.1.builds.then_token (by rw [hsemicolon]; decide)

/-- The empty statement is made of its semicolon. -/
theorem emptyStmt_makes (hc : c.Closed) (hk : c.kind = .semicolon) :
    emptyStmt.Yields c fun t d => c.Makes (.node (.stmt t)) d := by
  refine .of_reads (emptyStmt_reads hc hk) (.advance (.node fun hspelled => ?_))
  exact ⟨c.advance, .token (by rw [hk]; decide), ⟨rfl, rfl, hspelled⟩, rfl⟩

/-- A jump is made of its keyword and the semicolon. -/
theorem jumpStmt_makes {jump : StmtKind} {k : TokenKind} (hk : c.kind = k) (hne : k ≠ .eof)
    (hinner : jump.inner = []) (hreads : Stmt.spelling.Reads [] (jumpStmt jump) c) :
    (jumpStmt jump).Yields c fun t d => c.Makes (.node (.stmt t)) d := by
  refine .of_reads hreads (.advance (.expect fun hsemicolon => .node fun hspelled => ?_))
  refine ⟨c.advance.advance, ?_, ⟨rfl, rfl, hspelled⟩, rfl⟩
  rw [Piece.inner, Node.inner, Stmt.plain, hinner]
  exact .after_token (by rw [hk]; exact hne) (.token (by rw [hsemicolon]; decide))

/-- A return is made of its value, if there is one. -/
theorem returnStmt_makes (hc : c.Closed) (hk : c.kind = .kwReturn) :
    returnStmt.Yields c fun t d => c.Makes (.node (.stmt t)) d := by
  have hne : c.kind ≠ .eof := by
    rw [hk]
    decide
  have hc₁ := hc.advance hne
  refine .of_reads (returnStmt_reads hc hk) (.advance (.kind ?_))
  dsimp only
  by_cases hvoid : c.advance.kind = .semicolon
  · rw [if_pos hvoid, pure_bind]
    refine .expect fun hsemicolon => .node fun hspelled => ?_
    refine ⟨c.advance.advance, ?_, ⟨rfl, rfl, hspelled⟩, rfl⟩
    exact .after_token hne (.token (by rw [hsemicolon]; decide))
  · rw [if_neg hvoid, bind_map_left]
    refine .bind (expr_makes .lowest _ hc₁) fun value d hd => .expect fun hsemicolon => ?_
    refine .node fun hspelled => ⟨d.advance, ?_, ⟨rfl, rfl, hspelled⟩, rfl⟩
    exact (hd.1.builds.after_token hne).then_token (by rw [hsemicolon]; decide)

/-- An item of a block makes its piece. -/
theorem blockItemWith_made (hstmt : StmtMade stmt) :
    Made (blockItemWith stmt) BlockItem.piece := by
  intro c hc
  refine .kind ?_
  by_cases hk : c.kind.startsDecl = true
  · rw [if_pos hk]
    exact .map fun t d hrun => (decl_makes hc t d hrun).builds
  · rw [if_neg hk]
    exact .map fun t d hrun => (hstmt c hc t d hrun).builds

/-- A block is made of its items. -/
theorem blockWith_makes (hstmt : StmtMade stmt) (hreads : ReadsStmt stmt) (hc : c.Closed) :
    (blockWith stmt).Yields c fun b d => c.Makes (.node (.block b)) d := by
  refine .of_reads (blockWith_reads hreads c hc) (.position (.expect fun hk => ?_))
  have hne : c.kind ≠ .eof := by
    rw [hk]
    decide
  have hc₁ := hc.advance hne
  refine .bind (many_builds hc₁ fun b hb _ => blockItemWith_made hstmt b hb) fun items d hd => ?_
  refine .expect fun hclose => .node fun hspelled => ?_
  refine ⟨d.advance, ?_, ⟨rfl, rfl, hspelled⟩, rfl⟩
  exact (hd.after_token hne).then_token (by rw [hclose]; decide)

/-- A block makes a node of its own inside the statement. -/
theorem blockStmtWith_makes (hstmt : StmtMade stmt) (hreads : ReadsStmt stmt) (hc : c.Closed) :
    (blockStmtWith stmt).Yields c fun t d => c.Makes (.node (.stmt t)) d := by
  refine .of_reads (blockStmtWith_reads hreads hc) (.position ?_)
  refine .bind (blockWith_makes hstmt hreads hc) fun block d hd => .node fun hspelled => ?_
  exact ⟨d, hd.builds, ⟨rfl, rfl, hspelled⟩, rfl⟩

/-- A condition builds its expression between its parentheses. -/
theorem condition_builds (hc : c.Closed) :
    condition.Yields c fun e d => c.Builds [.node (.expr e)] d := by
  refine .expect fun hk => ?_
  have hne : c.kind ≠ .eof := by
    rw [hk]
    decide
  have hc₁ := hc.advance hne
  refine .bind (expr_makes .lowest _ hc₁) fun value d hd => .expect fun hclose => .pure ?_
  exact (hd.1.builds.after_token hne).then_token (by rw [hclose]; decide)

/-- A condition is made of its test and its branches. -/
theorem ifStmtWith_makes (hstmt : StmtMade stmt) (hreads : ReadsStmt stmt) (hc : c.Closed)
    (hk : c.kind = .kwIf) :
    (ifStmtWith stmt).Yields c fun t d => c.Makes (.node (.stmt t)) d := by
  have hne : c.kind ≠ .eof := by
    rw [hk]
    decide
  have hc₁ := hc.advance hne
  refine .of_reads (ifStmtWith_reads hreads hc hk) (.advance ?_)
  refine .bind (condition_builds hc₁) fun test d htest => ?_
  have hd := htest.closed hc₁
  refine .bind (hstmt d hd) fun thenBranch e hthen => .kind ?_
  have he := hthen.closed hd
  have hbranch := (htest.after_token hne).append hthen.builds
  dsimp only
  by_cases helse : e.kind = .kwElse
  · rw [if_pos helse, bind_map_left]
    have hne₁ : e.kind ≠ .eof := by
      rw [helse]
      decide
    have he₁ := he.advance hne₁
    refine .advance (.bind (hstmt _ he₁) fun elseBranch b hb => .node fun hspelled => ?_)
    exact ⟨b, hbranch.append (hb.builds.after_token hne₁), ⟨rfl, rfl, hspelled⟩, rfl⟩
  · rw [if_neg helse, pure_bind]
    exact .node fun hspelled => ⟨e, hbranch, ⟨rfl, rfl, hspelled⟩, rfl⟩

/-- A loop is made of its test and its body. -/
theorem whileStmtWith_makes (hstmt : StmtMade stmt) (hreads : ReadsStmt stmt) (hc : c.Closed)
    (hk : c.kind = .kwWhile) :
    (whileStmtWith stmt).Yields c fun t d => c.Makes (.node (.stmt t)) d := by
  have hne : c.kind ≠ .eof := by
    rw [hk]
    decide
  have hc₁ := hc.advance hne
  refine .of_reads (whileStmtWith_reads hreads hc hk) (.advance ?_)
  refine .bind (condition_builds hc₁) fun test d htest => ?_
  refine .bind (hstmt d (htest.closed hc₁)) fun body e hbody => .node fun hspelled => ?_
  exact ⟨e, (htest.after_token hne).append hbody.builds, ⟨rfl, rfl, hspelled⟩, rfl⟩

/-- Every form of statement is made of what was built since its first token. -/
theorem stmtWith_makes (hstmt : StmtMade stmt) (hreads : ReadsStmt stmt) :
    StmtMade (stmtWith stmt) := by
  intro c hc
  refine .kind ?_
  cases hform : StmtForm.ofToken? c.kind with
  | none => exact exprStmt_makes hc
  | some form =>
    have hkind := StmtForm.eq_token hform
    cases form with
    | block => exact blockStmtWith_makes hstmt hreads hc
    | cond => exact ifStmtWith_makes hstmt hreads hc hkind
    | loop => exact whileStmtWith_makes hstmt hreads hc hkind
    | leave =>
      refine jumpStmt_makes hkind (by decide) rfl ?_
      exact jumpStmt_reads hc hkind (by decide) rfl (fun _ _ => Stmt.spells_leave.mpr rfl)
        fun _ _ => rfl
    | next =>
      refine jumpStmt_makes hkind (by decide) rfl ?_
      exact jumpStmt_reads hc hkind (by decide) rfl (fun _ _ => Stmt.spells_next.mpr rfl)
        fun _ _ => rfl
    | ret => exact returnStmt_makes hc hkind
    | empty => exact emptyStmt_makes hc hkind

/-- Statements are made at every level of nesting. -/
theorem stmtWithin_makes (levels : Nat) : StmtMade (stmtWithin levels) := by
  induction levels with
  | zero =>
    intro c _
    exact .unexpected
  | succ levels ih => exact stmtWith_makes ih (stmtWithin_reads levels)

/-- Statements that are read are made. -/
theorem stmt_makes : StmtMade Phrase.stmt :=
  fun c hc => stmtWithin_makes _ c hc

/-! ### Programs -/

/-- A function definition is made of its parameters and its body. -/
theorem funcDef_makes (hc : c.Closed) :
    funcDef.Yields c fun f d => c.Makes (.node (.func f)) d := by
  refine .of_reads (funcDef_reads c hc) (.position (.basicType fun returns hne => ?_))
  have hc₁ := hc.advance hne
  refine .identifier fun hk₁ => .expect fun hk₂ => ?_
  have hne₁ : c.advance.kind ≠ .eof := by
    rw [hk₁]
    decide
  have hne₂ : c.advance.advance.kind ≠ .eof := by
    rw [hk₂]
    decide
  have hc₂ := hc₁.advance hne₁
  have hc₃ := hc₂.advance hne₂
  have hmade : Made param fun p => .node (.param p) :=
    fun _ hc p d hrun => (param_makes hc p d hrun).builds
  refine .bind (listUntil_builds hc₃ (by decide) hmade) fun params d hd => ?_
  have hparams := ((hd.after_token hne₂).after_token hne₁).after_token hne
  refine .bind (blockWith_makes stmt_makes stmt_reads (hd.closed hc₃)) fun body e he => ?_
  exact .node fun hspelled => ⟨e, hparams.append he.builds, ⟨rfl, rfl, hspelled⟩, rfl⟩

/-- An item of a program makes its piece. -/
theorem item_made : Made item Item.piece := by
  intro c hc
  by_cases hfunc : startsFuncDef c = true
  · exact .congr (item_func hfunc) (.map fun f d hrun => (funcDef_makes hc f d hrun).builds)
  by_cases hdecl : c.kind.startsDecl = true
  · exact .congr (item_decl hfunc hdecl) (.map fun v d hrun => (decl_makes hc v d hrun).builds)
  · exact .congr (item_refused hfunc hdecl) .unexpected

/-- A program takes the first identity, and builds its items from there to the end. -/
theorem program_builds (hc : c.Closed) :
    program.Yields c fun p d => p.id = ⟨c.nodeCount⟩ ∧
      Cursor.Builds { c with nodeCount := c.nodeCount + 1 } (p.items.map Item.piece) d ∧
      p.span = ⟨c.current.span.start, d.current.span.start⟩ := by
  have hitems : (many (· ≠ .eof) item).Yields { c with nodeCount := c.nodeCount + 1 } fun items d =>
      Cursor.Builds { c with nodeCount := c.nodeCount + 1 } (items.map Item.piece) d :=
    many_builds hc fun b hb _ => item_made b hb
  refine .bind (P := fun id d => id = ⟨c.nodeCount⟩ ∧ d = { c with nodeCount := c.nodeCount + 1 })
    (.pure (c := { c with nodeCount := c.nodeCount + 1 }) ⟨rfl, rfl⟩) ?_
  rintro id d ⟨rfl, rfl⟩
  exact .position (.bind hitems fun items d hd => .position (.pure ⟨rfl, hd, rfl⟩))

end

end Phrase

/-- What is parsed was built from the first token on. -/
theorem parse_builds {tokens : List Token} {file : String} {p : Program} {c : Cursor}
    (h : parse tokens file = .ok p c) :
    p.id = ⟨0⟩ ∧
      Cursor.Builds { Cursor.ofTokens tokens file with nodeCount := 1 }
        (p.items.map Item.piece) c ∧
      p.span = ⟨(Cursor.ofTokens tokens file).current.span.start, c.current.span.start⟩ := by
  have hcount : (Cursor.ofTokens tokens file).nodeCount = 0 := by
    cases tokens <;> rfl
  have hbuilds := Phrase.program_builds (Cursor.ofTokens_closed tokens file) p c h
  rw [hcount] at hbuilds
  exact hbuilds

end CactLang
