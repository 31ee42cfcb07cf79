import CactLang.Proofs.Reading.Program
import CactLang.Proofs.Recursion.Equations

/-!
# Phrases that agree

What a phrase reads is settled by the tokens up to the first end of the input. Two cursors look
alike if these are the same (`Cursor.Alike`), and the number of them before the end
(`Cursor.remaining`) is what reading uses up.

> `Agree next n gain m m'`: wherever at most `n` tokens are left, `m` and `m'` end alike, having
> taken at least `gain` tokens if they succeed.

The rules follow the ways of building a phrase from others. The one for sequences carries the
count: after a phrase that gains a token, what comes next has one token less, and need only agree
there.
-/

namespace CactLang

open Phrase

variable {α β : Type}

/-! ## Cursors that look alike -/

namespace Cursor

variable {c d c' d' : Cursor} {ts : List Token}

/-- The number of tokens that stand before the end of the input. -/
def remaining (c : Cursor) : Nat :=
  (Token.content c.tokens).length

/-- The same tokens stand at both cursors up to the end of the input, and the same end. What
comes after it may differ. -/
structure Alike (c d : Cursor) : Prop where
  split : ∃ ts e us vs, (∀ t ∈ ts, t.kind ≠ .eof) ∧ e.kind = .eof ∧
    c.tokens = ts ++ e :: us ∧ d.tokens = ts ++ e :: vs
  behind : c.behind = d.behind
  nodeCount : c.nodeCount = d.nodeCount

/-- The tokens that are taken are not left. -/
theorem Takes.remaining (h : c.Takes ts d) : d.remaining + ts.length = c.remaining := by
  rw [Cursor.remaining, Cursor.remaining, h.tokens, Token.content_append h.inner,
    List.length_append, Nat.add_comm]

/-- Where an input ends, its content stands before the first end. -/
theorem Closed.split (hc : c.Closed) :
    ∃ e us, c.tokens = Token.content c.tokens ++ e :: us ∧ e.kind = .eof := by
  rcases Token.content_cases c.tokens with hall | hsplit
  · obtain ⟨t, ht, hkind⟩ := hc
    rw [← hall] at ht
    exact absurd hkind (Token.content_inner t ht)
  · exact hsplit

/-- What is left before the end is no more than what stands ahead, as the end is not counted. -/
theorem Closed.remaining_le (hc : c.Closed) : c.remaining ≤ c.ahead.length := by
  obtain ⟨e, us, hsplit, _⟩ := hc.split
  have hlength := congrArg List.length hsplit
  simp only [tokens, List.length_cons, List.length_append] at hlength
  unfold remaining
  simp only [tokens]
  omega

/-- Where nothing is left, the end of the input is next. -/
theorem Closed.kind_of_remaining (hc : c.Closed) (h : c.remaining = 0) : c.kind = .eof := by
  obtain ⟨e, us, hsplit, he⟩ := hc.split
  rw [List.length_eq_zero_iff.mp h] at hsplit
  exact (congrArg Token.kind (List.cons.inj hsplit).1).trans he

/-- Before the last token, going on drops one token and remembers where it stopped. -/
theorem advance_of_ne (h : c.ahead ≠ []) : c.advance.tokens = c.ahead ∧
    c.advance.behind = c.current.span.stop ∧ c.advance.nodeCount = c.nodeCount := by
  unfold Cursor.advance
  cases hahead : c.ahead with
  | nil => exact absurd hahead h
  | cons next ahead => exact ⟨rfl, rfl, rfl⟩

/-- Looking ahead sees a token that is there. -/
theorem peek_of_getElem? {i : Nat} {t : Token} (h : c.tokens[i]? = some t) : c.peek i = t := by
  rw [peek, show (c.current :: c.ahead)[i]? = some t from h]
  rfl

/-- A cursor is made of its tokens, the place behind it and the number of identities. -/
theorem eq_of_tokens (h : c.tokens = d.tokens) (hbehind : c.behind = d.behind)
    (hcount : c.nodeCount = d.nodeCount) : c = d := by
  obtain ⟨current, ahead, behind, count⟩ := c
  obtain ⟨current', ahead', behind', count'⟩ := d
  obtain ⟨rfl, rfl⟩ := List.cons.inj h
  obtain rfl : behind = behind' := hbehind
  obtain rfl : count = count' := hcount
  rfl

/-- A cursor starts at the beginning of the file, with no identity handed out. -/
theorem ofTokens_origin (tokens : List Token) (file : String) :
    (ofTokens tokens file).behind = ⟨0, file⟩ ∧ (ofTokens tokens file).nodeCount = 0 := by
  cases tokens <;> exact ⟨rfl, rfl⟩

/-- Before the first token the whole content is left. -/
theorem ofTokens_remaining (tokens : List Token) (file : String) :
    (ofTokens tokens file).remaining = (Token.content tokens).length := by
  obtain ⟨e, rest, htokens, he⟩ := ofTokens_content tokens file
  rw [remaining, htokens, Token.content_eq Token.content_inner he]

namespace Alike

/-- A cursor looks like itself, provided that its input ends. -/
theorem refl (hc : c.Closed) : c.Alike c := by
  obtain ⟨e, us, hsplit, he⟩ := hc.split
  exact ⟨⟨_, e, us, us, Token.content_inner, he, hsplit, hsplit⟩, rfl, rfl⟩

/-- An end of the input that both lists share need not be the first. -/
theorem ofTokens {tokens tokens' before after after' : List Token} {e : Token} {file : String}
    (he : e.kind = .eof) (h : (Cursor.ofTokens tokens file).tokens = before ++ e :: after)
    (h' : (Cursor.ofTokens tokens' file).tokens = before ++ e :: after') :
    (Cursor.ofTokens tokens file).Alike (Cursor.ofTokens tokens' file) := by
  -- before `e`, or at it, both have the same first end of the input
  have hfirst : ∃ t rest, before ++ [e] = Token.content (before ++ [e]) ++ t :: rest ∧
      t.kind = .eof := by
    rcases Token.content_cases (before ++ [e]) with hall | hsplit
    · have hmem : e ∈ Token.content (before ++ [e]) := by
        rw [hall]
        exact List.mem_append_right _ (List.mem_singleton_self e)
      exact absurd he (Token.content_inner e hmem)
    · exact hsplit
  obtain ⟨t, rest, hsplit, ht⟩ := hfirst
  have hshared (more : List Token) :
      before ++ e :: more = Token.content (before ++ [e]) ++ t :: (rest ++ more) := by
    rw [List.append_cons before, ← List.cons_append, ← List.append_assoc, ← hsplit]
  exact ⟨⟨_, t, rest ++ after, rest ++ after', Token.content_inner, ht, h.trans (hshared _),
      h'.trans (hshared _)⟩,
    (ofTokens_origin tokens file).1.trans (ofTokens_origin tokens' file).1.symm,
    (ofTokens_origin tokens file).2.trans (ofTokens_origin tokens' file).2.symm⟩

/-- Cursors that look alike have an end of the input in common. -/
theorem closed (h : c.Alike d) : c.Closed ∧ d.Closed := by
  obtain ⟨ts, e, us, vs, _, he, hc, hd⟩ := h.split
  exact ⟨⟨e, by rw [hc]; simp, he⟩, ⟨e, by rw [hd]; simp, he⟩⟩

/-- The next token is before the end or is the end, and both are shared. -/
theorem current (h : c.Alike d) : c.current = d.current := by
  obtain ⟨ts, e, us, vs, _, _, hc, hd⟩ := h.split
  cases ts with
  | nil => exact (List.cons.inj hc).1.trans (List.cons.inj hd).1.symm
  | cons t ts => exact (List.cons.inj hc).1.trans (List.cons.inj hd).1.symm

theorem kind (h : c.Alike d) : c.kind = d.kind :=
  congrArg Token.kind h.current

/-- Cursors that look alike go on to cursors that do. -/
theorem advance (h : c.Alike d) (hk : c.kind ≠ .eof) : c.advance.Alike d.advance := by
  obtain ⟨ts, e, us, vs, hts, he, hc, hd⟩ := h.split
  cases ts with
  | nil => exact absurd ((congrArg Token.kind (List.cons.inj hc).1).trans he) hk
  | cons t ts =>
    have hahead : c.ahead = ts ++ e :: us := (List.cons.inj hc).2
    have hahead' : d.ahead = ts ++ e :: vs := (List.cons.inj hd).2
    obtain ⟨htokens, hbehind, hcount⟩ := advance_of_ne (c := c) (by rw [hahead]; simp)
    obtain ⟨htokens', hbehind', hcount'⟩ := advance_of_ne (c := d) (by rw [hahead']; simp)
    refine ⟨⟨ts, e, us, vs, fun t ht => hts t (List.mem_cons_of_mem _ ht), he,
      htokens.trans hahead, htokens'.trans hahead'⟩, ?_, ?_⟩
    · rw [hbehind, hbehind', h.current]
    · rw [hcount, hcount', h.nodeCount]

/-- Handing out an identity at both changes nothing in what they show. -/
theorem freshId (h : c.Alike d) : Cursor.Alike { c with nodeCount := c.nodeCount + 1 }
    { d with nodeCount := d.nodeCount + 1 } :=
  ⟨h.split, h.behind, congrArg (· + 1) h.nodeCount⟩

/-- Looking two tokens ahead does not see past the end: what comes before it cannot start a
function definition, however near it is. -/
theorem startsFuncDef (h : c.Alike d) : Phrase.startsFuncDef d = Phrase.startsFuncDef c := by
  obtain ⟨ts, e, us, vs, _, he, hc, hd⟩ := h.split
  unfold Phrase.startsFuncDef
  rw [← h.current]
  -- by how many tokens, if fewer than two, stand before the end
  rcases ts with _ | ⟨t, _ | ⟨u, ts⟩⟩
  · have hkind : c.current.kind = .eof := (congrArg Token.kind (List.cons.inj hc).1).trans he
    rw [hkind]
    rfl
  · have hpeek : c.peek 1 = e := peek_of_getElem? (by rw [hc]; rfl)
    have hpeek' : d.peek 1 = e := peek_of_getElem? (by rw [hd]; rfl)
    rw [hpeek, hpeek', he]
    simp
  · obtain ⟨x, hx, hx'⟩ : ∃ x, (ts ++ e :: us)[0]? = some x ∧ (ts ++ e :: vs)[0]? = some x := by
      cases ts with
      | nil => exact ⟨e, rfl, rfl⟩
      | cons x ts => exact ⟨x, rfl, rfl⟩
    have hfirst : c.peek 1 = u := peek_of_getElem? (by rw [hc]; rfl)
    have hfirst' : d.peek 1 = u := peek_of_getElem? (by rw [hd]; rfl)
    have hsecond : c.peek 2 = x := peek_of_getElem? (by rw [hc]; exact hx)
    have hsecond' : d.peek 2 = x := peek_of_getElem? (by rw [hd]; exact hx')
    rw [hfirst, hfirst', hsecond, hsecond']

end Alike

end Cursor

/-! ## Phrases that agree -/

/-- Both readings end alike: with the same value or the same diagnostic, after the same tokens,
at cursors that look alike. Where they succeed they have taken at least `gain` tokens. -/
inductive EndsAlike (gain : Nat) (c c' : Cursor) :
    EStateM.Result Diagnostic Cursor α → EStateM.Result Diagnostic Cursor α → Prop
  | ok {a : α} {d d' : Cursor} {ts : List Token} (halike : d.Alike d') (h : c.Takes ts d)
      (h' : c'.Takes ts d') (hgain : gain ≤ ts.length) : EndsAlike gain c c' (.ok a d) (.ok a d')
  | error {e : Diagnostic} {d d' : Cursor} {ts : List Token} (halike : d.Alike d')
      (h : c.Takes ts d) (h' : c'.Takes ts d') : EndsAlike gain c c' (.error e d) (.error e d')

namespace EndsAlike

variable {gain gain' : Nat} {c c' d d' : Cursor} {ts : List Token}
  {x x' : EStateM.Result Diagnostic Cursor α}

/-- What ends alike ends alike from further back, with the gain of both stretches. -/
theorem after (hends : EndsAlike gain' d d' x x') (h : c.Takes ts d) (h' : c'.Takes ts d')
    (hgain : gain ≤ ts.length + gain') : EndsAlike gain c c' x x' := by
  cases hends with
  | ok halike hd hd' hmore =>
    refine .ok halike (h.trans hd) (h'.trans hd') ?_
    rw [List.length_append]
    omega
  | error halike hd hd' => exact .error halike (h.trans hd) (h'.trans hd')

/-- With a gain, both readings went on. -/
theorem advances (h : EndsAlike 1 c c' x x') : c.Advances x ∧ c'.Advances x' := by
  cases h with
  | ok _ h h' hgain =>
    have hne := List.ne_nil_of_length_pos hgain
    exact ⟨.ok hne h, .ok hne h'⟩
  | error _ h h' => exact ⟨.error h, .error h'⟩

/-- Whether it succeeds or not, a reading has taken the tokens up to where it stopped. -/
theorem takes {m : Phrase α} (h : EndsAlike gain c c' (m c) x') :
    ∃ ts, c.Takes ts (m.after c) := by
  unfold Phrase.after
  generalize m c = x at h
  cases h with
  | ok _ h _ _ => exact ⟨_, h⟩
  | error _ h _ => exact ⟨_, h⟩

/-- What ends alike from the same cursor is the same. -/
theorem eq (h : EndsAlike gain c c x x') : x = x' := by
  cases h with
  | ok halike h h' _ =>
    rw [Cursor.eq_of_tokens (List.append_cancel_left (h.tokens.symm.trans h'.tokens)) halike.behind
      halike.nodeCount]
  | error halike h h' =>
    rw [Cursor.eq_of_tokens (List.append_cancel_left (h.tokens.symm.trans h'.tokens)) halike.behind
      halike.nodeCount]

end EndsAlike

/-- At cursors that look alike, with at most `n` tokens left before the end and the token `next`
first if that is given, both phrases end alike. -/
def Agree (next : Option TokenKind) (n gain : Nat) (m m' : Phrase α) : Prop :=
  ∀ ⦃c c' : Cursor⦄, c.Alike c' → (∀ k ∈ next, c.kind = k) → c.remaining ≤ n →
    EndsAlike gain c c' (m c) (m' c')

namespace Agree

variable {next : Option TokenKind} {k : TokenKind} {n l gain gain' : Nat} {m m' : Phrase α}

/-- With fewer tokens left there is less to agree on. -/
theorem mono (h : Agree next n gain m m') (hl : l ≤ n) : Agree next l gain m m' :=
  fun _ _ hc hk hn => h hc hk (Nat.le_trans hn hl)

/-- No token is asked for, so any two cursors that look alike will do. -/
theorem ends (h : Agree none n gain m m') {c c' : Cursor} (hc : c.Alike c')
    (hn : c.remaining ≤ n) : EndsAlike gain c c' (m c) (m' c') :=
  h hc (fun _ hk => absurd hk (by simp)) hn

/-- What agrees at every token agrees at this one. -/
theorem anywhere (h : Agree none n gain m m') : Agree next n gain m m' :=
  fun _ _ hc _ hn => h.ends hc hn

/-- How many tokens are taken may be left out of account. -/
theorem less (h : Agree next n gain m m') : Agree next n 0 m m' :=
  fun _ _ hc hk hn => (h hc hk hn).after (.none rfl) (.none rfl) (Nat.zero_le _)

theorem pure (a : α) : Agree next n 0 (Pure.pure a) (Pure.pure a) :=
  fun _ _ hc _ _ => .ok hc (.none rfl) (.none rfl) (Nat.zero_le _)

/-- Both give up at once. No gain is missed, as they do not succeed. -/
theorem throw (e : Diagnostic) :
    Agree next n gain (MonadExcept.throw e : Phrase α) (MonadExcept.throw e) :=
  fun _ _ hc _ _ => .error hc (.none rfl) (.none rfl)

/-- One phrase after the other. The second has fewer tokens left, by what the first gains. What
the second gains is left out of account. -/
theorem bind {f f' : α → Phrase β} (hm : Agree next n gain m m')
    (hf : ∀ a l, l + gain ≤ n → Agree none l 0 (f a) (f' a)) :
    Agree next n gain (m >>= f) (m' >>= f') := by
  intro c c' hc hk hn
  have hends := hm hc hk hn
  generalize hx : m c = x at hends
  generalize hx' : m' c' = x' at hends
  cases hends with
  | @ok a d d' ts halike h h' hgain =>
    -- the gain of the first is what the second has less
    have hremaining := h.remaining
    rw [bind_of_ok hx, bind_of_ok hx']
    have hnext := (hf a d.remaining (by omega)).ends halike (Nat.le_refl _)
    exact hnext.after h h' (Nat.le_add_right_of_le hgain)
  | error halike h h' =>
    rw [bind_of_error hx, bind_of_error hx']
    exact .error halike h h'

/-- The same inside of a phrase that has gained already. -/
theorem bind_less {f f' : α → Phrase β} (hm : Agree next n gain m m')
    (hf : ∀ a l, l + gain ≤ n → Agree none l 0 (f a) (f' a)) :
    Agree next n 0 (m >>= f) (m' >>= f') :=
  (bind hm hf).less

/-- Values are changed alike. -/
theorem map (f : α → β) (h : Agree next n gain m m') : Agree next n gain (f <$> m) (f <$> m') := by
  intro c c' hc hk hn
  have hends := h hc hk hn
  simp only [Functor.map, EStateM.map]
  generalize m c = x at hends
  generalize m' c' = x' at hends
  cases hends with
  | ok halike h h' hgain => exact .ok halike h h' hgain
  | error halike h h' => exact .error halike h h'

/-- Where no token is left, both stop. -/
theorem ended {a : α} (h : ∀ c' : Cursor, c'.kind = .eof → m' c' = .ok a c') :
    Agree next 0 0 (Pure.pure a) m' := by
  intro c c' hc _ hn
  have hkind : c'.kind = .eof := by
    rw [← hc.kind]
    exact hc.closed.1.kind_of_remaining (Nat.le_zero.mp hn)
  rw [h c' hkind]
  exact .ok hc (.none rfl) (.none rfl) (Nat.le_refl 0)

/-- A call that goes on may be watched. -/
theorem call (o : Oversight) (h : Agree next n 1 m m') : Agree next n 1 m (o.call m') := by
  intro c c' hc hk hn
  have hends := h hc hk hn
  rw [o.call_eq hends.advances.2]
  exact hends

/-- A choice that does not hang on the cursors. -/
theorem ite {p : Prop} [Decidable p] {l l' : Phrase α} (h : p → Agree next n gain m m')
    (h' : ¬p → Agree next n gain l l') :
    Agree next n gain (if p then m else l) (if p then m' else l') := by
  by_cases hp : p
  · rw [if_pos hp, if_pos hp]
    exact h hp
  · rw [if_neg hp, if_neg hp]
    exact h' hp

/-- A look at the next token shows both the same kind, which is then known. -/
theorem kind {f f' : TokenKind → Phrase α} (h : ∀ k, Agree (some k) n gain (f k) (f' k)) :
    Agree next n gain (Phrase.kind >>= f) (Phrase.kind >>= f') := by
  intro c c' hc _ hn
  rw [kind_bind, kind_bind, ← hc.kind]
  exact h c.kind hc (fun _ hk => Option.some.inj hk) hn

/-- The next token starts at the same place for both. -/
theorem position {f f' : Position → Phrase α} (h : ∀ p, Agree next n gain (f p) (f' p)) :
    Agree next n gain (Phrase.position >>= f) (Phrase.position >>= f') := by
  intro c c' hc hk hn
  show EndsAlike gain c c' (f c.current.span.start c) (f' c'.current.span.start c')
  rw [← hc.current]
  exact h _ hc hk hn

/-- A span ends with the token behind, which is the same for both. -/
theorem spanFrom {start : Position} {f f' : Span → Phrase α}
    (h : ∀ s, Agree next n gain (f s) (f' s)) :
    Agree next n gain (Phrase.spanFrom start >>= f) (Phrase.spanFrom start >>= f') := by
  intro c c' hc hk hn
  show EndsAlike gain c c' (f ⟨start, c.behind⟩ c) (f' ⟨start, c'.behind⟩ c')
  rw [← hc.behind]
  exact h _ hc hk hn

/-- The same identity is handed out by both. -/
theorem freshId {f f' : NodeId → Phrase α} (h : ∀ id, Agree next n gain (f id) (f' id)) :
    Agree next n gain (Phrase.freshId >>= f) (Phrase.freshId >>= f') := by
  intro c c' hc hk hn
  have hid : NodeId.mk c'.nodeCount = ⟨c.nodeCount⟩ := congrArg NodeId.mk hc.nodeCount.symm
  show EndsAlike gain c c' (f ⟨c.nodeCount⟩ { c with nodeCount := c.nodeCount + 1 })
    (f' ⟨c'.nodeCount⟩ { c' with nodeCount := c'.nodeCount + 1 })
  rw [hid]
  exact (h ⟨c.nodeCount⟩ hc.freshId hk hn).after (.none rfl) (.none rfl) (Nat.le_add_left _ _)

/-- Both report the same token. -/
theorem unexpected (hint : String) :
    Agree next n gain (Phrase.unexpected hint : Phrase α) (Phrase.unexpected hint) := by
  intro c c' hc _ _
  show EndsAlike gain c c' (.error (c.unexpected hint) c) (.error (c'.unexpected hint) c')
  rw [Cursor.unexpected, Cursor.unexpected, hc.current]
  exact .error hc (.none rfl) (.none rfl)

/-- A token that does not end the input is taken by both. -/
theorem advance (hk : k ≠ .eof) : Agree (some k) n 1 Phrase.advance Phrase.advance := by
  intro c c' hc hnext _
  have hck : c.kind ≠ .eof := by
    rw [hnext k rfl]
    exact hk
  have htakes := Cursor.takes_advance hc.closed.1 hck
  have htakes' := Cursor.takes_advance hc.closed.2 (hc.kind ▸ hck)
  show EndsAlike 1 c c' (.ok c.current c.advance) (.ok c'.current c'.advance)
  rw [← hc.current] at htakes' ⊢
  exact .ok (hc.advance hck) htakes htakes' (Nat.le_refl 1)

/-- A token of the kind is taken by both, or both give the same reason why not. -/
theorem expectOr {error : Cursor → Diagnostic} (hk : k ≠ .eof)
    (herror : ∀ c c' : Cursor, c.current = c'.current → error c = error c') :
    Agree next n 1 (Phrase.expectOr k error) (Phrase.expectOr k error) := by
  intro c c' hc _ hn
  show EndsAlike 1 c c' ((if c.kind = k then Phrase.advance else MonadExcept.throw (error c) :
    Phrase Token) c) ((if c'.kind = k then Phrase.advance else MonadExcept.throw (error c') :
    Phrase Token) c')
  rw [← hc.kind, herror c c' hc.current]
  have hagree : Agree (some c.kind) n 1
      (if c.kind = k then Phrase.advance else MonadExcept.throw (error c') : Phrase Token)
      (if c.kind = k then Phrase.advance else MonadExcept.throw (error c')) :=
    ite (fun hck => advance (hck ▸ hk)) fun _ => throw _
  exact hagree hc (fun _ hk => Option.some.inj hk) hn

/-- A token of the kind is taken by both, or both report the one in its place. -/
theorem expect (hk : k ≠ .eof) : Agree next n 1 (Phrase.expect k) (Phrase.expect k) :=
  expectOr hk fun _ _ h => congrArg Token.unexpected h

/-- As `expect`, with a hint at what was expected. -/
theorem expectHint (hk : k ≠ .eof) (hint : String) :
    Agree next n 1 (Phrase.expectOr k (·.unexpected hint))
      (Phrase.expectOr k (·.unexpected hint)) := by
  refine expectOr hk fun c c' h => ?_
  rw [Cursor.unexpected, Cursor.unexpected, h]

theorem identifier (place : String) :
    Agree next n 1 (Phrase.identifier place) (Phrase.identifier place) :=
  bind (expectHint (by decide) _) fun _ _ _ => pure _

/-- A node is given its identity and its span. -/
theorem node {mk : NodeId → Span → α} {start : Position} :
    Agree next n 0 (do
      let id ← Phrase.freshId
      return mk id (← Phrase.spanFrom start)) (do
      let id ← Phrase.freshId
      return mk id (← Phrase.spanFrom start)) :=
  freshId fun _ => spanFrom fun _ => pure _

/-- A token is taken before the phrase. -/
theorem seqRight {m m' : Phrase α} (hk : k ≠ .eof)
    (h : ∀ l, l + 1 ≤ n → Agree none l gain m m') :
    Agree (some k) n 1 (Phrase.advance *> m) (Phrase.advance *> m') :=
  bind (advance hk) fun _ l hl => (h l hl).less

end Agree

end CactLang
