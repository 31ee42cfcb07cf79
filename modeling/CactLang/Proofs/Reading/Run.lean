import CactLang.Proofs.Written
import Mathlib.Data.List.Forall2

/-!
# What reading a phrase means

A spelling says how the values of a type are written: their parts, which of them can be
written at all, and which tokens, standing after one, would still be read as part of it.
Two statements tie a phrase to a spelling.

> `S.Reads before m c`: whatever stands at `c`, reading `m` there takes the words of a
> value of `S` and stops where that value cannot go on, or it stops at a token, blames it,
> and what it took is the beginning of a value.

> `S.Tracks m c`: for as long as a value of `S` and what stands at `c` agree, `m` reads on;
> and if they agree to the end of the value, `m` gives that value.

Both are proved of a phrase step by step. `before` is what the steps before have taken.
-/

namespace CactLang

/-! ## Cursors -/

namespace Cursor

variable {c d e : Cursor} {ts us : List Token}

/-- The tokens from the cursor on. -/
def tokens (c : Cursor) : List Token :=
  c.current :: c.ahead

/-- The words from the cursor on. -/
def words (c : Cursor) : List Word :=
  c.tokens.map Token.word

/-- The kind of the current token. -/
def kind (c : Cursor) : TokenKind :=
  c.current.kind

/-- The end of the input stands at the cursor or after it. -/
def Closed (c : Cursor) : Prop :=
  ∃ t ∈ c.tokens, t.kind = .eof

/-- From one cursor to the other the tokens `ts` are taken, none of which ends the
input. -/
structure Takes (c : Cursor) (ts : List Token) (d : Cursor) : Prop where
  tokens : c.tokens = ts ++ d.tokens
  inner : ∀ t ∈ ts, t.kind ≠ .eof

namespace Takes

/-- Between cursors at the same tokens nothing is taken. -/
theorem none (h : d.tokens = c.tokens) : c.Takes [] d :=
  ⟨h.symm, fun _ ht => absurd ht List.not_mem_nil⟩

/-- One stretch of tokens is taken after the other. -/
theorem trans (h₁ : c.Takes ts d) (h₂ : d.Takes us e) : c.Takes (ts ++ us) e := by
  refine ⟨by rw [h₁.tokens, h₂.tokens, List.append_assoc], ?_⟩
  intro t ht
  rcases List.mem_append.mp ht with ht | ht
  · exact h₁.inner t ht
  · exact h₂.inner t ht

/-- An end of the input is not taken, so it still stands ahead. -/
theorem closed (h : c.Takes ts d) (hc : c.Closed) : d.Closed := by
  obtain ⟨t, ht, hk⟩ := hc
  rw [h.tokens] at ht
  rcases List.mem_append.mp ht with ht | ht
  · exact absurd hk (h.inner t ht)
  · exact ⟨t, ht, hk⟩

/-- What is taken is missing from what stands ahead. -/
theorem length (h : c.Takes ts d) : d.ahead.length + ts.length = c.ahead.length := by
  have hlength := congrArg List.length h.tokens
  simp only [Cursor.tokens, List.length_append, List.length_cons] at hlength
  omega

/-- The words that were there are those that were taken and those that are left. -/
theorem words (h : c.Takes ts d) : c.words = ts.map Token.word ++ d.words := by
  unfold Cursor.words
  rw [h.tokens, List.map_append]

end Takes

/-- Before the end of the input, something stands ahead. -/
theorem Closed.ahead_ne_nil (hc : c.Closed) (hk : c.kind ≠ .eof) : c.ahead ≠ [] := by
  intro hnil
  obtain ⟨t, ht, htk⟩ := hc
  rw [tokens, hnil, List.mem_singleton] at ht
  rw [ht] at htk
  exact hk htk

/-- Where nothing stands ahead, the input ends. -/
theorem Closed.kind_eq_eof (hc : c.Closed) (h : c.ahead.length = 0) : c.kind = .eof := by
  by_contra hk
  exact hc.ahead_ne_nil hk (List.length_eq_zero_iff.mp h)

/-- Going on takes the current token, unless it ends the input. -/
theorem takes_advance (hc : c.Closed) (hk : c.kind ≠ .eof) : c.Takes [c.current] c.advance := by
  have hne := hc.ahead_ne_nil hk
  refine ⟨?_, fun t ht => by rw [List.mem_singleton.mp ht]; exact hk⟩
  unfold Cursor.tokens Cursor.advance
  cases hahead : c.ahead with
  | nil => exact absurd hahead hne
  | cons next ahead => rfl

/-- The input still ends after a token before its end. -/
theorem Closed.advance (hc : c.Closed) (hk : c.kind ≠ .eof) : c.advance.Closed :=
  (takes_advance hc hk).closed hc

/-- The diagnostic says that the current token is out of place. -/
def Blames (c : Cursor) (e : Diagnostic) : Prop :=
  e = c.current.unexpected ∨ ∃ hint, e = c.unexpected hint

/-- Whatever is said about the current token is said where it starts. -/
theorem Blames.position {e : Diagnostic} (h : c.Blames e) :
    e.position = c.current.span.start := by
  rcases h with rfl | ⟨hint, rfl⟩
  · rfl
  · rfl

/-- The word of a token is of the token's kind. -/
theorem word_kind (c : Cursor) : c.current.word.kind = c.kind :=
  rfl

end Cursor

namespace Phrase

variable {α β : Type} {m : Phrase α} {f : α → Phrase β} {c d : Cursor}

/-- A phrase that succeeds hands its value and its cursor to the next one. -/
theorem bind_of_ok {a : α} (h : m c = .ok a d) : (m >>= f) c = f a d := by
  simp only [Bind.bind, EStateM.bind, h]

/-- A phrase that fails keeps the next one from being read. -/
theorem bind_of_error {e : Diagnostic} (h : m c = .error e d) : (m >>= f) c = .error e d := by
  simp only [Bind.bind, EStateM.bind, h]

theorem kind_bind (f : TokenKind → Phrase β) : (kind >>= f) c = f c.kind c :=
  rfl

theorem advance_bind (f : Token → Phrase β) : (advance >>= f) c = f c.current c.advance :=
  rfl

section

variable {k : TokenKind} {error : Cursor → Diagnostic} {f : Token → Phrase β}

/-- A token that is asked for is taken. -/
theorem expectOr_bind_of_eq (h : c.kind = k) :
    (expectOr k error >>= f) c = (advance >>= f) c := by
  have hrun : expectOr k error c = .ok c.current c.advance := by
    rw [expectOr, bind_of_ok (show (get : Phrase Cursor) c = .ok c c from rfl),
      if_pos (show c.current.kind = k from h)]
    rfl
  rw [bind_of_ok hrun, advance_bind]

/-- Where another token stands, the reason is given and nothing is taken. -/
theorem expectOr_bind_of_ne (h : c.kind ≠ k) :
    (expectOr k error >>= f) c = .error (error c) c := by
  refine bind_of_error ?_
  rw [expectOr, bind_of_ok (show (get : Phrase Cursor) c = .ok c c from rfl),
    if_neg (show c.current.kind ≠ k from h)]
  rfl

end

end Phrase

/-! ## Spellings -/

/-- How the values of a type are written. -/
structure Spelling (α : Type) where
  /-- A value written out. -/
  parts : α → List Part
  /-- The values that are read as they are written. -/
  Proper : α → Prop
  /-- A token of the kind, standing after the value, would be read as part of it. -/
  GoesOn : α → TokenKind → Prop
  /-- The first value is the second one as it is read. -/
  IsRead : α → α → Prop

namespace Spelling

variable {α β : Type} {S : Spelling α} {T : Spelling β} {before ws : List Word} {c : Cursor}

/-- The value can be read from the words. -/
def Spells (S : Spelling α) (a : α) (ws : List Word) : Prop :=
  S.Proper a ∧ Spelled (S.parts a) ws

/-- The words are the beginning of a value. -/
def Viable (S : Spelling α) (ws : List Word) : Prop :=
  ∃ a v, S.Spells a (ws ++ v)

/-- A whole value is a beginning of one. -/
theorem Spells.viable {a : α} (h : S.Spells a ws) : S.Viable ws :=
  ⟨a, [], by rw [List.append_nil]; exact h⟩

/-! ## Reading what stands there -/

/-- How reading can end that has taken the words `before` when it is at `c`. -/
def Ends (S : Spelling α) (before : List Word) (c : Cursor) :
    EStateM.Result Diagnostic Cursor α → Prop
  | .ok a d => ∃ ts, c.Takes ts d ∧ S.Spells a (before ++ ts.map Token.word) ∧
      ¬S.GoesOn a d.kind
  | .error e d => ∃ ts, c.Takes ts d ∧ d.Blames e ∧ S.Viable (before ++ ts.map Token.word)

/-- Reading `m` at `c`, after the words `before`, gives a value of the spelling or stops at
the first token that cannot belong to one. -/
def Reads (S : Spelling α) (before : List Word) (m : Phrase α) (c : Cursor) : Prop :=
  S.Ends before c (m c)

/-- A value was read from the words `ws`, which go from the cursor `c` up to `d`. -/
structure Got (S : Spelling α) (c : Cursor) (a : α) (ws : List Word) (d : Cursor) : Prop where
  spells : S.Spells a ws
  stops : ¬S.GoesOn a d.kind
  closed : d.Closed
  words : c.words = ws ++ d.words

/-- A value has taken as many tokens as it has words. -/
theorem Got.length {a : α} {d : Cursor} (h : S.Got c a ws d) :
    d.ahead.length + ws.length = c.ahead.length := by
  have hlength := congrArg List.length h.words
  simp only [Cursor.words, Cursor.tokens, List.length_append, List.length_map,
    List.length_cons] at hlength
  omega

/-- Where a value takes no words, the cursor stays. -/
theorem Got.kind_eq {a : α} {d : Cursor} (h : S.Got c a [] d) : d.kind = c.kind :=
  congrArg Word.kind (List.cons.inj h.words).1.symm

/-- What ends well from a later cursor ends well from an earlier one. -/
theorem Ends.of_takes {d : Cursor} {ts : List Token} {r : EStateM.Result Diagnostic Cursor α}
    (hd : c.Takes ts d) (h : S.Ends (before ++ ts.map Token.word) d r) : S.Ends before c r := by
  cases r with
  | ok a e =>
    obtain ⟨us, he, hspells, hstops⟩ := h
    rw [List.append_assoc, ← List.map_append] at hspells
    exact ⟨ts ++ us, hd.trans he, hspells, hstops⟩
  | error e e' =>
    obtain ⟨us, he, hblames, hviable⟩ := h
    rw [List.append_assoc, ← List.map_append] at hviable
    exact ⟨ts ++ us, hd.trans he, hblames, hviable⟩

namespace Reads

/-- The words that were taken are a value, and the next token does not go on with it. -/
theorem pure {a : α} (h : S.Spells a before) (hstops : ¬S.GoesOn a c.kind) :
    S.Reads before (Pure.pure a) c :=
  ⟨[], .none rfl, by rw [List.map_nil, List.append_nil]; exact h, hstops⟩

/-- What a phrase does at a cursor is all that counts. -/
theorem congr {m m' : Phrase α} (h : m c = m' c) (hm : S.Reads before m' c) :
    S.Reads before m c := by
  unfold Reads at hm ⊢
  rw [h]
  exact hm

/-- The current token is blamed, after words that begin a value. -/
theorem unexpected {hint : String} (h : S.Viable before) :
    S.Reads before (Phrase.unexpected hint) c :=
  ⟨[], .none rfl, Or.inr ⟨hint, rfl⟩, by rw [List.map_nil, List.append_nil]; exact h⟩

/-- A token is taken, and its word with it. -/
theorem advance {f : Token → Phrase α} (hc : c.Closed) (hk : c.kind ≠ .eof)
    (h : c.advance.Closed → S.Reads (before ++ [c.current.word]) (f c.current) c.advance) :
    S.Reads before (Phrase.advance >>= f) c := by
  have htakes := Cursor.takes_advance hc hk
  exact Ends.of_takes htakes (h (htakes.closed hc))

/-- A token that is asked for is there, or it is blamed for not being there. -/
theorem expectOr {k : TokenKind} {error : Cursor → Diagnostic} {f : Token → Phrase α}
    (hc : c.Closed) (hk : k ≠ .eof) (herror : c.Blames (error c)) (hviable : S.Viable before)
    (h : c.kind = k → c.advance.Closed →
      S.Reads (before ++ [c.current.word]) (f c.current) c.advance) :
    S.Reads before (Phrase.expectOr k error >>= f) c := by
  by_cases hck : c.kind = k
  · have htakes := Cursor.takes_advance hc (by rw [hck]; exact hk)
    unfold Reads
    rw [Phrase.expectOr_bind_of_eq hck, Phrase.advance_bind]
    exact Ends.of_takes htakes (h hck (htakes.closed hc))
  · unfold Reads
    rw [Phrase.expectOr_bind_of_ne hck]
    exact ⟨[], .none rfl, herror, by rw [List.map_nil, List.append_nil]; exact hviable⟩

/-- A token that has no text of its own is asked for. -/
theorem expect {k : TokenKind} {f : Token → Phrase α} (hc : c.Closed) (hk : k ≠ .eof)
    (htext : k.hasText = false) (hviable : S.Viable before)
    (h : c.advance.Closed → S.Reads (before ++ [Word.plain k]) (f c.current) c.advance) :
    S.Reads before (Phrase.expect k >>= f) c := by
  refine expectOr hc hk (Or.inl rfl) hviable fun hck hc₁ => ?_
  rw [Token.word_eq_plain hck htext]
  exact h hc₁

/-- Handing out an identity takes no token. -/
theorem freshId {f : NodeId → Phrase α}
    (h : S.Reads before (f ⟨c.nodeCount⟩) { c with nodeCount := c.nodeCount + 1 }) :
    S.Reads before (Phrase.freshId >>= f) c :=
  Ends.of_takes (d := { c with nodeCount := c.nodeCount + 1 }) (.none rfl)
    (by rw [List.map_nil, List.append_nil]; exact h)

/-- A node is given its identity and its span. -/
theorem node {mk : NodeId → Span → α} {start : Position}
    (h : ∀ id span, S.Spells (mk id span) before)
    (hstops : ∀ id span, ¬S.GoesOn (mk id span) c.kind) :
    S.Reads before (do
      let id ← Phrase.freshId
      return mk id (← Phrase.spanFrom start)) c :=
  freshId (pure (h _ _) (hstops _ _))

/-- One phrase after the other. Where the first one fails, a value of the whole begins with
any value of the first. -/
theorem bind {m : Phrase α} {f : α → Phrase β} (hc : c.Closed) (hm : S.Reads [] m c)
    (hviable : ∀ a ws, S.Spells a ws → T.Viable (before ++ ws))
    (hok : ∀ a ws d, S.Got c a ws d → T.Reads (before ++ ws) (f a) d) :
    T.Reads before (m >>= f) c := by
  unfold Reads at hm ⊢
  cases hmc : m c with
  | ok a d =>
    rw [hmc] at hm
    obtain ⟨ts, hd, hspells, hstops⟩ := hm
    rw [List.nil_append] at hspells
    rw [Phrase.bind_of_ok hmc]
    exact Ends.of_takes hd (hok a _ d ⟨hspells, hstops, hd.closed hc, hd.words⟩)
  | error e d =>
    rw [hmc] at hm
    obtain ⟨ts, hd, hblames, a, v, hspells⟩ := hm
    rw [List.nil_append] at hspells
    -- `v` completes the first value, and `u` the whole after it
    obtain ⟨b, u, hb⟩ := hviable a _ hspells
    rw [Phrase.bind_of_error hmc]
    refine ⟨ts, hd, hblames, b, v ++ u, ?_⟩
    simpa only [List.append_assoc] using hb

/-- The same value under another spelling, or wrapped up. -/
theorem map {m : Phrase α} {f : α → β} (hm : S.Reads [] m c)
    (hspells : ∀ a ws, S.Spells a ws → T.Spells (f a) ws)
    (hstops : ∀ a k, T.GoesOn (f a) k → S.GoesOn a k) : T.Reads [] (f <$> m) c := by
  unfold Reads at hm ⊢
  simp only [Functor.map, EStateM.map]
  cases hmc : m c with
  | ok a d =>
    rw [hmc] at hm
    obtain ⟨ts, hd, hs, hg⟩ := hm
    exact ⟨ts, hd, hspells a _ hs, fun hk => hg (hstops a _ hk)⟩
  | error e d =>
    rw [hmc] at hm
    obtain ⟨ts, hd, hblames, a, v, hs⟩ := hm
    exact ⟨ts, hd, hblames, f a, v, hspells a _ hs⟩

/-- A look at the next token takes none. -/
theorem kind {f : TokenKind → Phrase α} (h : S.Reads before (f c.kind) c) :
    S.Reads before (Phrase.kind >>= f) c :=
  h

theorem position {f : Position → Phrase α} (h : ∀ start, S.Reads before (f start) c) :
    S.Reads before (Phrase.position >>= f) c :=
  h _

theorem spanFrom {start : Position} {f : Span → Phrase α}
    (h : ∀ span, S.Reads before (f span) c) :
    S.Reads before (Phrase.spanFrom start >>= f) c :=
  h _

end Reads

end Spelling

/-! ## Never going back -/

namespace Phrase

variable {α β : Type}

/-- The cursor where reading stopped. -/
def after (m : Phrase α) (c : Cursor) : Cursor :=
  match m c with
  | .ok _ d => d
  | .error _ d => d

theorem after_congr {m m' : Phrase α} {c : Cursor} (h : m c = m' c) : m.after c = m'.after c := by
  unfold after
  rw [h]

/-- A phrase stops where it stops, whatever is made of its value. -/
theorem after_map (m : Phrase α) (f : α → β) (c : Cursor) : (f <$> m).after c = m.after c := by
  unfold after
  simp only [Functor.map, EStateM.map]
  cases m c <;> rfl

/-- Reading does not go back. -/
class Forward (m : Phrase α) : Prop where
  le : ∀ c, (m.after c).ahead.length ≤ c.ahead.length

instance (a : α) : Forward (pure a : Phrase α) :=
  ⟨fun _ => Nat.le_refl _⟩

instance (e : Diagnostic) : Forward (throw e : Phrase α) :=
  ⟨fun _ => Nat.le_refl _⟩

instance : Forward (get : Phrase Cursor) :=
  ⟨fun _ => Nat.le_refl _⟩

instance : Forward kind :=
  ⟨fun _ => Nat.le_refl _⟩

instance : Forward position :=
  ⟨fun _ => Nat.le_refl _⟩

instance (start : Position) : Forward (spanFrom start) :=
  ⟨fun _ => Nat.le_refl _⟩

instance : Forward freshId :=
  ⟨fun _ => Nat.le_refl _⟩

instance (hint : String) : Forward (unexpected hint : Phrase α) :=
  ⟨fun _ => Nat.le_refl _⟩

instance : Forward advance := by
  refine ⟨fun c => ?_⟩
  show c.advance.ahead.length ≤ c.ahead.length
  unfold Cursor.advance
  cases hahead : c.ahead with
  | nil => exact Nat.le_of_eq (congrArg List.length hahead)
  | cons next ahead => exact Nat.le_succ _

/-- Two phrases that do not go back do not go back one after the other. -/
theorem Forward.bind {m : Phrase α} {f : α → Phrase β} (hm : Forward m)
    (hf : ∀ a, Forward (f a)) : Forward (m >>= f) := by
  refine ⟨fun c => ?_⟩
  have hle := hm.le c
  unfold after at hle ⊢
  cases hmc : m c with
  | ok a d =>
    rw [hmc] at hle
    have hrest := (hf a).le d
    unfold after at hrest
    rw [bind_of_ok hmc]
    exact Nat.le_trans hrest hle
  | error e d =>
    rw [hmc] at hle
    rw [bind_of_error hmc]
    exact hle

instance (m : Phrase α) (f : α → Phrase β) [hm : Forward m] [hf : ∀ a, Forward (f a)] :
    Forward (m >>= f) :=
  hm.bind hf

instance (m : Phrase α) (f : α → β) [hm : Forward m] : Forward (f <$> m) := by
  refine ⟨fun c => ?_⟩
  have hle := hm.le c
  unfold after at hle ⊢
  simp only [Functor.map, EStateM.map]
  cases hmc : m c with
  | ok a d =>
    rw [hmc] at hle
    exact hle
  | error e d =>
    rw [hmc] at hle
    exact hle

instance (p : Prop) [Decidable p] (m m' : Phrase α) [hm : Forward m] [hm' : Forward m'] :
    Forward (if p then m else m') := by
  by_cases hp : p
  · rw [if_pos hp]
    exact hm
  · rw [if_neg hp]
    exact hm'

instance (m : Phrase β) [hm : Forward m] : Forward (advance *> m) := by
  refine ⟨fun c => ?_⟩
  exact Nat.le_trans (hm.le c.advance) (Forward.le (m := advance) c)

instance (k : TokenKind) (error : Cursor → Diagnostic) : Forward (expectOr k error) := by
  unfold expectOr
  infer_instance

instance (k : TokenKind) : Forward (expect k) := by
  unfold expect
  infer_instance

/-! ## Reading along a value -/

/-- For as many words as the text at `c` agrees with `ws ++ r`, the phrase reads on; if that
is more than `ws`, it takes `ws` and gives a value with the property. -/
def Follows (m : Phrase α) (c : Cursor) (ws r : List Word) (Q : α → Prop) : Prop :=
  ∀ n, c.words.take n = (ws ++ r).take n →
    (∃ a d ts, m c = .ok a d ∧ Q a ∧ c.Takes ts d ∧ ts.map Token.word = ws) ∨
      (n ≤ ws.length ∧ (m.after c).ahead.length + n ≤ c.ahead.length)

namespace Follows

variable {c : Cursor} {ws ws₁ ws₂ r u : List Word} {w : Word} {P : α → Prop} {Q : β → Prop}

/-- No words are expected, and none are taken. -/
theorem pure {a : α} (ha : P a) : Follows (Pure.pure a) c [] r P :=
  fun _ _ => Or.inl ⟨a, c, [], rfl, ha, .none rfl, rfl⟩

/-- What a phrase does at a cursor is all that counts. -/
theorem congr {m m' : Phrase α} (h : m c = m' c) (hm : Follows m' c ws r P) :
    Follows m c ws r P := by
  unfold Follows at hm ⊢
  rw [after_congr h, h]
  exact hm

theorem kind {f : TokenKind → Phrase α} (h : Follows (f c.kind) c ws r P) :
    Follows (Phrase.kind >>= f) c ws r P :=
  h

theorem position {f : Position → Phrase α} (h : ∀ start, Follows (f start) c ws r P) :
    Follows (Phrase.position >>= f) c ws r P :=
  h _

theorem spanFrom {start : Position} {f : Span → Phrase α}
    (h : ∀ span, Follows (f span) c ws r P) : Follows (Phrase.spanFrom start >>= f) c ws r P :=
  h _

/-- It is enough to look at texts that start as they should. -/
theorem of_head {m : Phrase α} [hm : Forward m] (hw : ws ++ r = w :: u)
    (h : c.current.word = w → Follows m c ws r P) : Follows m c ws r P := by
  intro n hn
  cases n with
  | zero => exact Or.inr ⟨Nat.zero_le _, hm.le c⟩
  | succ n =>
    have hhead : c.current.word = w := by
      rw [hw] at hn
      exact (List.cons.inj hn).1
    exact h hhead (n + 1) hn

/-- A phrase that looks at the current token goes on as for the first word. -/
theorem look {m : Phrase α} [Forward m] {f : TokenKind → Phrase α} (hm : m = Phrase.kind >>= f)
    (hw : ws ++ r = w :: u) (h : Follows (f w.kind) c ws r P) : Follows m c ws r P := by
  refine .of_head hw fun hhead => ?_
  rw [hm]
  refine .kind ?_
  rw [show c.kind = w.kind from congrArg Word.kind hhead]
  exact h

/-- The case of a first word that has no text of its own. -/
theorem look_plain {m : Phrase α} [Forward m] {f : TokenKind → Phrase α} {k : TokenKind}
    (hm : m = Phrase.kind >>= f) (h : Follows (f k) c (.plain k :: ws) r P) :
    Follows m c (.plain k :: ws) r P :=
  look hm rfl h

/-- What comes after the words two texts have in common. -/
theorem take_append_cancel {xs ys zs : List Word} {n : Nat}
    (h : (xs ++ ys).take n = (xs ++ zs).take n) :
    ys.take (n - xs.length) = zs.take (n - xs.length) := by
  rw [List.take_append, List.take_append] at h
  exact List.append_cancel_left h

/-- The words of one phrase, then those of the other. -/
theorem bind {m : Phrase α} {f : α → Phrase β} [hf : ∀ a, Forward (f a)] (hc : c.Closed)
    (hm : Follows m c ws₁ (ws₂ ++ r) P)
    (hok : ∀ a d, P a → d.Closed → d.ahead.length + ws₁.length = c.ahead.length →
      Follows (f a) d ws₂ r Q) : Follows (m >>= f) c (ws₁ ++ ws₂) r Q := by
  intro n hn
  rw [List.append_assoc] at hn
  -- the first phrase is through and the second one follows what is left of the agreement,
  -- or it was still reading where the agreement ends, and the second one does not go back
  rcases hm n hn with ⟨a, d, ts, hmc, ha, hd, rfl⟩ | ⟨hle, hreach⟩
  · have hlength : d.ahead.length + (ts.map Token.word).length = c.ahead.length := by
      rw [List.length_map]
      exact hd.length
    rw [hd.words] at hn
    rw [after, bind_of_ok hmc]
    rcases hok a d ha (hd.closed hc) hlength _ (take_append_cancel hn) with
      ⟨b, e, us, hfd, hb, he, rfl⟩ | ⟨hle', hreach'⟩
    · exact Or.inl ⟨b, e, ts ++ us, hfd, hb, hd.trans he, List.map_append⟩
    · refine Or.inr ⟨by rw [List.length_append]; omega, ?_⟩
      unfold after at hreach'
      omega
  · refine Or.inr ⟨by rw [List.length_append]; omega, ?_⟩
    refine Nat.le_trans (Nat.add_le_add_right ?_ n) hreach
    unfold after
    cases hmc : m c with
    | ok a d =>
      rw [bind_of_ok hmc]
      exact (hf a).le d
    | error e d =>
      refine Nat.le_of_eq ?_
      rw [bind_of_error hmc]

/-- The last step takes nothing. -/
theorem bind_last {m : Phrase α} {f : α → Phrase β} [∀ a, Forward (f a)] (hc : c.Closed)
    (hm : Follows m c ws r P) (hok : ∀ a d, P a → d.Closed → Follows (f a) d [] r Q) :
    Follows (m >>= f) c ws r Q := by
  have h : Follows (m >>= f) c (ws ++ []) r Q := bind hc hm fun a d ha hd _ => hok a d ha hd
  rw [List.append_nil] at h
  exact h

/-- What is made of the value does not matter to how far the text is followed. -/
theorem map {m : Phrase α} {f : α → β} (hm : Follows m c ws r P) (hf : ∀ a, P a → Q (f a)) :
    Follows (f <$> m) c ws r Q := by
  intro n hn
  rcases hm n hn with ⟨a, d, ts, hmc, ha, hd, hts⟩ | ⟨hle, hreach⟩
  · refine Or.inl ⟨f a, d, ts, ?_, hf a ha, hd, hts⟩
    simp only [Functor.map, EStateM.map, hmc]
  · rw [after_map]
    exact Or.inr ⟨hle, hreach⟩

/-- A phrase that follows a text reads on for as long as what stands there agrees with it. -/
theorem reaches {m : Phrase α} (hm : Follows m c ws r P) {n : Nat} (hle : n ≤ ws.length)
    (hn : c.words.take n = (ws ++ r).take n) :
    (m.after c).ahead.length + n ≤ c.ahead.length := by
  rcases hm n hn with ⟨a, d, ts, hmc, _, hd, rfl⟩ | ⟨_, hreach⟩
  · have hlength := hd.length
    rw [List.length_map] at hle
    rw [after, hmc]
    show d.ahead.length + n ≤ c.ahead.length
    omega
  · exact hreach

/-- One token is taken. -/
theorem step {m : Phrase β} {f : Token → Phrase β} (hc : c.Closed) (hw : w.kind ≠ .eof)
    (hrun : c.kind = w.kind → m c = f c.current c.advance)
    (hle : (m.after c).ahead.length ≤ c.ahead.length)
    (h : c.current.word = w → c.advance.Closed →
      c.advance.ahead.length + 1 = c.ahead.length → Follows (f c.current) c.advance ws r Q) :
    Follows m c (w :: ws) r Q := by
  intro n hn
  cases n with
  -- nothing of the words is shared, so it is enough not to go back
  | zero => exact Or.inr ⟨Nat.zero_le _, hle⟩
  | succ n =>
    have hhead : c.current.word = w := (List.cons.inj hn).1
    have hkind : c.kind = w.kind := congrArg Word.kind hhead
    have htakes := Cursor.takes_advance hc (by rw [hkind]; exact hw)
    -- the first word is the current token, and the rest is shared by what follows
    have hwords : c.words = w :: c.advance.words := by
      rw [htakes.words, ← hhead]
      rfl
    rw [hwords] at hn
    have hrest : c.advance.words.take n = (ws ++ r).take n := (List.cons.inj hn).2
    rw [after, hrun hkind]
    rcases h hhead (htakes.closed hc) htakes.length n hrest with
      ⟨b, d, ts, hfd, hb, hd, rfl⟩ | ⟨hn', hreach⟩
    · refine Or.inl ⟨b, d, c.current :: ts, hfd, hb, htakes.trans hd, ?_⟩
      rw [List.map_cons, hhead]
    · refine Or.inr ⟨Nat.succ_le_succ hn', ?_⟩
      have hlength := htakes.length
      unfold after at hreach
      rw [List.length_singleton] at hlength
      omega

/-- The first word is taken, whatever it is. -/
theorem advance {f : Token → Phrase β} [∀ t, Forward (f t)] (hc : c.Closed)
    (hw : w.kind ≠ .eof)
    (h : c.current.word = w → c.advance.Closed →
      c.advance.ahead.length + 1 = c.ahead.length → Follows (f c.current) c.advance ws r Q) :
    Follows (Phrase.advance >>= f) c (w :: ws) r Q :=
  step hc hw (fun _ => rfl) (Forward.le c) h

/-- The first word is of the kind that is asked for. -/
theorem expectOr {k : TokenKind} {error : Cursor → Diagnostic} {f : Token → Phrase β}
    [∀ t, Forward (f t)] (hc : c.Closed) (hw : w.kind = k) (hk : k ≠ .eof)
    (h : c.current.word = w → c.advance.Closed →
      c.advance.ahead.length + 1 = c.ahead.length → Follows (f c.current) c.advance ws r Q) :
    Follows (Phrase.expectOr k error >>= f) c (w :: ws) r Q := by
  refine step hc (by rw [hw]; exact hk) (fun hkind => ?_) (Forward.le c) h
  exact Phrase.expectOr_bind_of_eq (hkind.trans hw)

/-- The first word is the one that is asked for. -/
theorem expect {k : TokenKind} {f : Token → Phrase β} [∀ t, Forward (f t)] (hc : c.Closed)
    (hk : k ≠ .eof)
    (h : c.advance.Closed → c.advance.ahead.length + 1 = c.ahead.length →
      Follows (f c.current) c.advance ws r Q) :
    Follows (Phrase.expect k >>= f) c (.plain k :: ws) r Q :=
  expectOr hc rfl hk fun _ => h

/-- Handing out an identity takes no word. -/
theorem freshId {f : NodeId → Phrase α}
    (h : Follows (f ⟨c.nodeCount⟩) { c with nodeCount := c.nodeCount + 1 } ws r P) :
    Follows (Phrase.freshId >>= f) c ws r P := by
  intro n hn
  rcases h n hn with ⟨a, d, ts, hrun, ha, hd, hts⟩ | hreach
  · exact Or.inl ⟨a, d, ts, hrun, ha, ⟨hd.tokens, hd.inner⟩, hts⟩
  · exact Or.inr hreach

/-- A node is given its identity and its span. -/
theorem node {mk : NodeId → Span → α} {start : Position} (h : ∀ id span, P (mk id span)) :
    Follows (do
      let id ← Phrase.freshId
      return mk id (← Phrase.spanFrom start)) c [] r P :=
  freshId (pure (h _ _))

end Follows

end Phrase

namespace Spelling

variable {α : Type}

/-- What comes after a value does not go on with it. -/
def Stops (S : Spelling α) (a : α) (r : List Word) : Prop :=
  ∃ w u, r = w :: u ∧ ¬S.GoesOn a w.kind

/-- A value that nothing goes on with ends before anything. -/
theorem stops_of_never {S : Spelling α} {a : α} (h : ∀ k, ¬S.GoesOn a k) (v : List Word)
    (w : Word) (u : List Word) : S.Stops a (v ++ w :: u) := by
  cases v with
  | nil => exact ⟨w, u, rfl, h w.kind⟩
  | cons w' v => exact ⟨w', v ++ w :: u, rfl, h w'.kind⟩

/-- At `c` the phrase follows every value of the spelling. -/
def Tracks (S : Spelling α) (m : Phrase α) (c : Cursor) : Prop :=
  ∀ a ws r, S.Spells a ws → S.Stops a r → m.Follows c ws r (S.IsRead · a)

theorem Tracks.congr {S : Spelling α} {m m' : Phrase α} {c : Cursor} (h : m c = m' c)
    (hm : S.Tracks m' c) : S.Tracks m c :=
  fun a ws r hws hr => .congr h (hm a ws r hws hr)

end Spelling

end CactLang
