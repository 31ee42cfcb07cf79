import CactLang.Proofs.Guarded.Scanning
import CactLang.Proofs.Reading.Run

/-!
# Reading by place

A tape holds all tokens of the input, the place of the next one and the count of identities
handed out. A machine gets at tokens by their places only, and faults at a place that is not
on the tape, at a place that no 64-bit word holds, and when identities go beyond 32 bits.

A `Reader` of a phrase is a machine together with the proof that it does what the phrase does:
it ends with the same value or diagnostic at the same token, and does not fault. Readers are put
together as phrases are, so the machine of a phrase is made of the few that are given here.

Identities are paid for. A token that is taken pays for three, and what is left over is in the
type of a reader: `Reader next before after m` starts with `before` of them and leaves `after`.
-/

namespace CactLang

/-! ## Machines -/

/-- The tokens of an input, the place of the next one, and the identities handed out. -/
structure Tape where
  tokens : List Token
  file : String
  place : Nat
  nodeCount : Nat

/-- Why a machine stops. -/
inductive Halt where
  | diagnostic (d : Diagnostic)
  | fault

/-- A program on a tape. -/
abbrev Machine (α : Type) := EStateM Halt Tape α

namespace Machine

variable {α β : Type}

/-- Stops at something that is out of range. -/
def fault : Machine α :=
  throw .fault

/-- The sum, if a word holds it. -/
def add (m n : Nat) : Machine Nat :=
  (sum64? m n).elim fault pure

/-- The place of the next token. -/
def place : Machine Nat :=
  fun t => .ok t.place t

/-- The last place of the tape. -/
def last : Machine Nat :=
  fun t => match t.tokens.length with
  | 0 => fault t
  | n + 1 => .ok n t

/-- The token at a place of the tape. -/
def tokenAt (place : Nat) : Machine Token :=
  fun t => match t.tokens[place]? with
  | some token => .ok token t
  | none => fault t

/-- The next token, or else the last one. -/
def current : Machine Token := do
  tokenAt (min (← place) (← last))

/-- The token some places ahead, or else the last one. -/
def peek (places : Nat) : Machine Token := do
  let there ← add (← place) places
  tokenAt (min there (← last))

/-- Takes the next token. The place moves on, unless it is the last one. -/
def advance : Machine Token := do
  let here ← place
  let last ← last
  let token ← tokenAt (min here last)
  if here < last then
    let next ← add here 1
    modify ({ · with place := next })
  return token

/-- The end of the token before the next one. -/
def behind : Machine Position := do
  match ← place with
  | 0 => return ⟨0, (← get).file⟩
  | before + 1 => return (← tokenAt before).span.stop

/-- Hands out the next identity, if it has 32 bits. -/
def freshId : Machine NodeId := do
  let count := (← get).nodeCount
  if count + 1 < 2 ^ 32 then
    modify ({ · with nodeCount := count + 1 })
    return ⟨count⟩
  else
    fault

/-- How many tokens stand after the next one. This only bounds repetitions. -/
def left : Machine Nat := do
  return (← last) - (← place)

/-- A machine that goes through hands its value and its tape on. -/
theorem bind_ok {x : Machine α} {f : α → Machine β} {t u : Tape} {a : α} (h : x t = .ok a u) :
    (x >>= f) t = f a u := by
  simp only [Bind.bind, EStateM.bind, h]

/-- A machine that stops keeps the next one from running. -/
theorem bind_error {x : Machine α} {f : α → Machine β} {t u : Tape} {e : Halt}
    (h : x t = .error e u) : (x >>= f) t = .error e u := by
  simp only [Bind.bind, EStateM.bind, h]

theorem place_bind (f : Nat → Machine β) (t : Tape) : (place >>= f) t = f t.place t :=
  rfl

theorem get_bind (f : Tape → Machine β) (t : Tape) : (get >>= f) t = f t t :=
  rfl

theorem add_of_lt {m n : Nat} (h : m + n < 2 ^ 64) : add m n = pure (m + n) := by
  rw [add, sum64?_of_lt h]
  rfl

theorem tokenAt_of_some {t : Tape} {place : Nat} {token : Token}
    (h : t.tokens[place]? = some token) : tokenAt place t = .ok token t := by
  rw [tokenAt, h]

end Machine

/-! ## What a tape shows -/

/-- The tape shows a cursor: from the place on it has the tokens of the cursor, and the token
before the place ends where the cursor says. -/
structure Tape.Shows (t : Tape) (c : Cursor) : Prop where
  small : t.tokens.length < 2 ^ 32
  tokens : t.tokens.drop t.place = c.tokens
  start : t.place = 0 → c.behind = ⟨0, t.file⟩
  inner : ∀ before, t.place = before + 1 →
    ∃ token, t.tokens[before]? = some token ∧ c.behind = token.span.stop
  nodeCount : t.nodeCount = c.nodeCount

namespace Tape.Shows

variable {t : Tape} {c : Cursor}

/-- The tape has the tokens before its place, the current one and those ahead. -/
theorem length (h : t.Shows c) : t.tokens.length = t.place + c.ahead.length + 1 := by
  have hlength := congrArg List.length h.tokens
  rw [List.length_drop, Cursor.tokens, List.length_cons] at hlength
  omega

/-- Places from the current one on are those of the cursor. -/
theorem getElem? (h : t.Shows c) (places : Nat) :
    t.tokens[t.place + places]? = c.tokens[places]? := by
  rw [← h.tokens, List.getElem?_drop]

/-- The last place is as far ahead as there are tokens. -/
theorem last (h : t.Shows c) : Machine.last t = .ok (t.place + c.ahead.length) t := by
  rw [Machine.last, h.length]

theorem left (h : t.Shows c) : Machine.left t = .ok c.ahead.length t := by
  rw [Machine.left, Machine.bind_ok h.last, Machine.place_bind, Nat.add_sub_cancel_left]
  rfl

/-- The token at the place, which is not past the last one. -/
theorem tokenAt (h : t.Shows c) :
    Machine.tokenAt (min t.place (t.place + c.ahead.length)) t = .ok c.current t := by
  rw [Nat.min_eq_left (Nat.le_add_right _ _)]
  exact Machine.tokenAt_of_some (h.getElem? 0)

/-- The current token is found by its place. -/
theorem current (h : t.Shows c) : Machine.current t = .ok c.current t := by
  rw [Machine.current, Machine.place_bind, Machine.bind_ok h.last, h.tokenAt]

/-- A look ahead finds the same token, or the last one if there are too few. -/
theorem peek (h : t.Shows c) {places : Nat} (hplaces : places < 2 ^ 32) :
    Machine.peek places t = .ok (c.peek places) t := by
  have hlength := h.length
  have hsmall := h.small
  rw [Machine.peek, Machine.place_bind, Machine.add_of_lt (by omega), pure_bind,
    Machine.bind_ok h.last]
  refine Machine.tokenAt_of_some ?_
  unfold Cursor.peek
  cases hget : (c.current :: c.ahead)[places]? with
  | some token =>
    have hlt := (List.getElem?_eq_some_iff.mp hget).1
    rw [List.length_cons] at hlt
    rw [Nat.min_eq_left (by omega), h.getElem?, Cursor.tokens, hget]
    rfl
  | none =>
    -- Past the end both sides fall back on the last token.
    have hle := List.getElem?_eq_none_iff.mp hget
    rw [List.length_cons] at hle
    have hlast : (c.current :: c.ahead)[c.ahead.length]? = some (c.ahead.getLastD c.current) := by
      rw [List.getLastD_eq_getLast?, ← List.getLast?_cons, List.getLast?_eq_getElem?]
      rfl
    rw [Nat.min_eq_right (by omega), h.getElem?, Cursor.tokens, hlast]
    rfl

/-- The token before the place is the one the cursor has taken last. -/
theorem behind (h : t.Shows c) : Machine.behind t = .ok c.behind t := by
  rw [Machine.behind, Machine.place_bind]
  cases hplace : t.place with
  | zero =>
    rw [h.start hplace]
    rfl
  | succ before =>
    obtain ⟨token, htoken, hbehind⟩ := h.inner before hplace
    rw [hbehind]
    exact Machine.bind_ok (Machine.tokenAt_of_some htoken)

/-- Going on by place is going on. -/
theorem advance (h : t.Shows c) :
    ∃ u, Machine.advance t = .ok c.current u ∧ u.Shows c.advance := by
  have hlength := h.length
  have hsmall := h.small
  have hcurrent : t.tokens[t.place]? = some c.current := h.getElem? 0
  rw [Machine.advance, Machine.place_bind, Machine.bind_ok h.last, Machine.bind_ok h.tokenAt]
  unfold Cursor.advance
  cases hahead : c.ahead with
  | nil =>
    rw [List.length_nil, Nat.add_zero, if_neg (Nat.lt_irrefl _)]
    exact ⟨t, rfl, h⟩
  | cons next ahead =>
    rw [if_pos (by rw [List.length_cons]; omega), Machine.add_of_lt (by omega)]
    refine ⟨{ t with place := t.place + 1 }, rfl, h.small, ?_, nofun, ?_, h.nodeCount⟩
    · rw [← List.drop_drop, h.tokens, Cursor.tokens, hahead]
      rfl
    · rintro before hbefore
      obtain rfl : before = t.place := (Nat.succ.inj hbefore).symm
      exact ⟨c.current, hcurrent, rfl⟩

/-- The next identity is the same while it has 32 bits. -/
theorem freshId (h : t.Shows c) (hcount : c.nodeCount + 1 < 2 ^ 32) :
    ∃ u, Machine.freshId t = .ok ⟨c.nodeCount⟩ u ∧
      u.Shows { c with nodeCount := c.nodeCount + 1 } := by
  rw [Machine.freshId, Machine.get_bind, h.nodeCount, if_pos hcount]
  exact ⟨{ t with nodeCount := c.nodeCount + 1 }, rfl, h.small, h.tokens, h.start, h.inner, rfl⟩

end Tape.Shows

/-! ## Readers -/

/-- There are identities for the pieces that the tokens ahead make, three for each of them,
and for `n` more. -/
structure Cursor.Spares (c : Cursor) (n : Nat) : Prop where
  closed : c.Closed
  room : c.nodeCount + 3 * c.ahead.length + n < 2 ^ 32

namespace Cursor.Spares

variable {c : Cursor} {n k : Nat}

/-- Identities that are not needed can be left. -/
theorem mono (h : c.Spares n) (hk : k ≤ n) : c.Spares k := by
  have hroom := h.room
  exact ⟨h.closed, by omega⟩

/-- A token that is taken pays for three identities. -/
theorem advance (h : c.Spares n) (hk : c.kind ≠ .eof) : c.advance.Spares (n + 3) := by
  have htakes := takes_advance h.closed hk
  have hlength := htakes.length
  have hroom := h.room
  have hcount : c.advance.nodeCount = c.nodeCount := by
    unfold Cursor.advance
    cases c.ahead <;> rfl
  refine ⟨htakes.closed h.closed, ?_⟩
  rw [hcount]
  rw [List.length_singleton] at hlength
  omega

/-- An identity that is handed out was spared. -/
theorem freshId (h : c.Spares (n + 1)) : { c with nodeCount := c.nodeCount + 1 }.Spares n := by
  have hroom := h.room
  refine ⟨h.closed, ?_⟩
  show c.nodeCount + 1 + 3 * c.ahead.length + n < 2 ^ 32
  omega

end Cursor.Spares

/-- What a machine comes to is what a phrase comes to. -/
inductive Machine.Follows {α : Type} (x : Machine α) (t : Tape) (m : Phrase α) (c : Cursor)
    (left : Nat) : Prop
  | ok {a : α} {u : Tape} {d : Cursor} (hx : x t = .ok a u) (hm : m c = .ok a d) (h : u.Shows d)
      (hspares : d.Spares left)
  | error {e : Diagnostic} {u : Tape} {d : Cursor} (hx : x t = .error (.diagnostic e) u)
      (hm : m c = .error e d)

namespace Machine.Follows

variable {α : Type} {x x' : Machine α} {t t' : Tape} {m m' : Phrase α} {c c' : Cursor}
  {left left' : Nat}

/-- What a machine and a phrase come to at a place is all that counts. -/
theorem congr (h : Follows x' t' m' c' left) (hx : x t = x' t') (hm : m c = m' c') :
    Follows x t m c left := by
  cases h with
  | ok hx' hm' hshows hspares => exact .ok (hx.trans hx') (hm.trans hm') hshows hspares
  | error hx' hm' => exact .error (hx.trans hx') (hm.trans hm')

/-- Identities that are not needed can be left. -/
theorem mono (h : Follows x t m c left) (hleft : left' ≤ left) : Follows x t m c left' := by
  cases h with
  | ok hx hm hshows hspares => exact .ok hx hm hshows (hspares.mono hleft)
  | error hx hm => exact .error hx hm

end Machine.Follows

/-- A machine that reads what a phrase reads, at the token `next` if that is given. It has
identities for `before` nodes more than the tokens ahead make, and leaves them for `after`. -/
structure Reader {α : Type} (next : Option TokenKind) (before after : Nat) (m : Phrase α) where
  run : Machine α
  follows : ∀ {t : Tape} {c : Cursor}, t.Shows c → c.Spares before → (∀ k ∈ next, c.kind = k) →
    Machine.Follows run t m c after

namespace Reader

variable {α β : Type} {next : Option TokenKind} {n l l' : Nat}

theorem at_any (c : Cursor) : ∀ k ∈ (none : Option TokenKind), c.kind = k := by
  intro k hk
  cases hk

theorem closeBracket_ne_eof : TokenKind.closeBracket ≠ .eof := by decide

/-! ### Single tokens -/

/-- Reading nothing. -/
def pure (a : α) (hl : l ≤ n := by omega) : Reader next n l (Pure.pure a) where
  run := Pure.pure a
  follows h hspares _ := .ok rfl rfl h (hspares.mono hl)

/-- Reading nothing, where `k` identities are not needed any more. -/
def leaving (k : Nat) (a : α) : Reader next (n + k) n (Pure.pure a) :=
  pure a (Nat.le_add_right n k)

/-- Giving up. -/
def throw (e : Diagnostic) : Reader next n l (MonadExcept.throw e : Phrase α) where
  run := MonadExcept.throw (.diagnostic e)
  follows _ _ _ := .error rfl rfl

/-- The start of the next token. -/
def position : Reader next n n Phrase.position where
  run := do return (← Machine.current).span.start
  follows h hspares _ := .ok (Machine.bind_ok h.current) rfl h hspares

/-- Taking the next token. -/
def advance {k : TokenKind} (hk : k ≠ .eof) : Reader (some k) n (n + 3) Phrase.advance where
  run := Machine.advance
  follows h hspares hnext := by
    obtain ⟨u, hu, hshows⟩ := h.advance
    exact .ok hu rfl hshows (hspares.advance (hnext k rfl ▸ hk))

/-- Giving up at the next token. -/
def unexpected (hint : String) : Reader next n l (Phrase.unexpected hint : Phrase α) where
  run := do
    let token ← Machine.current
    MonadExcept.throw (.diagnostic ⟨.unexpectedHint token.text hint, token.span.start, none⟩)
  follows h _ _ := .error (Machine.bind_ok h.current) rfl

/-- Handing out an identity. -/
def freshId (hl : l + 1 ≤ n := by omega) : Reader next n l Phrase.freshId where
  run := Machine.freshId
  follows h hspares _ := by
    have hroom := hspares.room
    obtain ⟨u, hu, hshows⟩ := h.freshId (by omega)
    exact .ok hu rfl hshows (hspares.mono hl).freshId

/-- The span up to the token before the next one. -/
def spanFrom (start : Position) : Reader next n n (Phrase.spanFrom start) where
  run := do return ⟨start, ← Machine.behind⟩
  follows h hspares _ := .ok (Machine.bind_ok h.behind) rfl h hspares

/-! ### Putting readers together -/

/-- One reader after the other. -/
def bind {k : Nat} {m : Phrase α} {f : α → Phrase β} (x : Reader next n k m)
    (y : ∀ a, Reader none k l (f a)) : Reader next n l (m >>= f) where
  run := x.run >>= fun a => (y a).run
  follows h hspares hnext := by
    cases x.follows h hspares hnext with
    | ok hx hm hshows hspares =>
      exact .congr ((y _).follows hshows hspares (at_any _)) (Machine.bind_ok hx)
        (Phrase.bind_of_ok hm)
    | error hx hm => exact .error (Machine.bind_error hx) (Phrase.bind_of_error hm)

/-- The value read is changed. -/
def map {m : Phrase α} (f : α → β) (x : Reader next n l m) : Reader next n l (f <$> m) :=
  bind x fun a => pure (f a) (Nat.le_refl l)

/-- Fewer identities are left. -/
def spare {m : Phrase α} (x : Reader next n l m) (hl : l' ≤ l := by omega) :
    Reader next n l' m where
  run := x.run
  follows h hspares hnext := (x.follows h hspares hnext).mono hl

/-- Of the identities that are left, `k` are not needed any more. -/
def sparing {m : Phrase α} (k : Nat) (x : Reader next n (l + k) m) : Reader next n l m :=
  x.spare (Nat.le_add_right l k)

/-- What can be read at any token can be read at this one. -/
def anywhere {m : Phrase α} (x : Reader none n l m) : Reader next n l m where
  run := x.run
  follows h hspares _ := x.follows h hspares (at_any _)

/-- Reading what depends on the kind of the next token. -/
def kind {f : TokenKind → Phrase β} (y : ∀ k, Reader (some k) n l (f k)) :
    Reader next n l (Phrase.kind >>= f) where
  run := do (y (← Machine.current).kind).run
  follows {_ c} h hspares _ := by
    refine .congr ((y c.kind).follows h hspares ?_) (Machine.bind_ok h.current) rfl
    rintro k hk
    exact Option.some.inj hk

/-- One of two readers. -/
def ite {p : Prop} [Decidable p] {m m' : Phrase α} (x : p → Reader next n l m)
    (y : ¬p → Reader next n l m') : Reader next n l (if p then m else m') where
  run := if h : p then (x h).run else (y h).run
  follows := by
    by_cases h : p
    · rw [dif_pos h, if_pos h]
      exact (x h).follows
    · rw [dif_neg h, if_neg h]
      exact (y h).follows

/-- Taking a token of one kind. -/
def expectOr {k : TokenKind} {error : Cursor → Diagnostic} (hk : k ≠ .eof)
    (error' : Token → Diagnostic) (herror : ∀ c, error c = error' c.current) :
    Reader next n (n + 3) (Phrase.expectOr k error) where
  run := do
    let token ← Machine.current
    if token.kind = k then Machine.advance
    else MonadExcept.throw (.diagnostic (error' token))
  follows {t c} h hspares _ := by
    have hfollows : Machine.Follows
        (if c.kind = k then Machine.advance else MonadExcept.throw (.diagnostic (error' c.current)))
        t (if c.kind = k then Phrase.advance else MonadExcept.throw (error c)) c (n + 3) := by
      by_cases hc : c.kind = k
      · rw [if_pos hc, if_pos hc]
        exact (advance hk).follows h hspares fun _ h => hc.trans (Option.some.inj h)
      · rw [if_neg hc, if_neg hc, herror]
        exact .error rfl rfl
    exact .congr hfollows (Machine.bind_ok h.current) rfl

/-- Taking a token of one kind. -/
def expect (k : TokenKind) (hk : k ≠ .eof := by decide) :
    Reader next n (n + 3) (Phrase.expect k) :=
  expectOr hk Token.unexpected fun _ => rfl

/-- Taking a token of one kind, `hint` saying what was expected. -/
def expectHint (k : TokenKind) (hint : String) (hk : k ≠ .eof := by decide) :
    Reader next n (n + 3) (Phrase.expectOr k (·.unexpected hint)) :=
  expectOr hk (fun token => ⟨.unexpectedHint token.text hint, token.span.start, none⟩)
    fun _ => rfl

/-- Ending a piece of the tree: it gets an identity, and its span goes up to here. -/
def node {make : NodeId → Span → α} {start : Position} (hl : l + 1 ≤ n := by omega) :
    Reader next n l
      (do let id ← Phrase.freshId; let span ← Phrase.spanFrom start; return make id span) :=
  bind (freshId hl) fun _ => bind (spanFrom start) fun _ => pure _ (Nat.le_refl l)

/-- Reading what depends on what a look at the tokens shows. -/
def looking {γ : Type} {look : Cursor → γ} {f : γ → Phrase α} (x : Machine γ)
    (hx : ∀ {t c}, t.Shows c → x t = .ok (look c) t) (y : ∀ a, Reader next n l (f a)) :
    Reader next n l (do f (look (← get))) where
  run := do (y (← x)).run
  follows {_ c} h hspares hnext :=
    .congr ((y (look c)).follows h hspares hnext) (Machine.bind_ok (hx h)) rfl

/-- Reading what depends on how many tokens stand ahead. -/
def withLeft {f : Nat → Phrase α} (x : ∀ rounds, Reader next n l (f rounds)) :
    Reader next n l (do f (← get).ahead.length) :=
  looking Machine.left Tape.Shows.left x

/-! ### Repetition -/

section

variable {item : Phrase α}

/-- Reading items for as long as there are some, at most so many times. -/
def manyWithin (more : TokenKind → Bool) (x : ∀ k, more k = true → Reader (some k) n n item) :
    (rounds : Nat) → Reader none n n (Phrase.manyWithin more item rounds)
  | 0 => pure [] (Nat.le_refl n)
  | rounds + 1 => kind fun k => ite
    (fun hmore => bind (x k hmore) fun _ => bind (manyWithin more x rounds) fun _ =>
      pure _ (Nat.le_refl n))
    fun _ => pure [] (Nat.le_refl n)

/-- Reading items for as long as there are some. -/
def many (more : TokenKind → Bool) (x : ∀ k, more k = true → Reader (some k) n n item) :
    Reader next n n (Phrase.many more item) :=
  withLeft fun rounds => (manyWithin more x rounds).anywhere

/-- Reading items with commas between them. -/
def commaSeparated (x : ∀ {n}, Reader none n n item) :
    Reader next n n (Phrase.commaSeparated item) :=
  bind x.anywhere fun _ =>
    bind (many _ fun _ hk => bind (advance (by rintro rfl; cases hk)) fun _ =>
      x.sparing 3) fun _ => pure _ (Nat.le_refl n)

/-- Reading items up to a closing token. -/
def listUntil (close : TokenKind) (hclose : close ≠ .eof) (x : ∀ {n}, Reader none n n item) :
    Reader next n n (Phrase.listUntil close item) :=
  let end_ (items : List α) := bind (expect close hclose) fun _ => leaving 3 items
  kind fun _ => ite (fun _ => bind (pure [] (Nat.le_refl n)) end_)
    fun _ => bind (commaSeparated x) end_

/-- Reading items in brackets. -/
def bracketed (x : ∀ {n}, Reader none n n item) : Reader next n n (Phrase.bracketed item) :=
  many _ fun _ hk => bind (advance (by rintro rfl; cases hk)) fun _ => bind x fun _ =>
    bind (expect .closeBracket closeBracket_ne_eof) fun _ => leaving 6 _

end

end Reader

end CactLang
