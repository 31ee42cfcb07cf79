import CactLang.Proofs.Reading.Run

/-!
# Reading lists

What holds of one phrase holds of its repetitions: with nothing between the items, with
commas, up to a closing token, or with each item in brackets.

A repetition can be relied on only if it is clear where one item ends and whether another
follows. So an item must not go on with the token that separates it from the next or
that closes the list, and the first token must tell that there is an item.

The number of rounds is no restriction as long as it is not less than the number of tokens
ahead: each round takes one at least, and nothing repeats at the end of the input.
-/

namespace CactLang

namespace Spelling

variable {α : Type}

/-- Values one after the other, for as long as `more` holds of the next token. -/
def many (S : Spelling α) (more : TokenKind → Bool) : Spelling (List α) where
  parts as := as.flatMap S.parts
  Proper as := ∀ a ∈ as, S.Proper a
  GoesOn as k := more k = true ∨ ∃ a, as.getLast? = some a ∧ S.GoesOn a k
  IsRead := List.Forall₂ S.IsRead

/-- Values that follow a token. -/
def after (S : Spelling α) (k : TokenKind) : Spelling α :=
  { S with parts := fun a => .plain k :: S.parts a }

/-- Values in brackets. -/
def bracketed (S : Spelling α) : Spelling α :=
  { S with parts := fun a => bracket (S.parts a), GoesOn := fun _ _ => False }

/-- One or more values with commas between them. -/
def commaSeparated (S : Spelling α) : Spelling (List α) where
  parts as := commas (as.map S.parts)
  Proper as := as ≠ [] ∧ ∀ a ∈ as, S.Proper a
  GoesOn as k := k = .comma ∨ ∃ a, as.getLast? = some a ∧ S.GoesOn a k
  IsRead := List.Forall₂ S.IsRead

/-- Values with commas between them, or none, and a closing token. -/
def listUntil (S : Spelling α) (close : TokenKind) : Spelling (List α) where
  parts as := commas (as.map S.parts) ++ [Part.plain close]
  Proper as := ∀ a ∈ as, S.Proper a
  GoesOn _ _ := False
  IsRead := List.Forall₂ S.IsRead

variable {S : Spelling α} {k : TokenKind} {a : α} {as : List α} {us vs ws : List Word}

/-- Values that are written with at least one word, the first of which is of a kind. -/
def StartsWith (S : Spelling α) (first : TokenKind → Prop) : Prop :=
  ∀ a ws, S.Spells a ws → ∃ w u, ws = w :: u ∧ first w.kind

/-- What is known of the first word may be weakened. -/
theorem StartsWith.mono {first first' : TokenKind → Prop} (h : S.StartsWith first)
    (himp : ∀ k, first k → first' k) : S.StartsWith first' := by
  intro a ws ha
  obtain ⟨w, u, hws, hw⟩ := h a ws ha
  exact ⟨w, u, hws, himp _ hw⟩

/-- A value that has a first word has words. -/
theorem StartsWith.length_pos {first : TokenKind → Prop} (h : S.StartsWith first)
    (ha : S.Spells a ws) : 0 < ws.length := by
  obtain ⟨w, u, rfl, _⟩ := h a ws ha
  exact Nat.succ_pos _

/-- No value goes on with the token that another one starts with. -/
def Chains (S : Spelling α) : Prop :=
  ∀ a b w u, S.Proper a → S.Spells b (w :: u) → ¬S.GoesOn a w.kind

/-- The spelling of a token and a value after it. -/
theorem spells_after : (S.after k).Spells a ws ↔ ∃ v, ws = .plain k :: v ∧ S.Spells a v := by
  constructor
  · intro h
    obtain ⟨v, rfl, hv⟩ := spelled_word.mp h.2
    exact ⟨v, rfl, h.1, hv⟩
  · intro h
    obtain ⟨v, rfl, hv⟩ := h
    exact ⟨hv.1, hv.2.plain⟩

/-- A value after a token starts with that token. -/
theorem startsWith_after (S : Spelling α) (k : TokenKind) :
    (S.after k).StartsWith (· = k) := by
  intro a ws h
  obtain ⟨v, rfl, _⟩ := spells_after.mp h
  exact ⟨_, v, rfl, rfl⟩

/-- The spelling of a value in brackets. -/
theorem spells_bracketed : S.bracketed.Spells a ws ↔
    ∃ v, ws = Word.plain .openBracket :: (v ++ [Word.plain .closeBracket]) ∧ S.Spells a v := by
  constructor
  · intro h
    obtain ⟨v, rfl, hv⟩ := spelled_word.mp h.2
    obtain ⟨v₁, v₂, rfl, hv₁, hv₂⟩ := spelled_append.mp hv
    obtain ⟨v₃, rfl, rfl⟩ := spelled_word.mp hv₂
    exact ⟨v₁, rfl, h.1, hv₁⟩
  · intro h
    obtain ⟨v, rfl, hv⟩ := h
    exact ⟨hv.1, (hv.2.append Spelled.nil.plain).plain⟩

/-- A value and more of them. -/
theorem many_cons {more : TokenKind → Bool} (ha : S.Spells a us)
    (has : (S.many more).Spells as vs) : (S.many more).Spells (a :: as) (us ++ vs) :=
  ⟨List.forall_mem_cons.mpr ⟨ha.1, has.1⟩, ha.2.append has.2⟩

theorem many_nil {more : TokenKind → Bool} : (S.many more).Spells [] [] :=
  ⟨fun _ h => absurd h List.not_mem_nil, rfl⟩

/-- A single value, as a list of values. -/
theorem many_single {more : TokenKind → Bool} (ha : S.Spells a ws) :
    (S.many more).Spells [a] ws := by
  have h : (S.many more).Spells [a] (ws ++ []) := many_cons ha many_nil
  rw [List.append_nil] at h
  exact h

/-- A list of values is one value and a list of the others. -/
theorem of_many_cons {more : TokenKind → Bool} (h : (S.many more).Spells (a :: as) ws) :
    ∃ us vs, ws = us ++ vs ∧ S.Spells a us ∧ (S.many more).Spells as vs := by
  have hparts : (S.many more).parts (a :: as) = S.parts a ++ (S.many more).parts as :=
    List.flatMap_cons
  obtain ⟨ha, has⟩ := List.forall_mem_cons.mp h.1
  obtain ⟨us, vs, hws, hus, hvs⟩ := spelled_append.mp (hparts ▸ h.2)
  exact ⟨us, vs, hws, ⟨ha, hus⟩, has, hvs⟩

/-- A list with commas is one value and a list of values that follow a comma. -/
theorem commas_cons (S : Spelling α) (a : α) (as : List α) :
    commas ((a :: as).map S.parts) = S.parts a ++ as.flatMap (S.after .comma).parts := by
  rw [List.map_cons, commas, List.flatMap_map]
  rfl

/-- After the first value, each of the others has a comma before it. -/
theorem spells_commaSeparated_cons :
    S.commaSeparated.Spells (a :: as) ws ↔ ∃ us vs, ws = us ++ vs ∧ S.Spells a us ∧
      ((S.after .comma).many (· = .comma)).Spells as vs := by
  have hparts : S.commaSeparated.parts (a :: as) = _ := commas_cons S a as
  unfold Spells
  rw [hparts, spelled_append]
  constructor
  · intro h
    obtain ⟨⟨_, hall⟩, us, vs, hws, hus, hvs⟩ := h
    obtain ⟨ha, has⟩ := List.forall_mem_cons.mp hall
    exact ⟨us, vs, hws, ⟨ha, hus⟩, has, hvs⟩
  · intro h
    obtain ⟨us, vs, hws, ⟨ha, hus⟩, has, hvs⟩ := h
    exact ⟨⟨List.cons_ne_nil a as, List.forall_mem_cons.mpr ⟨ha, has⟩⟩, us, vs, hws, hus, hvs⟩

/-- An empty list is its closing token. -/
theorem spells_listUntil_nil (S : Spelling α) (close : TokenKind) :
    (S.listUntil close).Spells [] [.plain close] :=
  ⟨fun _ h => absurd h List.not_mem_nil, Spelled.nil.plain⟩

/-- A list ends with its closing token. -/
theorem spells_listUntil {close : TokenKind}
    (h : S.commaSeparated.Spells as ws) :
    (S.listUntil close).Spells as (ws ++ [Word.plain close]) :=
  ⟨h.1.2, h.2.append Spelled.nil.plain⟩

/-- The last of several values is the first one or the last of the others. -/
theorem getLast?_cons_cases {x : α} (h : (a :: as).getLast? = some x) :
    (as = [] ∧ x = a) ∨ as.getLast? = some x := by
  cases as with
  | nil => exact Or.inl ⟨rfl, (Option.some.inj h).symm⟩
  | cons b bs =>
    rw [List.getLast?_cons_cons] at h
    exact Or.inr h

end Spelling

namespace Phrase

open Spelling

variable {α : Type} {S : Spelling α} {item : Phrase α} {more : TokenKind → Bool}

/-! ## Never going back -/

instance [Forward item] (rounds : Nat) : Forward (manyWithin more item rounds) := by
  induction rounds with
  | zero =>
    unfold manyWithin
    infer_instance
  | succ rounds ih =>
    unfold manyWithin
    infer_instance

instance [Forward item] : Forward (many more item) := by
  unfold many
  infer_instance

instance [Forward item] : Forward (commaSeparated item) := by
  unfold commaSeparated
  infer_instance

instance [Forward item] (close : TokenKind) : Forward (listUntil close item) := by
  unfold listUntil
  dsimp only
  infer_instance

instance [Forward item] : Forward (bracketed item) := by
  unfold bracketed
  infer_instance

/-! ## Repetition -/

/-- A round: an item, and then the others. -/
theorem manyWithin_more {rounds : Nat} {c : Cursor} (h : more c.kind = true) :
    manyWithin more item (rounds + 1) c = (do
      let a ← item
      let rest ← manyWithin more item rounds
      return a :: rest : Phrase (List α)) c := by
  show (if more c.kind = true then _ else _ : Phrase (List α)) c = _
  rw [if_pos h]

/-- Where no item comes next, the loop ends and takes nothing. -/
theorem manyWithin_done {rounds : Nat} {c : Cursor} (h : more c.kind = false) :
    manyWithin more item rounds c = .ok [] c := by
  cases rounds with
  | zero => rfl
  | succ rounds =>
    show (if more c.kind = true then _ else _ : Phrase (List α)) c = _
    rw [if_neg (by rw [h]; exact Bool.false_ne_true)]
    rfl

/-- The loop reads items until none comes next. It is the number of tokens ahead that bounds the
rounds, and each item takes one at least. -/
theorem manyWithin_reads (heof : more .eof = false) (hfirst : S.StartsWith fun _ => True)
    (hitem : ∀ d : Cursor, d.Closed → more d.kind = true → S.Reads [] item d) (rounds : Nat) :
    ∀ c : Cursor, c.Closed → c.ahead.length ≤ rounds →
      (S.many more).Reads [] (manyWithin more item rounds) c := by
  induction rounds with
  | zero =>
    intro c hc hrounds
    -- no rounds are left only at the end of the input, where no item starts
    have hkind := hc.kind_eq_eof (Nat.le_zero.mp hrounds)
    refine Reads.pure many_nil ?_
    rintro (hmore | ⟨a, ha, _⟩)
    · rw [hkind, heof] at hmore
      exact absurd hmore (by simp)
    · exact absurd ha (by simp)
  | succ rounds ih =>
    intro c hc hrounds
    unfold Reads
    cases hmore : more c.kind with
    | false =>
      rw [manyWithin_done hmore]
      refine ⟨[], .none rfl, many_nil, ?_⟩
      rintro (hmore' | ⟨a, ha, _⟩)
      · rw [hmore] at hmore'
        exact absurd hmore' (by simp)
      · exact absurd ha (by simp)
    | true =>
      rw [manyWithin_more hmore]
      refine Reads.bind hc (hitem c hc hmore) ?_ ?_
      · intro a ws ha
        exact (many_single ha).viable
      · intro a ws d hd
        -- an item has a word at least, so it pays for its round
        have hpos := hfirst.length_pos hd.spells
        have hlength := hd.length
        refine Reads.bind hd.closed (ih d hd.closed (by omega)) ?_ ?_
        · intro as vs has
          exact (many_cons hd.spells has).viable
        · intro as vs e he
          refine Reads.pure (many_cons hd.spells he.spells) ?_
          rintro (hmore' | ⟨x, hx, hgoes⟩)
          · exact he.stops (Or.inl hmore')
          · rcases getLast?_cons_cases hx with ⟨rfl, rfl⟩ | hx
            · -- no other item was read, so the first one still ends here
              obtain rfl : vs = [] := he.spells.2
              rw [he.kind_eq] at hgoes
              exact hd.stops hgoes
            · exact he.stops (Or.inr ⟨x, hx, hgoes⟩)

/-- Where items stop, the last of them stops; so does an item before another one. -/
theorem stops_first (hfirst : S.StartsWith (more · = true)) (hchain : S.Chains) {a : α}
    {as : List α} {us vs r : List Word} (hus : S.Spells a us)
    (hvs : (S.many more).Spells as vs) (hr : (S.many more).Stops (a :: as) r) :
    S.Stops a (vs ++ r) := by
  cases as with
  | nil =>
    obtain rfl : vs = [] := hvs.2
    obtain ⟨w, u, rfl, hgoes⟩ := hr
    exact ⟨w, u, rfl, fun h => hgoes (Or.inr ⟨a, rfl, h⟩)⟩
  | cons b bs =>
    obtain ⟨us', vs', rfl, hus', _⟩ := of_many_cons hvs
    obtain ⟨w, u, rfl, _⟩ := hfirst b us' hus'
    exact ⟨w, _, rfl, hchain a b w u hus.1 hus'⟩

/-- What stops a list of items stops all but the first of them. -/
theorem stops_rest {a : α} {as : List α} {r : List Word} (hr : (S.many more).Stops (a :: as) r) :
    (S.many more).Stops as r := by
  obtain ⟨w, u, rfl, hgoes⟩ := hr
  refine ⟨w, u, rfl, ?_⟩
  rintro (h | ⟨x, hx, h⟩)
  · exact hgoes (Or.inl h)
  · refine hgoes (Or.inr ⟨x, ?_, h⟩)
    rw [List.getLast?_cons, hx]
    rfl

/-- The loop follows the words of a list item by item, along the list. -/
theorem manyWithin_follows [Forward item] (heof : more .eof = false)
    (hfirst : S.StartsWith (more · = true)) (hchain : S.Chains) (as : List α) :
    ∀ (rounds : Nat) (c : Cursor) (ws r : List Word), c.Closed → c.ahead.length ≤ rounds →
      (∀ d : Cursor, d.Closed → d.ahead.length ≤ c.ahead.length → S.Tracks item d) →
      (S.many more).Spells as ws → (S.many more).Stops as r →
      (manyWithin more item rounds).Follows c ws r (List.Forall₂ S.IsRead · as) := by
  induction as with
  | nil =>
    intro rounds c ws r hc _ _ hws hr
    obtain rfl : ws = [] := hws.2
    obtain ⟨w, u, rfl, hstops⟩ := hr
    refine .of_head rfl fun hhead => ?_
    have hmore : more c.kind = false := by
      rw [← c.word_kind, hhead]
      exact Bool.eq_false_iff.mpr fun h => hstops (Or.inl h)
    exact .congr (manyWithin_done hmore) (.pure .nil)
  | cons a as ih =>
    intro rounds c ws r hc hrounds hitem hws hr
    obtain ⟨us, vs, rfl, hus, hvs⟩ := of_many_cons hws
    obtain ⟨w, u, rfl, hw⟩ := hfirst a us hus
    refine .of_head rfl fun hhead => ?_
    have hmore : more c.kind = true := by
      rw [← c.word_kind, hhead]
      exact hw
    have hkind : c.kind ≠ .eof := by
      intro heq
      rw [heq, heof] at hmore
      exact absurd hmore (by simp)
    have hahead := List.length_pos_iff.mpr (hc.ahead_ne_nil hkind)
    obtain ⟨rounds, rfl⟩ : ∃ n, rounds = n + 1 := ⟨rounds - 1, by omega⟩
    refine .congr (manyWithin_more hmore) ?_
    have hstops := stops_first hfirst hchain hus hvs hr
    refine .bind hc (hitem c hc (Nat.le_refl _) a _ _ hus hstops) ?_
    intro a' d ha' hd hlength
    -- the item took at least one token, so one round less is enough for the others
    rw [List.length_cons] at hlength
    refine .bind_last hd (ih rounds d vs r hd (by omega) ?_ hvs (stops_rest hr)) ?_
    · intro e he hle
      exact hitem e he (by omega)
    · intro as' _ has' _
      exact .pure (.cons ha' has')

/-- A loop that may go around as often as there are tokens never runs out of rounds. -/
theorem many_reads (heof : more .eof = false) (hfirst : S.StartsWith fun _ => True)
    (hitem : ∀ d : Cursor, d.Closed → more d.kind = true → S.Reads [] item d) (c : Cursor)
    (hc : c.Closed) : (S.many more).Reads [] (many more item) c :=
  manyWithin_reads heof hfirst hitem _ c hc (Nat.le_refl _)

/-- A list that is written out is read back. -/
theorem many_tracks [Forward item] (heof : more .eof = false)
    (hfirst : S.StartsWith (more · = true)) (hchain : S.Chains) (c : Cursor) (hc : c.Closed)
    (hitem : ∀ d : Cursor, d.Closed → d.ahead.length ≤ c.ahead.length → S.Tracks item d) :
    (S.many more).Tracks (many more item) c := by
  have hrun : many more item c = manyWithin more item c.ahead.length c := rfl
  refine Tracks.congr hrun fun as ws r hws hr => ?_
  exact manyWithin_follows heof hfirst hchain as _ c ws r hc (Nat.le_refl _) hitem hws hr

/-! ## Lists with commas -/

/-- A comma and the item after it. -/
theorem comma_reads (hitem : ∀ d : Cursor, d.Closed → S.Reads [] item d) (c : Cursor)
    (hc : c.Closed) (hk : c.kind = .comma) : (S.after .comma).Reads [] (advance *> item) c := by
  have hne : c.kind ≠ .eof := by
    rw [hk]
    decide
  have htakes := Cursor.takes_advance hc hne
  refine Ends.of_takes htakes ?_
  rw [List.map_singleton, Token.word_eq_plain hk rfl]
  show (S.after .comma).Ends _ _ (item c.advance)
  have h := hitem c.advance (htakes.closed hc)
  unfold Reads at h
  cases hrun : item c.advance with
  | ok a d =>
    rw [hrun] at h
    obtain ⟨ts, hd, hspells, hstops⟩ := h
    exact ⟨ts, hd, spells_after.mpr ⟨_, rfl, hspells⟩, hstops⟩
  | error e d =>
    rw [hrun] at h
    obtain ⟨ts, hd, hblames, a, v, hspells⟩ := h
    exact ⟨ts, hd, hblames, a, v, spells_after.mpr ⟨_, rfl, hspells⟩⟩

/-- One item at least is read, and after it those that a comma announces. -/
theorem commaSeparated_reads (hitem : ∀ d : Cursor, d.Closed → S.Reads [] item d) (c : Cursor)
    (hc : c.Closed) : S.commaSeparated.Reads [] (commaSeparated item) c := by
  have hrest : ∀ d : Cursor, d.Closed →
      ((S.after .comma).many (· = .comma)).Reads [] (many (· = .comma) (advance *> item)) d :=
    many_reads rfl ((startsWith_after S .comma).mono fun _ _ => trivial) fun d hd hk =>
      comma_reads hitem d hd (of_decide_eq_true hk)
  refine Reads.bind hc (hitem c hc) ?_ ?_
  · intro a ws ha
    have hone : S.commaSeparated.Spells [a] ws :=
      spells_commaSeparated_cons.mpr
        ⟨ws, [], (List.append_nil ws).symm, ha, many_nil⟩
    exact hone.viable
  · intro a ws d hd
    refine Reads.bind hd.closed (hrest d hd.closed) ?_ ?_
    · intro as vs has
      exact (spells_commaSeparated_cons.mpr ⟨ws, vs, rfl, hd.spells, has⟩).viable
    · intro as vs e he
      refine Reads.pure (spells_commaSeparated_cons.mpr ⟨ws, vs, rfl, hd.spells, he.spells⟩) ?_
      rintro (hk | ⟨x, hx, hgoes⟩)
      · exact he.stops (Or.inl (decide_eq_true hk))
      · rcases getLast?_cons_cases hx with ⟨rfl, rfl⟩ | hx
        · obtain rfl : vs = [] := he.spells.2
          rw [he.kind_eq] at hgoes
          exact hd.stops hgoes
        · exact he.stops (Or.inr ⟨x, hx, hgoes⟩)

/-- A list with commas is read back if no item goes on with a comma. -/
theorem commaSeparated_tracks [Forward item] (hcomma : ∀ a, S.Proper a → ¬S.GoesOn a .comma)
    (c : Cursor) (hc : c.Closed)
    (hitem : ∀ d : Cursor, d.Closed → d.ahead.length ≤ c.ahead.length → S.Tracks item d) :
    S.commaSeparated.Tracks (commaSeparated item) c := by
  intro as ws r hws hr
  obtain ⟨a, as, rfl⟩ := List.exists_cons_of_ne_nil hws.1.1
  obtain ⟨us, vs, rfl, hus, hvs⟩ :=
    spells_commaSeparated_cons.mp hws
  obtain ⟨w, u, rfl, hgoes⟩ := hr
  -- the first item is followed by a comma, or by what follows the whole list
  have hstops : S.Stops a (vs ++ w :: u) := by
    cases as with
    | nil =>
      obtain rfl : vs = [] := hvs.2
      exact ⟨w, u, rfl, fun h => hgoes (Or.inr ⟨a, rfl, h⟩)⟩
    | cons b bs =>
      obtain ⟨us', vs', rfl, hus', _⟩ := of_many_cons hvs
      obtain ⟨v, rfl, _⟩ := spells_after.mp hus'
      exact ⟨_, _, rfl, hcomma a hus.1⟩
  refine .bind hc (hitem c hc (Nat.le_refl _) a us _ hus hstops) ?_
  intro a' d ha' hd hlength
  have hrest : ((S.after .comma).many (· = .comma)).Tracks
      (many (· = .comma) (advance *> item)) d := by
    refine many_tracks rfl ((startsWith_after S .comma).mono fun k hk => decide_eq_true hk)
      ?_ d hd ?_
    · intro a b w u ha hb
      obtain ⟨v, hv, _⟩ := spells_after.mp hb
      rw [(List.cons.inj hv).1]
      exact hcomma a ha
    · intro e he hle b ws r hb hr
      obtain ⟨v, rfl, hv⟩ := spells_after.mp hb
      refine Follows.step (f := fun _ => item) he (by decide) (fun _ => rfl) (Forward.le e) ?_
      intro _ he' hlength'
      exact hitem _ he' (by omega) b v r hv hr
  have hend : ((S.after .comma).many (· = .comma)).Stops as (w :: u) := by
    refine ⟨w, u, rfl, ?_⟩
    rintro (hk | ⟨x, hx, h⟩)
    · exact hgoes (Or.inl (of_decide_eq_true hk))
    · refine hgoes (Or.inr ⟨x, ?_, h⟩)
      rw [List.getLast?_cons, hx]
      rfl
  refine .bind_last hd (hrest as vs _ hvs hend) ?_
  intro as' _ has' _
  exact .pure (.cons ha' has')

/-! ## Lists up to a closing token -/

/-- The closing token is asked for where no comma announces another item. -/
theorem listUntil_reads {close : TokenKind} (hclose : close ≠ .eof) (htext : close.hasText = false)
    (hitem : ∀ d : Cursor, d.Closed → S.Reads [] item d) (c : Cursor) (hc : c.Closed) :
    (S.listUntil close).Reads [] (listUntil close item) c := by
  refine Reads.kind ?_
  dsimp only
  by_cases hk : c.kind = close
  · rw [if_pos hk]
    show (S.listUntil close).Reads [] (expect close >>= fun _ => pure []) c
    refine Reads.expect hc hclose htext ⟨[], _, spells_listUntil_nil S close⟩ fun _ => ?_
    exact Reads.pure (spells_listUntil_nil S close) id
  · rw [if_neg hk]
    refine Reads.bind hc (commaSeparated_reads hitem c hc) ?_ ?_
    · intro as ws has
      exact ⟨as, _, spells_listUntil has⟩
    · intro as ws d hd
      refine Reads.expect hd.closed hclose htext ⟨as, _, spells_listUntil hd.spells⟩ fun _ => ?_
      exact Reads.pure (spells_listUntil hd.spells) id

/-- A list with its closing token is read back if no item starts or goes on with this token. -/
theorem listUntil_tracks [Forward item] {close : TokenKind} (hclose : close ≠ .eof)
    (hsep : close ≠ .comma) (hfirst : S.StartsWith (· ≠ close))
    (hcomma : ∀ a, S.Proper a → ¬S.GoesOn a .comma)
    (hstop : ∀ a, S.Proper a → ¬S.GoesOn a close) (c : Cursor) (hc : c.Closed)
    (hitem : ∀ d : Cursor, d.Closed → d.ahead.length ≤ c.ahead.length → S.Tracks item d) :
    (S.listUntil close).Tracks (listUntil close item) c := by
  intro as ws r hws _
  obtain ⟨us, vs, rfl, hus, hvs⟩ := spelled_append.mp hws.2
  obtain ⟨v, rfl, rfl⟩ := spelled_word.mp hvs
  cases as with
  | nil =>
    obtain rfl : us = [] := hus
    refine .look_plain rfl ?_
    rw [if_pos rfl]
    exact .expect (f := fun _ => pure []) hc hclose fun _ _ => .pure .nil
  | cons a as =>
    have hlist : S.commaSeparated.Spells (a :: as) us := ⟨⟨List.cons_ne_nil a as, hws.1⟩, hus⟩
    -- the list starts as its first item does, and no item starts as the closing token
    obtain ⟨w, u, hwu, hw⟩ : ∃ w u, us = w :: u ∧ w.kind ≠ close := by
      obtain ⟨us₁, us₂, rfl, hus₁, _⟩ :=
        spells_commaSeparated_cons.mp hlist
      obtain ⟨w, u, rfl, hw⟩ := hfirst a us₁ hus₁
      exact ⟨w, _, rfl, hw⟩
    refine .look (w := w) (u := u ++ ([Word.plain close] ++ r)) rfl (by rw [hwu]; simp) ?_
    rw [if_neg hw]
    have hstops : S.commaSeparated.Stops (a :: as) ([Word.plain close] ++ r) := by
      refine ⟨.plain close, r, rfl, ?_⟩
      rintro (h | ⟨x, hx, h⟩)
      · exact hsep h
      · exact hstop x (hws.1 x (List.mem_of_getLast? hx)) h
    refine .bind hc (commaSeparated_tracks hcomma c hc hitem (a :: as) us _ hlist hstops) ?_
    intro as' d has' hd _
    exact .expect hd hclose fun _ _ => .pure has'

/-! ## Lists of brackets -/

/-- An item in brackets. -/
theorem bracket_reads (hitem : ∀ d : Cursor, d.Closed → S.Reads [] item d) (c : Cursor)
    (hc : c.Closed) (hk : c.kind = .openBracket) :
    S.bracketed.Reads [] (do
      let _ ← advance
      let a ← item
      let _ ← expect .closeBracket
      return a) c := by
  have hne : c.kind ≠ .eof := by
    rw [hk]
    decide
  refine Reads.advance hc hne fun hadvance => ?_
  rw [Token.word_eq_plain hk rfl]
  have hwhole : ∀ {a ws}, S.Spells a ws →
      S.bracketed.Spells a ([] ++ [Word.plain .openBracket] ++ ws ++ [Word.plain .closeBracket]) :=
    fun ha => spells_bracketed.mpr ⟨_, by simp, ha⟩
  refine Reads.bind hadvance (hitem _ hadvance) ?_ ?_
  · intro a ws ha
    exact ⟨a, _, hwhole ha⟩
  · intro a ws d hd
    refine Reads.expect hd.closed (by decide) rfl ⟨a, _, hwhole hd.spells⟩ fun _ => ?_
    exact Reads.pure (hwhole hd.spells) id

/-- Items in brackets are read for as long as a bracket opens. -/
theorem bracketed_reads (hitem : ∀ d : Cursor, d.Closed → S.Reads [] item d) (c : Cursor)
    (hc : c.Closed) : (S.bracketed.many (· = .openBracket)).Reads [] (bracketed item) c := by
  refine many_reads rfl ?_ (fun d hd hk => ?_) c hc
  · intro a ws ha
    obtain ⟨v, rfl, _⟩ := spells_bracketed.mp ha
    exact ⟨_, _, rfl, trivial⟩
  · exact bracket_reads hitem d hd (of_decide_eq_true hk)

/-- Items in brackets are read back. -/
theorem bracketed_tracks [Forward item] (hstop : ∀ a, S.Proper a → ¬S.GoesOn a .closeBracket)
    (c : Cursor) (hc : c.Closed)
    (hitem : ∀ d : Cursor, d.Closed → d.ahead.length ≤ c.ahead.length → S.Tracks item d) :
    (S.bracketed.many (· = .openBracket)).Tracks (bracketed item) c := by
  refine many_tracks rfl ?_ (fun _ _ _ _ _ _ => id) c hc ?_
  · intro a ws ha
    obtain ⟨v, rfl, _⟩ := spells_bracketed.mp ha
    exact ⟨_, _, rfl, rfl⟩
  · intro d hd hle a ws r ha _
    obtain ⟨v, rfl, hv⟩ := spells_bracketed.mp ha
    refine .advance hd (by decide) fun _ hd' hlength => ?_
    refine .bind hd' (hitem _ hd' (by omega) a v _ hv ⟨_, r, rfl, hstop a hv.1⟩) ?_
    intro a' e ha' he _
    exact .expect he (by decide) fun _ _ => .pure ha'

end Phrase

end CactLang
