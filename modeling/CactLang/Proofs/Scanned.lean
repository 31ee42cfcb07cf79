import CactLang.Token.Scan

/-!
# The tokens of a source

Every token but the last is a lexeme of the source, and the last one ends the input. What
holds of the lexemes, class by class, therefore holds of the tokens.

> `scan_lexemes`: the tokens before the last one have every property that lexemes have
> when they are made into tokens.
-/

namespace CactLang

open Text (width)

/-! ## Lexemes -/

namespace Lexeme

/-- A lexeme comes from a class that claims some of the text. -/
theorem exists_class {text : List Char} {l : Lexeme} (h : first? text = some l) :
    ∃ cls ∈ LexemeClass.all, cls.claim text ≠ 0 ∧ l.text = text.take (cls.claim text) ∧
      l.kind = cls.kind l.text := by
  obtain ⟨cls, hcls, hl⟩ := List.exists_of_findSome?_eq_some h
  unfold ofClass? at hl
  split at hl
  next => cases hl
  next n hn =>
    cases hl
    have hclaim : cls.claim text ≠ 0 := by omega
    have hspelling := LexemeClass.spelling_take hcls text hclaim
    rw [hn] at hspelling
    rw [hspelling]
    exact ⟨cls, hcls, hclaim, by rw [hn], rfl⟩

theorem first?_nil : first? [] = none := by
  rfl

end Lexeme

/-- A word is reserved or an identifier. -/
theorem TokenKind.ofWord_ne (word : String) :
    ofWord word ≠ .eof ∧ ofWord word ≠ .integerLiteral := by
  unfold ofWord ofReserved?
  cases h : reserved.lookup word with
  | none => decide
  | some k =>
    have hall : ∀ p ∈ reserved, p.2 ≠ .eof ∧ p.2 ≠ .integerLiteral := by decide
    obtain ⟨before, after, hsplit, _⟩ := List.lookup_eq_some_iff.mp h
    exact hall (word, k) (by rw [hsplit]; simp)

/-- A run of characters of one sort is empty, or its first character is of that sort. -/
theorem Claim.run_head {p : Char → Bool} {text : List Char} (h : run p text ≠ 0) :
    ∃ c rest, text = c :: rest ∧ p c = true := by
  cases text with
  | nil => exact absurd rfl h
  | cons c rest =>
    by_cases hc : p c = true
    · exact ⟨c, rest, rfl, hc⟩
    · refine absurd ?_ h
      unfold run
      rw [List.takeWhile_cons_of_neg hc]
      rfl

/-- An integer starts with a digit. -/
theorem Claim.integer_head {text : List Char} (h : hexadecimal text ≠ 0 ∨ digits text ≠ 0) :
    ∃ c rest, text = c :: rest ∧ c.isDigit = true := by
  rcases h with h | h
  · unfold hexadecimal at h
    split at h
    next x rest => exact ⟨'0', x :: rest, rfl, rfl⟩
    next => exact absurd rfl h
  · exact run_head h

/-- What every token that a lexeme makes is like: it does not end the input, and an integer
has no sign. -/
def Token.IsLexical (t : Token) : Prop :=
  t.kind ≠ .eof ∧ (t.kind = .integerLiteral → t.text.toList.head? ≠ some '-')

theorem Lexeme.isLexical {text : List Char} {l : Lexeme} {kind : TokenKind} {span : Span}
    (h : first? text = some l) (hkind : l.kind = some kind) :
    Token.IsLexical ⟨kind, String.ofList l.text, span⟩ := by
  obtain ⟨cls, hcls, hclaim, htext, hk⟩ := exists_class h
  rw [hkind] at hk
  -- a lexeme starts as the text that it is taken from
  have hinteger : (∃ c rest, text = c :: rest ∧ c.isDigit = true) →
      l.text.head? ≠ some '-' := by
    rintro ⟨c, rest, rfl, hc⟩ hdash
    obtain ⟨n, hn⟩ := Nat.exists_eq_succ_of_ne_zero hclaim
    rw [htext, hn, List.take_succ_cons, List.head?_cons] at hdash
    rw [Option.some.inj hdash] at hc
    exact absurd hc (by decide)
  unfold Token.IsLexical
  rw [String.toList_ofList]
  unfold LexemeClass.all at hcls
  rcases List.mem_append.mp hcls with hcls | hcls
  · simp only [List.mem_cons, List.not_mem_nil, or_false] at hcls
    rcases hcls with rfl | rfl | rfl | rfl | rfl | rfl | rfl | rfl
    · obtain rfl := Option.some.inj hk
      have hword := TokenKind.ofWord_ne (String.ofList l.text)
      exact ⟨hword.1, fun hint => absurd hint hword.2⟩
    · obtain rfl := Option.some.inj hk
      exact ⟨TokenKind.noConfusion, TokenKind.noConfusion⟩
    · obtain rfl := Option.some.inj hk
      exact ⟨TokenKind.noConfusion, TokenKind.noConfusion⟩
    · obtain rfl := Option.some.inj hk
      exact ⟨TokenKind.noConfusion, fun _ => hinteger (Claim.integer_head (Or.inl hclaim))⟩
    · obtain rfl := Option.some.inj hk
      exact ⟨TokenKind.noConfusion, fun _ => hinteger (Claim.integer_head (Or.inr hclaim))⟩
    -- layout makes no token
    · cases hk
    · cases hk
    · cases hk
  · obtain ⟨row, hrow, rfl⟩ := List.mem_map.mp hcls
    obtain rfl := Option.some.inj hk
    have hall : ∀ row ∈ symbols, row.kind ≠ .eof ∧ row.kind ≠ .integerLiteral := by decide
    have hne := hall row hrow
    exact ⟨hne.1, fun hint => absurd hint hne.2⟩

/-! ## Tokens -/

namespace Token

/-- The token that a lexeme makes, if it is not layout. -/
def ofLexeme? (file : String) (offset : Nat) (l : Lexeme) : Option Token :=
  l.kind.map fun kind => ⟨kind, String.ofList l.text, Span.ofBytes file offset (width l.text)⟩

/-- A character that starts no lexeme is reported. -/
theorem scan_of_none {file : String} {offset : Nat} {c : Char} {text : List Char}
    (hnone : Lexeme.first? (c :: text) = none) :
    scan file offset (c :: text) =
      .error ⟨.unrecognised (String.singleton c), Position.ofBytes file offset, none⟩ := by
  rw [scan]
  split
  next => rfl
  next hsome => exact absurd (hnone.symm.trans hsome) (by simp)

/-- The tokens of a text are that of its first lexeme and those of what follows it. -/
theorem scan_cons {file : String} {offset : Nat} {c : Char} {text : List Char} {l : Lexeme}
    (hfirst : Lexeme.first? (c :: text) = some l) :
    scan file offset (c :: text) =
      (scan file (offset + width l.text) l.rest).map ((ofLexeme? file offset l).toList ++ ·) := by
  rw [scan]
  split
  next hnone => exact absurd (hnone.symm.trans hfirst) (by simp)
  next l' hfirst' =>
    obtain rfl : l = l' := Option.some.inj (hfirst.symm.trans hfirst')
    unfold ofLexeme?
    dsimp only
    cases scan file (offset + width l.text) l.rest with
    | error e => rfl
    | ok tokens =>
      cases l.kind with
      | none => rfl
      | some kind => rfl

/-- What holds of every lexeme that is made into a token holds of all tokens but the last,
which ends the input. -/
theorem scan_lexemes {file : String} {P : Token → Prop}
    (hP : ∀ text l offset t, Lexeme.first? text = some l → ofLexeme? file offset l = some t → P t)
    (offset : Nat) (text : List Char) :
    ∀ tokens, scan file offset text = .ok tokens →
      ∃ before position, tokens = before ++ [endOfInput position] ∧ ∀ t ∈ before, P t := by
  induction offset, text using scan.induct with
  | case1 offset =>
    intro tokens h
    rw [scan] at h
    obtain rfl := Except.ok.inj h
    exact ⟨[], _, rfl, fun _ ht => absurd ht List.not_mem_nil⟩
  | case2 offset c text hnone =>
    intro tokens h
    rw [scan_of_none hnone] at h
    cases h
  | case3 offset c text l hfirst bytes ih =>
    intro tokens h
    rw [scan_cons hfirst] at h
    -- a lexeme gives one token or none, before those of the rest
    cases hrest : scan file (offset + width l.text) l.rest with
    | error e =>
      rw [hrest] at h
      cases h
    | ok rest =>
      rw [hrest] at h
      obtain rfl := Except.ok.inj h
      obtain ⟨before, position, rfl, hbefore⟩ := ih rest hrest
      refine ⟨(ofLexeme? file offset l).toList ++ before, position, ?_, fun t ht => ?_⟩
      · rw [List.append_assoc]
      · rcases List.mem_append.mp ht with ht | ht
        · exact hP _ l offset t hfirst (Option.mem_toList.mp ht)
        · exact hbefore t ht

end Token

/-- Of the tokens of a source only the last one ends the input, and no integer has a
sign. -/
theorem tokenize_ok {source file : String} {tokens : List Token}
    (h : tokenize source file = .ok tokens) :
    ∃ before last, tokens = before ++ [last] ∧ last.kind = .eof ∧
      ∀ t ∈ before, t.IsLexical := by
  have hlexical : ∀ text l offset t, Lexeme.first? text = some l →
      Token.ofLexeme? file offset l = some t → t.IsLexical := by
    intro text l offset t hfirst ht
    obtain ⟨kind, hkind, rfl⟩ := Option.map_eq_some_iff.mp ht
    exact Lexeme.isLexical hfirst hkind
  obtain ⟨before, position, htokens, hbefore⟩ :=
    Token.scan_lexemes hlexical 0 source.toList tokens h
  exact ⟨before, _, htokens, rfl, hbefore⟩

end CactLang
