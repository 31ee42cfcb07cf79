import CactLang.Proofs.Reading.Program

/-!
# The first token that is wrong

Where reading fails, it fails at the first token that no program goes on with. What stands
before can be completed to a program, so nothing in it is wrong yet; with the token that is
blamed it cannot.

> `parse_blames_first_fault`: the diagnostic names the current token, what was taken is the
> beginning of an accepted input, and no accepted input begins with it and that token.
-/

namespace CactLang

open Spelling

/-- The tokens are read as a program. -/
def Token.Accepted (tokens : List Token) : Prop :=
  ∃ file p c, parse tokens file = .ok p c

/-- What an accepted input holds are the words of a program. -/
theorem Token.Accepted.exists_program {tokens : List Token} (h : Token.Accepted tokens) :
    ∃ p, Program.spelling.Spells p ((Token.content tokens).map Token.word) := by
  obtain ⟨file, p, c, hparse⟩ := h
  exact ⟨p, (parse_ok hparse).1⟩

/-- Tokens with the words of a program are accepted. -/
theorem Program.accepted_of_spells {p : Program} {tokens : List Token}
    (h : Program.spelling.Spells p (tokens.map Token.word)) : Token.Accepted tokens := by
  have hok : ∃ p' c, parse tokens "" = .ok p' c ∧ p'.IsRead p := by
    rcases Cursor.ofTokens_cases tokens "" with ⟨htokens, _⟩ | ⟨t, htokens, heof, _⟩
    · refine parse_of_words (u := []) h ?_ fun _ hw => absurd hw (by simp)
      rw [Cursor.words, htokens, List.append_nil]
    · refine parse_of_words (u := [t.word]) h ?_ fun w hw => ?_
      · rw [Cursor.words, htokens, List.map_append]
        rfl
      · obtain rfl := Option.some.inj hw
        exact heof
  obtain ⟨p', c, hparse, _⟩ := hok
  exact ⟨"", p', c, hparse⟩

/-- The end that is put after an input is never taken. -/
theorem Cursor.Takes.isPrefix {tokens before : List Token} {file : String} {c : Cursor}
    (h : (Cursor.ofTokens tokens file).Takes before c) : before <+: tokens := by
  have htokens : before ++ c.current :: c.ahead = (Cursor.ofTokens tokens file).tokens :=
    h.tokens.symm
  rcases Cursor.ofTokens_cases tokens file with ⟨hinput, _⟩ | ⟨t, hinput, _, _⟩
  · rw [hinput] at htokens
    exact ⟨_, htokens⟩
  · rw [hinput] at htokens
    have hlength := congrArg List.length htokens
    simp only [List.length_append, List.length_cons, List.length_nil] at hlength
    exact List.prefix_of_prefix_length_le ⟨_, htokens⟩ ⟨_, rfl⟩ (by omega)

section Failure

variable {tokens before : List Token} {file : String} {e : Diagnostic} {c : Cursor}

/-- Where reading fails before the end, no program goes on with the current token. -/
theorem not_viable_of_error (h : parse tokens file = .error e c)
    (hbefore : (Cursor.ofTokens tokens file).Takes before c) {p : Program} {v : List Word} :
    ¬Program.spelling.Spells p (before.map Token.word ++ c.current.word :: v) := by
  intro hspells
  -- reading follows the program up to and including the current token
  have hfollows := Phrase.program_tracks _ (Cursor.ofTokens_closed tokens file) p _
    [Word.plain .eof] hspells ⟨_, _, rfl, not_not.mpr rfl⟩
  have hagree : (Cursor.ofTokens tokens file).words.take (before.length + 1) =
      ((before.map Token.word ++ c.current.word :: v) ++ [Word.plain .eof]).take
        (before.length + 1) := by
    rw [hbefore.words, List.append_assoc]
    simp [List.take_append, Cursor.words, Cursor.tokens]
  have hreach := hfollows.reaches (n := before.length + 1) (by simp) hagree
  have hafter : Phrase.program.after (Cursor.ofTokens tokens file) = c := by
    unfold Phrase.after
    rw [show Phrase.program (Cursor.ofTokens tokens file) = .error e c from h]
  rw [hafter] at hreach
  have hlength := hbefore.length
  omega

/-- Where reading fails at the end, what stands before it is no program. -/
theorem not_program_of_error (h : parse tokens file = .error e c)
    (hbefore : (Cursor.ofTokens tokens file).Takes before c) (heof : c.current.kind = .eof)
    {p : Program} : ¬Program.spelling.Spells p (before.map Token.word) := by
  intro hspells
  obtain ⟨p', d, hparse, _⟩ := parse_of_words hspells hbefore.words fun w hw => by
    obtain rfl := Option.some.inj hw
    exact heof
  rw [h] at hparse
  cases hparse

end Failure

/-- Reading fails at the first token that no program goes on with, and blames it. -/
theorem parse_blames_first_fault {tokens : List Token} {file : String} {e : Diagnostic}
    {c : Cursor} (h : parse tokens file = .error e c) :
    ∃ before, before <+: tokens ∧
      (Cursor.ofTokens tokens file).tokens = before ++ c.current :: c.ahead ∧
      ((e.cause = .unexpected c.current.text ∨
          ∃ hint, e.cause = .unexpectedHint c.current.text hint) ∧
        e.position = c.current.span.start ∧ e.node = none) ∧
      (∀ t ∈ before, t.kind ≠ .eof) ∧
      (∃ rest, Token.Accepted (before ++ rest)) ∧
      (∀ rest, ¬Token.Accepted (before ++ c.current :: rest)) ∧
      (c.current.kind = .eof → ¬Token.Accepted before) := by
  obtain ⟨before, htakes, hblames, p, v, hspells⟩ := parse_error h
  refine ⟨before, htakes.isPrefix, htakes.tokens, ?_, htakes.inner, ⟨v.map Word.token, ?_⟩, ?_, ?_⟩
  · rcases hblames with rfl | ⟨hint, rfl⟩
    · exact ⟨Or.inl rfl, rfl, rfl⟩
    · exact ⟨Or.inr ⟨hint, rfl⟩, rfl, rfl⟩
  · -- the rest of a program that begins as what was taken
    refine Program.accepted_of_spells (p := p) ?_
    have hv : (v.map Word.token).map Token.word = v := by
      rw [List.map_map, funext Word.word_token (f := Token.word ∘ Word.token), List.map_id']
    rw [List.map_append, hv]
    exact hspells
  · intro rest haccepted
    obtain ⟨p', hp'⟩ := haccepted.exists_program
    -- an end of the input is not content, so there the tokens before it are the whole program
    by_cases heof : c.current.kind = .eof
    · rw [Token.content_eq htakes.inner heof] at hp'
      exact not_program_of_error h htakes heof hp'
    · rw [Token.content_append htakes.inner, Token.content_cons heof, List.map_append] at hp'
      exact not_viable_of_error h htakes hp'
  · intro heof haccepted
    obtain ⟨p', hp'⟩ := haccepted.exists_program
    rw [Token.content_self htakes.inner] at hp'
    exact not_program_of_error h htakes heof hp'

/-- An assignment to a call, which is found out at its sign: `void f() { f(a[1]) = 2; }`. -/
def assignedCall : List Token :=
  [Word.plain .kwVoid, .name "f", .plain .openParen, .plain .closeParen, .plain .openCurly,
    .name "f", .plain .openParen, .name "a", .plain .openBracket, .number .integer "1",
    .plain .closeBracket, .plain .closeParen, .plain .assign, .number .integer "2",
    .plain .semicolon, .plain .closeCurly].map Word.token

theorem parse_blames_first_fault_assignedCall :
    ∃ e c before, parse assignedCall "" = .error e c ∧ c.current.kind = .assign ∧
      before <+: assignedCall ∧ before.length = 12 ∧
      (∃ rest, Token.Accepted (before ++ rest)) ∧
      ∀ rest, ¬Token.Accepted (before ++ c.current :: rest) := by
  obtain ⟨e, c, hparse, hkind, hahead⟩ : ∃ e c, parse assignedCall "" = .error e c ∧
      c.current.kind = .assign ∧ c.ahead.length = 4 := ⟨_, _, rfl, rfl, rfl⟩
  obtain ⟨before, hbefore, hinput, _, _, hviable, hfault, _⟩ := parse_blames_first_fault hparse
  have hall : (Cursor.ofTokens assignedCall "").tokens.length = 17 := rfl
  have hlength : before.length = 12 := by
    rw [hinput, List.length_append, List.length_cons, hahead] at hall
    omega
  exact ⟨e, c, before, hparse, hkind, hbefore, hlength, hviable, hfault⟩

end CactLang
