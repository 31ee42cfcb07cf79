import CactLang.Proofs.Unplaced.Typing
import CactLang.Proofs.RoundTrip

/-!
# Layout does not matter

Neither reading nor type checking looks at positions, so two lists of tokens that agree but for
positions are treated alike: what stands between the tokens of a source, and in which file, does
not matter.

> `layout_does_not_matter`: the trees are the same but for spans, with the same registries and
> failures and the same annotations, also where checking fails; or reading stops for the same
> cause, in front of the tokens from the same place on.
-/

namespace CactLang

open Typing (forgetting typeCheck typeCheck_unplaced annotate annotate_unplaced readSource?
  exists_of_readSource?)

/-- Without positions, an input starts as it does with them. -/
theorem Cursor.ofTokens_unplaced (tokens : List Token) (file : String) :
    (ofTokens tokens file).unplaced = ofTokens (tokens.map Token.unplaced) "" := by
  cases tokens with
  | nil => rfl
  | cons first rest =>
    rw [List.map_cons]
    unfold ofTokens
    dsimp only
    rw [Token.getLastD_unplaced]
    by_cases heof : (rest.getLastD first).kind = .eof
    · rw [if_pos heof, if_pos (show (rest.getLastD first).unplaced.kind = .eof from heof),
        List.append_nil, List.append_nil]
      rfl
    · rw [if_neg heof, if_neg (show (rest.getLastD first).unplaced.kind ≠ .eof from heof), unplaced,
        List.map_append]
      rfl

/-- The tokens have the same kind and text. -/
def Token.Alike (t t' : Token) : Prop :=
  t'.kind = t.kind ∧ t'.text = t.text

instance : DecidableRel Token.Alike :=
  fun t t' => inferInstanceAs (Decidable (t'.kind = t.kind ∧ t'.text = t.text))

theorem Token.map_unplaced_eq {tokens tokens' : List Token}
    (h : List.Forall₂ Alike tokens tokens') :
    tokens'.map unplaced = tokens.map unplaced := by
  induction h with
  | nil => rfl
  | @cons t t' ts ts' ht _ ih =>
    have hhead : t'.unplaced = t.unplaced := by
      unfold unplaced
      rw [ht.1, ht.2]
    rw [List.map_cons, List.map_cons, ih, hhead]

theorem Cursor.tokens_unplaced (c : Cursor) : c.unplaced.tokens = c.tokens.map Token.unplaced :=
  rfl

/-- Without positions, reading starts alike. -/
theorem Cursor.ofTokens_unplaced_eq {tokens tokens' : List Token}
    (h : List.Forall₂ Token.Alike tokens tokens') (file file' : String) :
    (ofTokens tokens' file').unplaced = (ofTokens tokens file).unplaced := by
  rw [ofTokens_unplaced, ofTokens_unplaced, Token.map_unplaced_eq h]

/-- Without positions, what is read from the tokens is the same. -/
theorem parse_unplaced {tokens tokens' : List Token}
    (h : List.Forall₂ Token.Alike tokens tokens') (file file' : String) :
    mapResult Diagnostic.unplaced Cursor.unplaced Program.unplaced (parse tokens' file') =
      mapResult Diagnostic.unplaced Cursor.unplaced Program.unplaced (parse tokens file) := by
  unfold parse
  rw [← Phrase.program_forgets, ← Phrase.program_forgets, Cursor.ofTokens_unplaced_eq h]

/-- Trees that are the same but for spans are left with the same annotations, whether checking
passes or fails, and with the same registry. -/
theorem annotate_alike {p p' : Program} (h : p'.unplaced = p.unplaced) (withBuiltins : Bool) :
    (annotate withBuiltins p').1.unplaced = (annotate withBuiltins p).1.unplaced ∧
    forgetting (fun u => u) (annotate withBuiltins p').2.1 =
      forgetting (fun u => u) (annotate withBuiltins p).2.1 ∧
    (annotate withBuiltins p').2.2 = (annotate withBuiltins p).2.2 := by
  have hleft := annotate_unplaced withBuiltins p'
  rw [h, annotate_unplaced] at hleft
  obtain ⟨htree, hrest⟩ := Prod.mk.inj hleft
  obtain ⟨houtcome, hregistry⟩ := Prod.mk.inj hrest
  exact ⟨htree.symm, houtcome.symm, hregistry.symm⟩

theorem typeCheck_alike {p p' : Program} (h : p'.unplaced = p.unplaced) (withBuiltins : Bool) :
    (typeCheck withBuiltins p').2 = (typeCheck withBuiltins p).2 ∧
    forgetting Program.unplaced (typeCheck withBuiltins p').1 =
      forgetting Program.unplaced (typeCheck withBuiltins p).1 := by
  have hchecked := typeCheck_unplaced withBuiltins p'
  rw [h, typeCheck_unplaced] at hchecked
  obtain ⟨hresult, hregistry⟩ := Prod.mk.inj hchecked
  exact ⟨hregistry.symm, hresult.symm⟩

/-- Where the same tokens cannot be read, reading stops in front of the same of them, each time
at the first that is left. -/
theorem parse_error_alike {tokens tokens' : List Token} {file file' : String}
    {d d' : Diagnostic} {c c' : Cursor} (h : List.Forall₂ Token.Alike tokens tokens')
    (herror : parse tokens file = .error d c) (herror' : parse tokens' file' = .error d' c') :
    ∃ i, (Cursor.ofTokens tokens file).tokens.drop i = c.current :: c.ahead ∧
      (Cursor.ofTokens tokens' file').tokens.drop i = c'.current :: c'.ahead ∧
      d.position = c.current.span.start ∧ d'.position = c'.current.span.start := by
  have hparse := parse_unplaced h file file'
  rw [herror, herror'] at hparse
  obtain ⟨_, hc⟩ := EStateM.Result.error.inj hparse
  obtain ⟨ts, htakes, hblames, _⟩ := parse_error herror
  obtain ⟨ts', htakes', hblames', _⟩ := parse_error herror'
  have hts : _ = ts ++ (c.current :: c.ahead) := htakes.tokens
  have hts' : _ = ts' ++ (c'.current :: c'.ahead) := htakes'.tokens
  -- as many tokens stand before, because as many are left of as many
  have hlength : ts'.length = ts.length := by
    have hstart := congrArg Cursor.tokens (Cursor.ofTokens_unplaced_eq h file file')
    have hleft := congrArg Cursor.tokens hc
    rw [Cursor.tokens_unplaced, Cursor.tokens_unplaced] at hstart hleft
    have hstarts := congrArg List.length hstart
    have hlefts := congrArg List.length hleft
    rw [List.length_map, List.length_map] at hstarts hlefts
    rw [htakes.tokens, htakes'.tokens, List.length_append, List.length_append, hlefts] at hstarts
    exact Nat.add_right_cancel hstarts
  refine ⟨ts.length, ?_, ?_, hblames.position, hblames'.position⟩
  · rw [hts, List.drop_left]
  · rw [hts', ← hlength, List.drop_left]

/-- **Layout does not matter.** Of two lists of tokens that agree but for spans and file names:

* if one of them is read as a program, the other one is read as the same program but for
  spans, with the same identities and as many of them; and with either set of built-in functions
  both leave the same registry, and both pass, with the same annotations, or fail for the same
  cause at the same node. Where checking fails, the annotations that it has made by then are the
  same too: `annotate` is the check that leaves the tree in any case;
* if one of them is refused, the other one is refused for the same cause. Reading has stopped
  after as many tokens, and each diagnostic is at the first of those that are left. -/
theorem layout_does_not_matter {tokens tokens' : List Token} (file file' : String)
    (h : List.Forall₂ Token.Alike tokens tokens') :
    (∀ p c, parse tokens file = .ok p c → ∃ p' c', parse tokens' file' = .ok p' c' ∧
      p'.unplaced = p.unplaced ∧ c'.nodeCount = c.nodeCount ∧
      ∀ withBuiltins,
        ((typeCheck withBuiltins p').2 = (typeCheck withBuiltins p).2 ∧
          forgetting Program.unplaced (typeCheck withBuiltins p').1 =
            forgetting Program.unplaced (typeCheck withBuiltins p).1) ∧
        ((annotate withBuiltins p').1.unplaced = (annotate withBuiltins p).1.unplaced ∧
          forgetting (fun u => u) (annotate withBuiltins p').2.1 =
            forgetting (fun u => u) (annotate withBuiltins p).2.1 ∧
          (annotate withBuiltins p').2.2 = (annotate withBuiltins p).2.2)) ∧
    (∀ d c, parse tokens file = .error d c → ∃ d' c', parse tokens' file' = .error d' c' ∧
      d'.cause = d.cause ∧ d'.node = d.node ∧
      ∃ i, (Cursor.ofTokens tokens file).tokens.drop i = c.current :: c.ahead ∧
        (Cursor.ofTokens tokens' file').tokens.drop i = c'.current :: c'.ahead ∧
        d.position = c.current.span.start ∧ d'.position = c'.current.span.start) := by
  -- without positions both give the same result, so only one case of each kind is left
  have hparse := parse_unplaced h file file'
  refine ⟨fun p c hok => ?_, fun d c herror => ?_⟩
  · rw [hok] at hparse
    cases hok' : parse tokens' file' with
    | error d' c' =>
      rw [hok'] at hparse
      cases hparse
    | ok p' c' =>
      rw [hok'] at hparse
      obtain ⟨hp, hc⟩ := EStateM.Result.ok.inj hparse
      have hcount : c'.unplaced.nodeCount = c.unplaced.nodeCount := by rw [hc]
      refine ⟨p', c', rfl, hp, hcount, fun withBuiltins => ?_⟩
      exact ⟨typeCheck_alike hp withBuiltins, annotate_alike hp withBuiltins⟩
  · rw [herror] at hparse
    cases herror' : parse tokens' file' with
    | ok p' c' =>
      rw [herror'] at hparse
      cases hparse
    | error d' c' =>
      rw [herror'] at hparse
      obtain ⟨hd, _⟩ := EStateM.Result.error.inj hparse
      have hcause : d'.unplaced.cause = d.unplaced.cause := by rw [hd]
      have hnode : d'.unplaced.node = d.unplaced.node := by rw [hd]
      exact ⟨d', c', rfl, hcause, hnode, parse_error_alike h herror herror'⟩

/-- Whether the sources consist of the same tokens. -/
def sameTokens (source source' : String) : Bool :=
  match tokenize source, tokenize source' with
  | .ok tokens, .ok tokens' => decide (List.Forall₂ Token.Alike tokens tokens')
  | _, _ => false

theorem exists_of_sameTokens {source source' : String} (h : sameTokens source source' = true) :
    ∃ tokens tokens', tokenize source = .ok tokens ∧ tokenize source' = .ok tokens' ∧
      List.Forall₂ Token.Alike tokens tokens' := by
  unfold sameTokens at h
  cases hscan : tokenize source with
  | error e => simp [hscan] at h
  | ok tokens =>
    cases hscan' : tokenize source' with
    | error e => simp [hscan, hscan'] at h
    | ok tokens' =>
      simp only [hscan, hscan', decide_eq_true_eq] at h
      exact ⟨tokens, tokens', rfl, rfl, h⟩

/-- A source that is read but not accepted, because `c` is not declared; a source of the same
tokens; and another pair that cannot be read. -/
theorem layout_does_not_matter_spaced :
    (∃ tokens tokens' p c p' c', tokenize "int a=-1,b=c;" = .ok tokens ∧
      tokenize "int /* a */ a = // one\n - 1\t, b = c;" = .ok tokens' ∧
      parse tokens "shell" = .ok p c ∧ parse tokens' "file" = .ok p' c' ∧
      (typeCheck true p).1.isOk = false ∧
      p'.unplaced = p.unplaced ∧ c'.nodeCount = c.nodeCount ∧
      (annotate true p').1.unplaced = (annotate true p).1.unplaced) ∧
    (∃ tokens tokens' d c d' c', tokenize "int a" = .ok tokens ∧
      tokenize "int // a\n a" = .ok tokens' ∧
      parse tokens "shell" = .error d c ∧ parse tokens' "file" = .error d' c' ∧
      d'.cause = d.cause ∧ d'.position = c'.current.span.start) := by
  constructor
  · have hfails : (readSource? "int a=-1,b=c;").map (fun p => (typeCheck true p).1.isOk) =
        some false := by decide +kernel
    obtain ⟨p, hp, hcheck⟩ := Option.map_eq_some_iff.mp hfails
    obtain ⟨tokens, c, hscan, hparse⟩ := exists_of_readSource? hp
    obtain ⟨tokens₁, tokens', hscan₁, hscan', halike⟩ := exists_of_sameTokens
      (show sameTokens "int a=-1,b=c;" "int /* a */ a = // one\n - 1\t, b = c;" = true by
        decide +kernel)
    cases hscan.symm.trans hscan₁
    obtain ⟨p', c', hparse', hp', hcount, hchecks⟩ :=
      (layout_does_not_matter "shell" "file" halike).1 p c hparse
    exact ⟨tokens, tokens', p, c, p', c', hscan, hscan', hparse, hparse', hcheck, hp', hcount,
      (hchecks true).2.1⟩
  · have hrefused : readsSource "int a" = false := by decide +kernel
    obtain ⟨tokens, tokens', hscan, hscan', halike⟩ := exists_of_sameTokens
      (show sameTokens "int a" "int // a\n a" = true by decide +kernel)
    cases hparse : parse tokens "shell" with
    | ok p c =>
      rw [readsSource, hscan] at hrefused
      simp only [hparse] at hrefused
      cases hrefused
    | error d c =>
      obtain ⟨d', c', hparse', hcause, _, i, _, _, _, hposition⟩ :=
        (layout_does_not_matter "shell" "file" halike).2 d c hparse
      exact ⟨tokens, tokens', d, c, d', c', hscan, hscan', hparse, hparse', hcause, hposition⟩

end CactLang
