import CactLang.Proofs.Reading.Statement
import Mathlib.Data.List.TakeWhile

/-!
# Reading programs

A function definition and a declaration of variables can start with the same two words,
and it takes the third to tell them apart. Where a text goes wrong within these words it
makes no difference which of the two is read: both read that far.
-/

namespace CactLang

open Spelling

/-! ## Function definitions -/

namespace FuncDef

/-- Function definitions, which the brace of the body ends. -/
def spelling : Spelling FuncDef where
  parts := parts
  Proper f := f.isWellFormed = true
  GoesOn _ _ := False
  IsRead := IsRead

/-- The words of a function definition, in their order. -/
theorem spells_iff {f : FuncDef} {ws : List Word} :
    spelling.Spells f ws ↔ ∃ u v,
      ws = Word.plain f.returns.token :: Word.name f.name :: Word.plain .openParen :: (u ++ v) ∧
        (Param.spelling.listUntil .closeParen).Spells f.params u ∧
        Block.spelling.Spells f.body v := by
  have hproper : spelling.Proper f ↔ (Param.spelling.listUntil .closeParen).Proper f.params ∧
      Block.spelling.Proper f.body := by
    show (f.params.all Param.isWellFormed && f.body.isWellFormed) = true ↔ _
    rw [Bool.and_eq_true, List.all_eq_true]
    exact Iff.rfl
  have hparts : spelling.parts f = .plain f.returns.token :: .name f.name :: .plain .openParen ::
      ((Param.spelling.listUntil .closeParen).parts f.params ++ f.body.parts) := by
    show parts f = .plain f.returns.token :: .name f.name :: .plain .openParen ::
      (commas (f.params.map Param.parts) ++ [Part.plain .closeParen] ++ f.body.parts)
    rw [parts, List.append_assoc]
    rfl
  unfold Spells
  rw [hproper, hparts]
  constructor
  · rintro ⟨⟨hparams, hbody⟩, hws⟩
    obtain ⟨_, rfl, hname⟩ := spelled_word.mp hws
    obtain ⟨_, rfl, hopen⟩ := spelled_word.mp hname
    obtain ⟨_, rfl, hrest⟩ := spelled_word.mp hopen
    obtain ⟨u, v, rfl, hu, hv⟩ := spelled_append.mp hrest
    exact ⟨u, v, rfl, ⟨hparams, hu⟩, hbody, hv⟩
  · rintro ⟨u, v, rfl, hu, hv⟩
    exact ⟨⟨hu.1, hv.1⟩, (hu.2.append hv.2).plain.word.plain⟩

/-- A function without parameters and statements, to complete what is missing. -/
def empty (returns : BasicType) (name : String) : FuncDef :=
  { id := default, name, returns, params := [], body := .plain default [] default, span := default }

/-- The shortest function definition there is, with which any beginning of one can
be completed. -/
theorem spells_empty (returns : BasicType) (name : String) :
    spelling.Spells (empty returns name) [.plain returns.token, .name name, .plain .openParen,
      .plain .closeParen, .plain .openCurly, .plain .closeCurly] :=
  spells_iff.mpr ⟨[.plain .closeParen], _, rfl, spells_listUntil_nil _ _,
    Block.spells_iff.mpr ⟨[], rfl, many_nil⟩⟩

end FuncDef

namespace Phrase

variable {c : Cursor}

instance : Forward funcDef := by
  unfold funcDef
  infer_instance

/-- The parameters up to the closing parenthesis are read back. -/
theorem params_tracks (c : Cursor) (hc : c.Closed) :
    (Param.spelling.listUntil .closeParen).Tracks (listUntil .closeParen param) c := by
  have hfirst : Param.spelling.StartsWith (· ≠ .closeParen) := by
    refine Param.startsWith.mono fun k hk hclose => ?_
    obtain ⟨t, rfl⟩ := hk
    cases t <;> exact TokenKind.noConfusion hclose
  exact listUntil_tracks (by decide) (by decide) hfirst (fun _ _ => TokenKind.noConfusion)
    (fun _ _ => TokenKind.noConfusion) c hc fun d hd _ => param_tracks d hd

/-- Function definitions are read as they are written. -/
theorem funcDef_reads (c : Cursor) (hc : c.Closed) : FuncDef.spelling.Reads [] funcDef c := by
  refine Reads.position fun start => ?_
  refine Reads.basicType hc ⟨_, _, FuncDef.spells_empty .void ""⟩ fun returns _ hc₁ => ?_
  refine Reads.identifier hc₁ ⟨_, _, FuncDef.spells_empty returns ""⟩ fun name hc₂ => ?_
  refine Reads.expect hc₂ (by decide) rfl ⟨_, _, FuncDef.spells_empty returns name⟩ fun hc₃ => ?_
  have hwhole : ∀ {params u body v}, (Param.spelling.listUntil .closeParen).Spells params u →
      Block.spelling.Spells body v → ∀ id span,
      FuncDef.spelling.Spells ⟨id, name, returns, params, body, span, none, none⟩
        ([] ++ [Word.plain returns.token] ++ [Word.name name] ++ [Word.plain .openParen] ++
          u ++ v) :=
    fun hu hv _ _ => FuncDef.spells_iff.mpr ⟨_, _, rfl, hu, hv⟩
  refine Reads.bind hc₃ (listUntil_reads (by decide) rfl param_reads _ hc₃) ?_ ?_
  · intro params u hu
    -- after the parameters an empty block would do
    have hbody : Block.spelling.Spells (.plain default [] default) _ :=
      Block.spells_iff.mpr ⟨[], rfl, many_nil⟩
    exact ⟨_, _, hwhole hu hbody default default⟩
  intro params u d hd
  refine Reads.bind hd.closed (block_reads d hd.closed) ?_ ?_
  · intro body v hv
    exact (hwhole hd.spells hv default default).viable
  intro body v e he
  exact Reads.node (hwhole hd.spells he.spells) fun _ _ => not_false

/-- A function definition that is written out is read back. -/
theorem funcDef_tracks (c : Cursor) (hc : c.Closed) : FuncDef.spelling.Tracks funcDef c := by
  intro f ws r hws hr
  obtain ⟨u, v, rfl, hu, hv⟩ := FuncDef.spells_iff.mp hws
  obtain ⟨w, x, rfl, _⟩ := hr
  have hvoid : f.returns.Fits true := Or.inl rfl
  refine .position fun start => .basicType hc hvoid fun hc₁ _ => .identifier hc₁ fun hc₂ _ => ?_
  refine .expect hc₂ (by decide) fun hc₃ _ => ?_
  have hparams := stops_of_never (S := Param.spelling.listUntil .closeParen) (a := f.params)
    (fun _ => not_false) v w x
  refine .bind hc₃ (params_tracks _ hc₃ f.params u _ hu hparams) fun params' d hparams' hd _ => ?_
  refine .bind_last hd (block_tracks d hd f.body v _ hv ⟨w, x, rfl, not_false⟩) ?_
  intro body' _ hbody _
  exact .node fun _ _ => FuncDef.IsRead.mk hparams' hbody

/-! ## The first three words -/

/-- A token of a data type names a basic type that variables may have. -/
theorem exists_basicType {k : TokenKind} (h : k.isDataType = true) :
    ∃ t : BasicType, t.Fits false ∧ k = t.token := by
  cases k <;> simp [TokenKind.isDataType] at h
  · exact ⟨.int32, Or.inr (by decide), rfl⟩
  · exact ⟨.bool, Or.inr (by decide), rfl⟩
  · exact ⟨.float, Or.inr (by decide), rfl⟩
  · exact ⟨.double, Or.inr (by decide), rfl⟩

/-- A token ahead is seen among the words. -/
theorem peek_kind {i : Nat} {w : Word} (h : c.words[i]? = some w) : (c.peek i).kind = w.kind := by
  unfold Cursor.words at h
  rw [List.getElem?_map, Option.map_eq_some_iff] at h
  obtain ⟨t, ht, rfl⟩ := h
  unfold Cursor.peek
  rw [show (c.current :: c.ahead)[i]? = some t from ht]
  rfl

/-- An element kind, a name and a parenthesis start a function definition. -/
theorem startsFuncDef_of_words {t : BasicType} {name : String} {x : List Word}
    (h : c.words.take 3 = .plain t.token :: .name name :: .plain .openParen :: x) :
    startsFuncDef c = true := by
  have hword : ∀ (i : Nat) (w : Word), (c.words.take 3)[i]? = some w → c.words[i]? = some w := by
    intro i w hw
    rw [List.getElem?_take] at hw
    split at hw
    · exact hw
    · exact absurd hw (by simp)
  have hkind : c.current.kind = t.token := by
    have h0 := hword 0 _ (by rw [h]; rfl)
    exact congrArg Word.kind (Option.some.inj h0)
  have h1 : (c.peek 1).kind = .identifier := peek_kind (hword 1 _ (by rw [h]; rfl))
  have h2 : (c.peek 2).kind = .openParen := peek_kind (hword 2 _ (by rw [h]; rfl))
  unfold startsFuncDef
  rw [hkind, h1, h2]
  cases t <;> rfl

/-- What starts a function definition is `void`, or an element kind, a name and a
parenthesis. -/
theorem words_of_startsFuncDef (h : startsFuncDef c = true) (hvoid : c.kind ≠ .kwVoid) :
    ∃ (t : BasicType) (name : String) (x : List Word),
      c.words = .plain t.token :: .name name :: .plain .openParen :: x := by
  unfold startsFuncDef at h
  rw [Bool.or_eq_true, Bool.and_eq_true, Bool.and_eq_true, decide_eq_true_eq, decide_eq_true_eq,
    decide_eq_true_eq] at h
  obtain ⟨⟨hdata, h1⟩, h2⟩ := h.resolve_left hvoid
  obtain ⟨t, _, ht⟩ := exists_basicType hdata
  unfold Cursor.peek at h1 h2
  cases hahead : c.ahead with
  | nil =>
    rw [hahead] at h1
    -- looking past the end gives the last token again, which cannot be both
    have hname : c.current.kind = .identifier := h1
    rw [hname] at hdata
    exact Bool.noConfusion hdata
  | cons second ahead =>
    rw [hahead] at h1 h2
    have hsecond : second.kind = .identifier := h1
    cases ahead with
    | nil =>
      have hparen : second.kind = .openParen := h2
      exact TokenKind.noConfusion (hsecond.symm.trans hparen)
    | cons third ahead =>
      have hthird : third.kind = .openParen := h2
      refine ⟨t, second.text, ahead.map Token.word, ?_⟩
      unfold Cursor.words Cursor.tokens
      rw [hahead, List.map_cons, List.map_cons, List.map_cons,
        Token.word_eq_plain ht t.token_plain.1, Token.word_eq_name hsecond,
        Token.word_eq_plain hthird rfl]


end Phrase

/-- After its name, a definition of a variable goes on with no parenthesis. -/
theorem VarDef.words_of_spells {isConstant : Bool} {d : VarDef} {v : List Word}
    (h : (VarDef.spelling isConstant).Spells d v) :
    ∃ x, v = .name d.name :: x ∧ ∀ w y, x = w :: y → w.kind ≠ .openParen := by
  -- dimensions start with `[`, if there are any
  have hbracket : ∀ {dims u}, Dimension.brackets.Spells dims u →
      ∀ w y, u = w :: y → w.kind ≠ .openParen := by
    intro dims u hu w y huw
    cases dims with
    | nil =>
      obtain rfl : u = [] := hu.2
      exact absurd huw (by simp)
    | cons dim dims =>
      obtain ⟨u₁, u₂, rfl, hu₁, _⟩ := of_many_cons hu
      obtain ⟨v, rfl, _⟩ := spells_bracketed.mp hu₁
      rw [← (List.cons.inj huw).1]
      exact TokenKind.noConfusion
  obtain ⟨id, name, dims, init, span, symbol⟩ := d
  cases init with
  | none =>
    obtain ⟨_, u, rfl, hu⟩ := VarDef.spells_none.mp h
    exact ⟨u, rfl, hbracket hu⟩
  | some init =>
    obtain ⟨u, x, rfl, hu, _⟩ := VarDef.spells_some.mp h
    refine ⟨_, rfl, fun w y huw => ?_⟩
    cases u with
    | nil =>
      rw [← (List.cons.inj huw).1]
      exact TokenKind.noConfusion
    | cons w' u =>
      rw [← (List.cons.inj huw).1]
      exact hbracket hu w' u rfl

/-- A declaration starts with `const`, or its third word is no parenthesis. -/
theorem Decl.words_of_spells {d : Decl} {ws : List Word} (h : Decl.spelling.Spells d ws) :
    (∃ x, ws = .plain .kwConst :: x) ∨ ∃ (t : BasicType) (name : String) (w : Word)
      (x : List Word), t.Fits false ∧ ws = .plain t.token :: .name name :: w :: x ∧
        w.kind ≠ .openParen := by
  obtain ⟨id, isConstant, basic, defs, span⟩ := d
  obtain ⟨hbasic, v, rfl, hv⟩ := Decl.spells_iff.mp h
  cases isConstant with
  | true => exact Or.inl ⟨_, rfl⟩
  | false =>
    obtain ⟨d, defs, rfl⟩ := List.exists_cons_of_ne_nil hv.1.1
    obtain ⟨us, vs, rfl, hus, hvs⟩ := spells_commaSeparated_cons.mp hv
    obtain ⟨x, rfl, hx⟩ := VarDef.words_of_spells hus
    refine Or.inr ⟨basic, d.name, ?_⟩
    cases x with
    | cons w x => exact ⟨w, _, hbasic, rfl, hx w x rfl⟩
    | nil =>
      cases defs with
      | nil =>
        obtain rfl : vs = [] := hvs.2
        exact ⟨_, _, hbasic, rfl, TokenKind.noConfusion⟩
      | cons d' defs =>
        obtain ⟨us', vs', rfl, hus', _⟩ := of_many_cons hvs
        obtain ⟨y, rfl, _⟩ := spells_after.mp hus'
        exact ⟨_, _, hbasic, rfl, TokenKind.noConfusion⟩

/-- A declaration of one variable, to complete what is missing. -/
theorem Decl.spells_single (t : BasicType) (ht : t.Fits false) (name : String) :
    Decl.spelling.Spells
      ⟨default, false, t, [⟨default, name, [], none, default, none⟩], default⟩
      [.plain t.token, .name name, .plain .semicolon] := by
  refine Decl.spells_iff.mpr ⟨ht, [.name name], rfl, spells_commaSeparated_cons.mpr ?_⟩
  exact ⟨_, [], rfl, VarDef.spells_none.mpr ⟨rfl, [], rfl, many_nil⟩, many_nil⟩

/-! ## Items -/

namespace Item

/-- Declarations and function definitions. -/
def spelling : Spelling Item where
  parts := parts
  Proper i := i.isWellFormed = true
  GoesOn _ _ := False
  IsRead := IsRead

/-- Items up to the end of the input. -/
def sequence : Spelling (List Item) :=
  spelling.many (· ≠ .eof)

/-- No item starts with the end of the input. -/
theorem startsWith : spelling.StartsWith (· ≠ .eof) := by
  intro i ws hws
  cases i with
  | decl d =>
    obtain ⟨w, u, rfl, hw⟩ := Decl.startsWith_startsDecl d ws hws
    refine ⟨w, u, rfl, fun heof => ?_⟩
    rw [heof] at hw
    exact Bool.noConfusion hw
  | func f =>
    obtain ⟨u, v, rfl, _⟩ := FuncDef.spells_iff.mp hws
    exact ⟨_, _, rfl, f.returns.token_plain.2⟩

end Item

namespace Phrase

variable {c : Cursor}

instance : Forward item := by
  unfold item
  infer_instance

/-- What starts like a function definition is read as one. -/
theorem item_func (h : startsFuncDef c = true) : item c = (Item.func <$> funcDef) c := by
  show (if startsFuncDef c = true then _ else _ : Phrase Item) c = _
  rw [if_pos h]

/-- What starts with a type, but not like a function definition, is read as a declaration. -/
theorem item_decl (h : ¬startsFuncDef c = true) (hk : c.kind.startsDecl = true) :
    item c = (Item.decl <$> decl) c := by
  show (if startsFuncDef c = true then _ else if c.kind.startsDecl = true then _ else _ :
    Phrase Item) c = _
  rw [if_neg h, if_pos hk]

/-- Anything else is blamed. -/
theorem item_refused (h : ¬startsFuncDef c = true) (hk : ¬c.kind.startsDecl = true) :
    item c = (unexpected "expected a declaration or function definition" : Phrase Item) c := by
  show (if startsFuncDef c = true then _ else if c.kind.startsDecl = true then _ else _ :
    Phrase Item) c = _
  rw [if_neg h, if_neg hk]

/-- Items are read as they are written. Two tokens after the first are looked at, and they are not
taken. -/
theorem item_reads (c : Cursor) (hc : c.Closed) : Item.spelling.Reads [] item c := by
  by_cases hfunc : startsFuncDef c = true
  · refine Reads.congr (item_func hfunc) ?_
    exact Reads.map (funcDef_reads c hc) (fun _ _ h => h) fun _ _ h => h
  by_cases hdecl : c.kind.startsDecl = true
  · refine Reads.congr (item_decl hfunc hdecl) ?_
    exact Reads.map (decl_reads c hc) (fun _ _ h => h) fun _ _ h => h
  · refine Reads.congr (item_refused hfunc hdecl) ?_
    -- nothing has been taken, and nothing is the beginning of any item
    have hspells : Item.spelling.Spells (.func (.empty .void "")) _ :=
      FuncDef.spells_empty .void ""
    exact Reads.unexpected ⟨_, _, hspells⟩

/-- Where a function definition starts, reading one gets as far as its parenthesis. -/
theorem funcDef_reaches (hc : c.Closed) (h : startsFuncDef c = true) (hvoid : c.kind ≠ .kwVoid) :
    (funcDef.after c).ahead.length + 3 ≤ c.ahead.length := by
  obtain ⟨t, name, x, hwords⟩ := words_of_startsFuncDef h hvoid
  have hfollows := funcDef_tracks c hc (.empty t name) _ [.plain .eof]
    (FuncDef.spells_empty t name) ⟨_, _, rfl, not_false⟩
  refine hfollows.reaches (by simp) ?_
  rw [hwords]
  rfl

/-- The words of a function definition show a parenthesis third, so the look ahead is right about
them. -/
theorem item_follows_func (hc : c.Closed) {f : FuncDef} {ws : List Word} {r : List Word}
    (hws : FuncDef.spelling.Spells f ws) (hr : FuncDef.spelling.Stops f r) :
    item.Follows c ws r (Item.IsRead · (.func f)) := by
  -- the lookahead sees three tokens, which may not be those of the text that is followed
  by_cases hfunc : startsFuncDef c = true
  · refine .congr (item_func hfunc) ?_
    exact .map (funcDef_tracks c hc f ws r hws hr) fun _ h => .func h
  intro n hn
  -- a declaration is read instead, and the texts do not agree beyond the name
  obtain ⟨u, v, rfl, _⟩ := FuncDef.spells_iff.mp hws
  cases n with
  | zero => exact Or.inr ⟨Nat.zero_le _, Forward.le c⟩
  | succ n =>
    have hshort : n ≤ 1 := by
      by_contra hlong
      have htake := congrArg (List.take 3) hn
      rw [List.take_take, List.take_take, Nat.min_eq_left (by omega)] at htake
      have hthree : c.words.take 3 =
          [.plain f.returns.token, .name f.name, .plain .openParen] := htake
      exact hfunc (startsFuncDef_of_words hthree)
    have hkind : c.kind = f.returns.token := congrArg Word.kind (List.cons.inj hn).1
    have hvoid : f.returns ≠ .void := by
      intro hvoid
      rw [hvoid] at hkind
      refine hfunc ?_
      unfold startsFuncDef
      rw [show c.current.kind = .kwVoid from hkind]
      rfl
    have hdecl : c.kind.startsDecl = true := by
      rw [hkind]
      cases hreturns : f.returns with
      | void => exact absurd hreturns hvoid
      | _ => rfl
    have hsingle := Decl.spells_single f.returns (Or.inr hvoid) f.name
    have hfollows := decl_tracks c hc _ _ [.plain .eof] hsingle ⟨_, _, rfl, not_false⟩
    refine Or.inr ⟨by simp only [List.length_cons]; omega, ?_⟩
    rw [after_congr (item_decl hfunc hdecl), after_map]
    refine hfollows.reaches (by simp only [List.length_cons, List.length_nil]; omega) ?_
    rw [hn]
    rcases Nat.le_one_iff_eq_zero_or_eq_one.mp hshort with rfl | rfl
    · rfl
    · rfl

/-- The words of a declaration show no parenthesis third. -/
theorem item_follows_decl (hc : c.Closed) {d : Decl} {ws : List Word} {r : List Word}
    (hws : Decl.spelling.Spells d ws) (hr : Decl.spelling.Stops d r) :
    item.Follows c ws r (Item.IsRead · (.decl d)) := by
  obtain ⟨w, u, hwu, hw⟩ := Decl.startsWith_startsDecl d ws hws
  refine .of_head (w := w) (u := u ++ r) (by rw [hwu]; rfl) fun hhead => ?_
  have hkind : c.kind = w.kind := congrArg Word.kind hhead
  have hdecl : c.kind.startsDecl = true := by
    rw [hkind]
    exact hw
  by_cases hfunc : startsFuncDef c = true
  · -- a function definition is read instead, and the texts do not agree beyond the name
    have hvoid : c.kind ≠ .kwVoid := by
      intro hvoid
      rw [hvoid] at hdecl
      exact Bool.noConfusion hdecl
    have hreach := funcDef_reaches hc hfunc hvoid
    obtain ⟨t', name', x', hwords⟩ := words_of_startsFuncDef hfunc hvoid
    intro n hn
    rcases Decl.words_of_spells hws with ⟨x, rfl⟩ | ⟨t, name, w₃, x, _, rfl, hw₃⟩
    · have hconst : c.kind = .kwConst := by
        rw [hkind, ← (List.cons.inj hwu).1]
        rfl
      have hfirst : c.kind = t'.token := congrArg Word.kind (List.cons.inj hwords).1
      rw [hconst] at hfirst
      cases t' <;> exact TokenKind.noConfusion hfirst
    · have hshort : n ≤ 2 := by
        by_contra hlong
        have htake := congrArg (List.take 3) hn
        rw [List.take_take, List.take_take, Nat.min_eq_left (by omega), hwords] at htake
        have hthird : Word.plain .openParen = w₃ := by
          have := congrArg (fun l => l[2]?) htake
          exact Option.some.inj this
        rw [← hthird] at hw₃
        exact hw₃ rfl
      refine Or.inr ⟨by simp only [List.length_cons]; omega, ?_⟩
      rw [after_congr (item_func hfunc), after_map]
      omega
  · refine .congr (item_decl hfunc hdecl) ?_
    exact .map (decl_tracks c hc d ws r hws hr) fun _ h => .decl h

/-- An item that is written out is read back. -/
theorem item_tracks (c : Cursor) (hc : c.Closed) : Item.spelling.Tracks item c := by
  intro i ws r hws hr
  cases i with
  | decl d => exact item_follows_decl hc hws hr
  | func f => exact item_follows_func hc hws hr

end Phrase

/-! ## Programs -/

namespace Program

/-- Programs, which end at the end of the input. -/
def spelling : Spelling Program where
  parts := parts
  Proper p := p.isWellFormed = true
  GoesOn _ k := k ≠ .eof
  IsRead := IsRead

/-- A program is spelled as its items are. -/
theorem spells_iff {id : NodeId} {items : List Item} {span : Span} {ws : List Word} :
    spelling.Spells ⟨id, items, span⟩ ws ↔ Item.sequence.Spells items ws := by
  have hproper : spelling.Proper ⟨id, items, span⟩ ↔ Item.sequence.Proper items := by
    show items.all Item.isWellFormed = true ↔ _
    rw [List.all_eq_true]
    exact Iff.rfl
  unfold Spells
  rw [hproper]
  exact Iff.rfl

end Program

namespace Phrase

/-- A program is read up to the first token that starts no item. -/
theorem program_reads (c : Cursor) (hc : c.Closed) : Program.spelling.Reads [] program c := by
  have hitems : ∀ d : Cursor, d.Closed →
      Item.sequence.Reads [] (many (· ≠ .eof) item) d :=
    many_reads rfl (Item.startsWith.mono fun _ _ => trivial) fun d hd _ => item_reads d hd
  refine Reads.freshId (Reads.position fun start => ?_)
  refine Reads.bind hc (hitems _ hc) ?_ ?_
  · intro items ws hws
    have hprogram : Program.spelling.Spells ⟨default, items, default⟩ ws :=
      Program.spells_iff.mpr hws
    exact hprogram.viable
  · intro items ws d hd
    refine Reads.position fun stop => Reads.pure (Program.spells_iff.mpr hd.spells) fun h => ?_
    exact hd.stops (Or.inl (decide_eq_true h))

/-- A program that is written out is read back. -/
theorem program_tracks (c : Cursor) (hc : c.Closed) : Program.spelling.Tracks program c := by
  intro p ws r hws hr
  obtain ⟨id, items, span⟩ := p
  obtain ⟨w, u, rfl, heof⟩ := hr
  have hitems : ∀ d : Cursor, d.Closed → Item.sequence.Tracks (many (· ≠ .eof) item) d :=
    fun d hd => many_tracks rfl (Item.startsWith.mono fun _ h => decide_eq_true h)
      (fun _ _ _ _ _ _ => not_false) d hd fun d hd _ => item_tracks d hd
  -- the items go on up to the end of the input, whatever follows the last one
  have hstops : Item.sequence.Stops items (w :: u) := by
    refine ⟨w, u, rfl, ?_⟩
    rintro (hmore | ⟨_, _, hgoes⟩)
    · have hne : w.kind ≠ .eof := of_decide_eq_true hmore
      exact heof hne
    · exact hgoes
  refine .freshId (.position fun start => ?_)
  have hc₁ : Cursor.Closed { c with nodeCount := c.nodeCount + 1 } := hc
  refine .bind_last hc₁ (hitems _ hc₁ items ws _ (Program.spells_iff.mp hws) hstops)
    fun items' d h _ => ?_
  exact .position fun stop => .pure (Program.IsRead.mk h)

end Phrase

/-! ## Inputs -/

namespace Token

/-- The content of a list of tokens stops before its first end. -/
theorem content_inner {tokens : List Token} : ∀ t ∈ content tokens, t.kind ≠ .eof := by
  intro t ht
  have hkind : decide (t.kind ≠ .eof) = true :=
    List.mem_takeWhile_imp (p := fun t : Token => decide (t.kind ≠ .eof)) ht
  exact of_decide_eq_true hkind

/-- Tokens before the first end are content. -/
theorem content_append {before rest : List Token} (hbefore : ∀ t ∈ before, t.kind ≠ .eof) :
    content (before ++ rest) = before ++ content rest :=
  List.takeWhile_append_of_pos fun t ht => decide_eq_true (hbefore t ht)

theorem content_cons {t : Token} {rest : List Token} (ht : t.kind ≠ .eof) :
    content (t :: rest) = t :: content rest :=
  List.takeWhile_cons_of_pos (decide_eq_true ht)

/-- What stands before the first end of the input is the content. -/
theorem content_eq {before rest : List Token} {t : Token} (hbefore : ∀ t ∈ before, t.kind ≠ .eof)
    (ht : t.kind = .eof) : content (before ++ t :: rest) = before := by
  have hend : content (t :: rest) = [] := List.takeWhile_cons_of_neg (by simp [ht])
  rw [content_append hbefore, hend, List.append_nil]

/-- Where no token ends the input, all is content. -/
theorem content_self {before : List Token} (hbefore : ∀ t ∈ before, t.kind ≠ .eof) :
    content before = before :=
  List.takeWhile_eq_self_iff.mpr fun t ht => decide_eq_true (hbefore t ht)

/-- A list of tokens ends in its content, or another token ends the input. -/
theorem content_cases (tokens : List Token) :
    content tokens = tokens ∨
      ∃ t rest, tokens = content tokens ++ t :: rest ∧ t.kind = .eof := by
  have hsplit := List.takeWhile_append_dropWhile (p := fun t : Token => decide (t.kind ≠ .eof))
    (l := tokens)
  cases hdrop : tokens.dropWhile fun t => decide (t.kind ≠ .eof) with
  | nil =>
    rw [hdrop, List.append_nil] at hsplit
    exact Or.inl hsplit
  | cons t rest =>
    rw [hdrop] at hsplit
    refine Or.inr ⟨t, rest, hsplit.symm, ?_⟩
    have hhead := List.head?_dropWhile_not (fun t : Token => decide (t.kind ≠ .eof)) tokens
    rw [hdrop] at hhead
    simpa using hhead

end Token

namespace Cursor

/-- An input is its tokens, with an end after them if the last one is none. -/
theorem ofTokens_cases (tokens : List Token) (file : String) :
    ((ofTokens tokens file).tokens = tokens ∧ ∃ t ∈ tokens.getLast?, t.kind = .eof) ∨
      ∃ t, (ofTokens tokens file).tokens = tokens ++ [t] ∧ t.kind = .eof ∧
        ∀ t ∈ tokens.getLast?, t.kind ≠ .eof := by
  cases tokens with
  | nil => exact Or.inr ⟨.endOfInput ⟨0, file⟩, rfl, rfl, fun _ h => absurd h (by simp)⟩
  | cons first rest =>
    have hgetLast : (first :: rest).getLast? = some (rest.getLastD first) := by
      rw [List.getLast?_cons, List.getLastD_eq_getLast?]
    rw [hgetLast]
    unfold Cursor.tokens ofTokens
    dsimp only
    by_cases hlast : (rest.getLastD first).kind = .eof
    · rw [if_pos hlast, List.append_nil]
      exact Or.inl ⟨rfl, _, rfl, hlast⟩
    · rw [if_neg hlast]
      refine Or.inr ⟨_, rfl, rfl, fun t ht => ?_⟩
      rw [← Option.some.inj ht]
      exact hlast

/-- The list of tokens is closed when a cursor is put on it, so every input ends. -/
theorem ofTokens_closed (tokens : List Token) (file : String) :
    (ofTokens tokens file).Closed := by
  unfold Closed
  rcases ofTokens_cases tokens file with ⟨htokens, t, ht, heof⟩ | ⟨t, htokens, heof, _⟩
  · rw [htokens]
    exact ⟨t, List.mem_of_getLast? ht, heof⟩
  · rw [htokens]
    exact ⟨t, List.mem_append_right _ (List.mem_singleton_self t), heof⟩

/-- An input that ends in an end is as it is. -/
theorem ofTokens_ended {before : List Token} {last : Token} {file : String}
    (hlast : last.kind = .eof) :
    (ofTokens (before ++ [last]) file).tokens = before ++ [last] := by
  rcases ofTokens_cases (before ++ [last]) file with ⟨htokens, _⟩ | ⟨_, _, _, hno⟩
  · exact htokens
  · exact absurd hlast (hno last (by rw [List.getLast?_append]; rfl))

/-- After its content an input ends. -/
theorem ofTokens_content (tokens : List Token) (file : String) :
    ∃ t rest, (ofTokens tokens file).tokens = Token.content tokens ++ t :: rest ∧
      t.kind = .eof := by
  rcases Token.content_cases tokens with hcontent | ⟨t, rest, hsplit, ht⟩
  · rcases ofTokens_cases tokens file with ⟨_, t, ht, heof⟩ | ⟨t, htokens, heof, _⟩
    · rw [← hcontent] at ht
      exact absurd heof (Token.content_inner t (List.mem_of_getLast? ht))
    · rw [htokens, hcontent]
      exact ⟨t, [], rfl, heof⟩
  · rcases ofTokens_cases tokens file with ⟨htokens, _⟩ | ⟨u, htokens, _⟩
    · rw [htokens]
      exact ⟨t, rest, hsplit, ht⟩
    · refine ⟨t, rest ++ [u], ?_, ht⟩
      rw [htokens, ← List.cons_append, ← List.append_assoc, ← hsplit]

end Cursor

/-- What is read as a program are the words of its content, and it is read up to the end of
the input. -/
theorem parse_ok {tokens : List Token} {file : String} {p : Program} {c : Cursor}
    (h : parse tokens file = .ok p c) :
    Program.spelling.Spells p ((Token.content tokens).map Token.word) ∧
      (Cursor.ofTokens tokens file).tokens = Token.content tokens ++ c.tokens ∧
      c.current.kind = .eof := by
  have hreads := Phrase.program_reads _ (Cursor.ofTokens_closed tokens file)
  unfold Reads at hreads
  rw [show Phrase.program (Cursor.ofTokens tokens file) = .ok p c from h] at hreads
  obtain ⟨ts, htakes, hspells, hstops⟩ := hreads
  have heof : c.current.kind = .eof := not_not.mp hstops
  obtain ⟨t, rest, hcontent, ht⟩ := Cursor.ofTokens_content tokens file
  have hts : ts = Token.content tokens := by
    calc ts
      _ = Token.content (ts ++ c.tokens) := (Token.content_eq htakes.inner heof).symm
      _ = Token.content (Token.content tokens ++ t :: rest) := by rw [← htakes.tokens, hcontent]
      _ = Token.content tokens := Token.content_eq Token.content_inner ht
  rw [hts] at htakes hspells
  exact ⟨hspells, htakes.tokens, heof⟩

/-- What cannot be read as a program begins like one up to the token that is blamed. -/
theorem parse_error {tokens : List Token} {file : String} {d : Diagnostic} {c : Cursor}
    (h : parse tokens file = .error d c) :
    ∃ before, (Cursor.ofTokens tokens file).Takes before c ∧ c.Blames d ∧
      Program.spelling.Viable (before.map Token.word) := by
  have hreads := Phrase.program_reads _ (Cursor.ofTokens_closed tokens file)
  unfold Reads at hreads
  rw [show Phrase.program (Cursor.ofTokens tokens file) = .error d c from h] at hreads
  exact hreads

/-- The words of a program are read as that program if nothing or the end of the input stands
after them. -/
theorem parse_of_words {tokens : List Token} {file : String} {p : Program} {ws u : List Word}
    (hws : Program.spelling.Spells p ws) (hwords : (Cursor.ofTokens tokens file).words = ws ++ u)
    (hu : ∀ w ∈ u.head?, w.kind = .eof) :
    ∃ p' c, parse tokens file = .ok p' c ∧ p'.IsRead p := by
  have htracks := Phrase.program_tracks _ (Cursor.ofTokens_closed tokens file)
  cases u with
  | nil =>
    -- the program cannot have been read to the end without all of it being read
    have hfollows := htracks p ws [.plain .eof] hws ⟨_, _, rfl, not_not.mpr rfl⟩
    rcases hfollows ws.length (by rw [hwords]; simp) with ⟨p', c, _, hrun, hp', _⟩ | ⟨_, hreach⟩
    · exact ⟨p', c, hrun, hp'⟩
    · have hlength := congrArg List.length hwords
      simp only [Cursor.words, Cursor.tokens, List.length_map, List.length_cons,
        List.append_nil] at hlength
      omega
  | cons w u =>
    have hstops : Program.spelling.Stops p (w :: u) := ⟨w, u, rfl, not_not.mpr (hu w rfl)⟩
    rcases htracks p ws (w :: u) hws hstops (ws.length + 1) (by rw [hwords]) with
      ⟨p', c, _, hrun, hp', _⟩ | ⟨hle, _⟩
    · exact ⟨p', c, hrun, hp'⟩
    · omega

end CactLang
