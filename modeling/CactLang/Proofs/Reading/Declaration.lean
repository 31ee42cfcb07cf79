import CactLang.Proofs.Reading.Expression

/-!
# Reading declarations

A dimension is the only part that can be written in two ways, so it is the only one whose
words do not follow from it. An initializer without braces is an expression and ends where
that ends; a variable without one may still take dimensions or an initializer, while a
constant has to.
-/

namespace CactLang

open Spelling

/-! ## Types and names -/

/-- Whether an element kind can stand at a place: `void` only where it is allowed. -/
def BasicType.Fits (t : BasicType) (allowVoid : Bool) : Prop :=
  allowVoid = true ∨ t ≠ .void

/-- A token names one basic type at most. -/
theorem BasicType.token_injective {t t' : BasicType} (h : t.token = t'.token) : t = t' := by
  revert h
  cases t <;> cases t' <;> decide

/-- The keyword of an element kind has no text and does not end the input. -/
theorem BasicType.token_plain (t : BasicType) : t.token.hasText = false ∧ t.token ≠ .eof := by
  cases t <;> decide

namespace Phrase

variable {c : Cursor} {allowVoid : Bool} {t : BasicType}

instance : Forward (basicType allowVoid) := by
  unfold basicType
  refine .bind inferInstance fun k => ?_
  dsimp only
  split <;> infer_instance

instance (place : String) : Forward (identifier place) := by
  unfold identifier
  infer_instance

/-- An element kind that fits is read, and any other token is blamed. -/
theorem basicType_cases (allowVoid : Bool) (c : Cursor) :
    (∃ t : BasicType, t.Fits allowVoid ∧ c.kind = t.token ∧
      basicType allowVoid c = .ok t c.advance) ∨
    ((∀ t : BasicType, t.Fits allowVoid → c.kind ≠ t.token) ∧
      basicType allowVoid c = .error (c.unexpected "expected a type") c) := by
  rw [basicType, kind_bind]
  split
  next hk => exact Or.inl ⟨.int32, Or.inr (by decide), hk, rfl⟩
  next hk => exact Or.inl ⟨.bool, Or.inr (by decide), hk, rfl⟩
  next hk => exact Or.inl ⟨.float, Or.inr (by decide), hk, rfl⟩
  next hk => exact Or.inl ⟨.double, Or.inr (by decide), hk, rfl⟩
  next hk =>
    cases allowVoid with
    | true => exact Or.inl ⟨.void, Or.inl rfl, hk, rfl⟩
    | false =>
      refine Or.inr ⟨fun t ht heq => ?_, rfl⟩
      rw [hk] at heq
      cases t with
      | void => exact ht.elim (by simp) (· rfl)
      | _ => exact TokenKind.noConfusion heq
  next h₁ h₂ h₃ h₄ h₅ =>
    refine Or.inr ⟨fun t _ heq => ?_, rfl⟩
    cases t with
    | int32 => exact h₁ heq
    | bool => exact h₂ heq
    | float => exact h₃ heq
    | double => exact h₄ heq
    | void => exact h₅ heq

/-- On the token of a type that is allowed, this type is read. -/
theorem basicType_ok (hk : c.kind = t.token) (ht : t.Fits allowVoid) :
    basicType allowVoid c = .ok t c.advance := by
  rcases basicType_cases allowVoid c with ⟨t', _, hk', hrun⟩ | ⟨hno, _⟩
  · obtain rfl : t = t' := BasicType.token_injective (hk.symm.trans hk')
    exact hrun
  · exact absurd hk (hno t ht)

end Phrase

section Steps

variable {α : Type} {S : Spelling α} {c : Cursor} {before ws r : List Word} {Q : α → Prop}

/-- The token of a type is taken, and its word with it. -/
theorem Spelling.Reads.basicType {allowVoid : Bool} {f : BasicType → Phrase α} (hc : c.Closed)
    (hviable : S.Viable before)
    (h : ∀ t, t.Fits allowVoid → c.advance.Closed →
      S.Reads (before ++ [Word.plain t.token]) (f t) c.advance) :
    S.Reads before (Phrase.basicType allowVoid >>= f) c := by
  rcases Phrase.basicType_cases allowVoid c with ⟨t, ht, hk, hrun⟩ | ⟨_, hrun⟩
  · have hne : c.kind ≠ .eof := by
      rw [hk]
      exact t.token_plain.2
    have hadvance : (Phrase.basicType allowVoid >>= f) c = (Phrase.advance >>= fun _ => f t) c :=
      Phrase.bind_of_ok hrun
    refine Reads.congr hadvance ?_
    refine Reads.advance hc hne fun hc₁ => ?_
    rw [Token.word_eq_plain hk t.token_plain.1]
    exact h t ht hc₁
  · exact Reads.congr (Phrase.bind_of_error hrun) (Reads.unexpected hviable)

/-- The first word is the one of a type that is allowed. -/
theorem Phrase.Follows.basicType {allowVoid : Bool} {t : BasicType} {f : BasicType → Phrase α}
    [∀ t, Forward (f t)] (hc : c.Closed) (ht : t.Fits allowVoid)
    (h : c.advance.Closed → c.advance.ahead.length + 1 = c.ahead.length →
      Follows (f t) c.advance ws r Q) :
    Follows (Phrase.basicType allowVoid >>= f) c (.plain t.token :: ws) r Q := by
  refine .step (f := fun _ => f t) hc t.token_plain.2 (fun hk => ?_) (Forward.le c) fun _ => h
  exact bind_of_ok (Phrase.basicType_ok hk ht)

/-- A name is taken, and its word with it. -/
theorem Spelling.Reads.identifier {place : String} {f : String → Phrase α} (hc : c.Closed)
    (hviable : S.Viable before)
    (h : ∀ name, c.advance.Closed →
      S.Reads (before ++ [Word.name name]) (f name) c.advance) :
    S.Reads before (Phrase.identifier place >>= f) c := by
  unfold Phrase.identifier
  rw [bind_assoc]
  refine Reads.expectOr hc (by decide) (Or.inr ⟨_, rfl⟩) hviable fun hk hc₁ => ?_
  rw [Token.word_eq_name hk, pure_bind]
  exact h _ hc₁

/-- The first word is a name. -/
theorem Phrase.Follows.identifier {place name : String} {f : String → Phrase α}
    [∀ name, Forward (f name)] (hc : c.Closed)
    (h : c.advance.Closed → c.advance.ahead.length + 1 = c.ahead.length →
      Follows (f name) c.advance ws r Q) :
    Follows (Phrase.identifier place >>= f) c (.name name :: ws) r Q := by
  unfold Phrase.identifier
  rw [bind_assoc]
  refine .expectOr hc rfl (by decide) fun hhead hc₁ hlength => ?_
  rw [pure_bind, Token.text_eq hhead rfl]
  exact h hc₁ hlength

end Steps

/-! ## Dimensions -/

/-- A dimension between its brackets. -/
def Dimension.spelling : Spelling Dimension where
  parts d := [.dimension d.text]
  Proper _ := True
  GoesOn _ _ := False
  IsRead := IsRead

/-- The brackets of a variable. -/
def Dimension.brackets : Spelling (List Dimension) :=
  Dimension.spelling.bracketed.many (· = .openBracket)

/-- A dimension is an integer literal, or a dash and one. -/
theorem Dimension.spells_iff {d : Dimension} {ws : List Word} :
    Dimension.spelling.Spells d ws ↔ ws = [.number .integer d.text] ∨
      ∃ digits, d.text = "-" ++ digits ∧ ws = [Word.plain .dash, .number .integer digits] := by
  constructor
  · rintro ⟨_, u, _, rfl, hu, rfl⟩
    rw [List.append_nil]
    exact hu
  · intro h
    exact ⟨trivial, ws, [], (List.append_nil ws).symm, h, rfl⟩

namespace Phrase

variable {c : Cursor}

instance : Forward dimension := by
  unfold dimension
  dsimp only
  infer_instance

/-- Dimensions are read as they are written. -/
theorem dimension_reads (c : Cursor) (hc : c.Closed) :
    Dimension.spelling.Reads [] dimension c := by
  refine Reads.position fun start => Reads.kind ?_
  dsimp only
  -- with a minus or without, a number has to follow, and `0` would do
  by_cases hk : c.kind = .dash
  · rw [if_pos hk]
    refine Reads.advance hc (by rw [hk]; decide) fun hc₁ => ?_
    rw [Token.word_eq_plain hk rfl]
    refine Reads.expectOr hc₁ (by decide) (Or.inr ⟨_, rfl⟩) ?_ fun hk₁ _ => ?_
    · exact ⟨⟨"-" ++ "0", default⟩, [.number .integer "0"],
        Dimension.spells_iff.mpr (Or.inr ⟨"0", rfl, rfl⟩)⟩
    · rw [Token.word_eq_number .integer hk₁, if_pos hk]
      refine Reads.spanFrom fun span => Reads.pure ?_ id
      exact Dimension.spells_iff.mpr (Or.inr ⟨c.advance.current.text, rfl, rfl⟩)
  · rw [if_neg hk]
    refine Reads.expectOr hc (by decide) (Or.inr ⟨_, rfl⟩) ?_ fun hk₁ _ => ?_
    · exact ⟨⟨"0", default⟩, [.number .integer "0"], Dimension.spells_iff.mpr (Or.inl rfl)⟩
    · rw [Token.word_eq_number .integer hk₁, if_neg hk]
      exact Reads.spanFrom fun span => Reads.pure (Dimension.spells_iff.mpr (Or.inl rfl)) id

/-- A dimension that is written out is read back. -/
theorem dimension_tracks (c : Cursor) (hc : c.Closed) :
    Dimension.spelling.Tracks dimension c := by
  intro d ws r hws _
  obtain ⟨text, span⟩ := d
  have hws := Dimension.spells_iff.mp hws
  refine .position fun start => ?_
  rcases hws with rfl | ⟨digits, rfl, rfl⟩
  · refine .look rfl rfl ?_
    have hk : (Word.number .integer text).kind ≠ .dash := TokenKind.noConfusion
    dsimp only
    rw [if_neg hk]
    refine .expectOr hc rfl (by decide) fun hhead _ _ => ?_
    rw [if_neg hk, Token.text_eq hhead rfl]
    exact .spanFrom fun _ => .pure Dimension.IsRead.mk
  · refine .look_plain rfl ?_
    dsimp only
    rw [if_pos rfl]
    refine .advance hc TokenKind.noConfusion fun _ hc₁ _ => ?_
    refine .expectOr hc₁ rfl (by decide) fun hhead _ _ => ?_
    rw [if_pos rfl, Token.text_eq hhead rfl]
    exact .spanFrom fun _ => .pure Dimension.IsRead.mk

/-- Dimensions in brackets are read as they are written. -/
theorem brackets_reads (c : Cursor) (hc : c.Closed) :
    Dimension.brackets.Reads [] (bracketed dimension) c :=
  bracketed_reads dimension_reads c hc

/-- Dimensions in brackets are read back. -/
theorem brackets_tracks (c : Cursor) (hc : c.Closed) :
    Dimension.brackets.Tracks (bracketed dimension) c :=
  bracketed_tracks (fun _ _ => id) c hc fun d hd _ => dimension_tracks d hd

end Phrase

/-! ## Initializers -/

namespace Initializer

/-- Initializers: one without braces goes on as its expression does. -/
def spelling : Spelling Initializer where
  parts := parts
  Proper i := i.isWellFormed = true
  GoesOn
    | .scalar _ value _, k => (Expr.spelling .lowest).GoesOn value k
    | .list .., _ => False
  IsRead := IsRead

variable {id : NodeId} {span : Span} {ws : List Word}

theorem spells_scalar {value : Expr} :
    spelling.Spells (.scalar id value span) ws ↔ (Expr.spelling .lowest).Spells value ws :=
  Expr.spells_lowest.symm

/-- A list of initial values stands in curly brackets. -/
theorem spells_list {items : List Initializer} :
    spelling.Spells (.list id items span) ws ↔
      ∃ v, ws = .plain .openCurly :: v ∧ (spelling.listUntil .closeCurly).Spells items v := by
  have hproper : spelling.Proper (.list id items span) ↔
      (spelling.listUntil .closeCurly).Proper items := areWellFormed_iff items
  have hparts : spelling.parts (.list id items span) =
      .plain .openCurly :: (spelling.listUntil .closeCurly).parts items := by
    show parts (.list id items span) = _
    rw [parts, allParts_eq_map]
    rfl
  unfold Spells
  rw [hproper, hparts]
  constructor
  · rintro ⟨hp, hws⟩
    obtain ⟨v, rfl, hv⟩ := spelled_word.mp hws
    exact ⟨v, rfl, hp, hv⟩
  · rintro ⟨v, rfl, hp, hv⟩
    exact ⟨hp, hv.plain⟩

/-- An initializer starts with a brace or as an expression does. -/
theorem startsWith :
    spelling.StartsWith fun k => k = .openCurly ∨ ∃ form, OperandForm.ofToken? k = some form := by
  intro i ws hws
  cases i with
  | scalar id value span =>
    obtain ⟨w, u, rfl, hw⟩ := Expr.startsWith .lowest value ws (spells_scalar.mp hws)
    exact ⟨w, u, rfl, Or.inr hw⟩
  | list id items span =>
    obtain ⟨v, rfl, _⟩ := spells_list.mp hws
    exact ⟨_, v, rfl, Or.inl rfl⟩

/-- An initializer ends before a token that is no operator and opens nothing. -/
theorem not_goesOn {i : Initializer} {k : TokenKind}
    (h : k ≠ .openBracket ∧ k ≠ .openParen ∧ Precedence.ofToken? k = none) :
    ¬spelling.GoesOn i k := by
  cases i with
  | scalar id value span => exact Expr.not_goesOn h
  | list id items span => exact not_false

/-- An initializer, to complete what is missing. -/
def zero : Initializer :=
  .scalar default .zero default

theorem spells_zero : spelling.Spells zero [.number .integer "0"] :=
  spells_scalar.mpr Expr.spells_zero

end Initializer

namespace Phrase

variable {init : Phrase Initializer} {c : Cursor}

instance [Forward init] : Forward (initializerWith init) := by
  unfold initializerWith
  infer_instance

instance (levels : Nat) : Forward (initializerWithin levels) := by
  induction levels with
  | zero =>
    unfold initializerWithin
    infer_instance
  | succ levels ih =>
    unfold initializerWithin
    infer_instance

instance : Forward initializer := by
  unfold initializer
  infer_instance

/-- Initial values are read as they are written, however many levels of nesting are left. -/
theorem initializerWithin_reads (levels : Nat) :
    ∀ c : Cursor, c.Closed → Initializer.spelling.Reads [] (initializerWithin levels) c := by
  induction levels with
  | zero =>
    intro c _
    -- no levels left: the failure is right as long as something could have followed
    exact Reads.unexpected ⟨_, _, Initializer.spells_zero⟩
  | succ levels ih =>
    intro c hc
    refine Reads.position fun start => Reads.kind ?_
    by_cases hk : c.kind = .openCurly
    · rw [if_pos hk]
      refine Reads.advance hc (by rw [hk]; decide) fun hc₁ => ?_
      rw [Token.word_eq_plain hk rfl]
      refine Reads.bind hc₁ (listUntil_reads (by decide) rfl ih _ hc₁) ?_ ?_
      · intro items ws hws
        have hlist : Initializer.spelling.Spells (.list default items default) _ :=
          Initializer.spells_list.mpr ⟨ws, rfl, hws⟩
        exact hlist.viable
      · intro items ws d hd
        refine Reads.node (fun id span => ?_) fun _ _ => id
        exact Initializer.spells_list.mpr ⟨ws, rfl, hd.spells⟩
    · rw [if_neg hk]
      refine Reads.bind hc (expr_reads .lowest c hc) ?_ ?_
      · intro value ws hws
        have hscalar : Initializer.spelling.Spells (.scalar default value default) ws :=
          Initializer.spells_scalar.mpr hws
        exact hscalar.viable
      · intro value ws d hd
        exact Reads.node (fun id span => Initializer.spells_scalar.mpr hd.spells)
          fun _ _ => hd.stops

/-- Initial values are read back if they have fewer tokens than there are levels. -/
theorem initializerWithin_tracks (levels : Nat) :
    ∀ c : Cursor, c.Closed → c.ahead.length < levels →
      Initializer.spelling.Tracks (initializerWithin levels) c := by
  induction levels with
  | zero =>
    intro c _ h
    exact absurd h (Nat.not_lt_zero _)
  | succ levels ih =>
    intro c hc hlevels i ws r hws hr
    refine .position fun start => ?_
    cases i with
    | scalar id value span =>
      have hvalue := Initializer.spells_scalar.mp hws
      obtain ⟨w, u, rfl, form, hform⟩ := Expr.startsWith .lowest value ws hvalue
      -- an expression never starts as a list does
      have hk : w.kind ≠ .openCurly := by
        intro hcurly
        rw [hcurly] at hform
        exact absurd hform (by simp [OperandForm.ofToken?])
      refine .look rfl rfl ?_
      rw [if_neg hk]
      refine .bind_last hc (expr_tracks .lowest c hc value _ r hvalue hr) fun value' d h _ => ?_
      exact .node fun _ _ => Initializer.IsRead.scalar h
    | list id items span =>
      obtain ⟨v, rfl, hv⟩ := Initializer.spells_list.mp hws
      refine .look_plain rfl ?_
      rw [if_pos rfl]
      refine .advance hc TokenKind.noConfusion fun _ hc₁ hlength => ?_
      -- an item never starts as the end of the list
      have hfirst : Initializer.spelling.StartsWith (· ≠ .closeCurly) := by
        refine Initializer.startsWith.mono fun k hk hclose => ?_
        rw [hclose] at hk
        exact absurd hk (by simp [OperandForm.ofToken?])
      have hlist : (Initializer.spelling.listUntil .closeCurly).Tracks
          (listUntil .closeCurly (initializerWithin levels)) c.advance :=
        listUntil_tracks (by decide) (by decide) hfirst
          (fun _ _ => Initializer.not_goesOn (by decide))
          (fun _ _ => Initializer.not_goesOn (by decide)) _ hc₁ fun d hd hle => ih d hd (by omega)
      obtain ⟨w, u, rfl, _⟩ := hr
      refine .bind_last hc₁ (hlist items v _ hv ⟨w, u, rfl, not_false⟩) fun items' d h _ => ?_
      exact .node fun _ _ => Initializer.IsRead.list h

/-- Initial values are read as they are written. -/
theorem initializer_reads (c : Cursor) (hc : c.Closed) :
    Initializer.spelling.Reads [] initializer c := by
  have hrun : initializer c = initializerWithin (c.ahead.length + 1) c := rfl
  exact Reads.congr hrun (initializerWithin_reads _ c hc)

/-- Initial values that are written out are read back. -/
theorem initializer_tracks (c : Cursor) (hc : c.Closed) :
    Initializer.spelling.Tracks initializer c := by
  have hrun : initializer c = initializerWithin (c.ahead.length + 1) c := rfl
  exact Tracks.congr hrun (initializerWithin_tracks _ c hc (Nat.lt_succ_self _))

end Phrase

/-! ## Definitions of variables -/

theorem Dimension.spells_brackets {dims : List Dimension} {ws : List Word} :
    Dimension.brackets.Spells dims ws ↔ Spelled (Dimension.allParts dims) ws :=
  ⟨And.right, fun h => ⟨fun _ _ => trivial, h⟩⟩

/-- Brackets end before every token but another bracket. -/
theorem Dimension.brackets_stops {dims : List Dimension} {k : TokenKind}
    (h : k ≠ .openBracket) : ¬Dimension.brackets.GoesOn dims k := by
  rintro (hk | ⟨_, _, hk⟩)
  · exact h (of_decide_eq_true hk)
  · exact hk

namespace VarDef

/-- Definitions: without an initializer, one more bracket or an initializer may follow. -/
def spelling (isConstant : Bool) : Spelling VarDef where
  parts := parts
  Proper d := d.isWellFormed isConstant = true
  GoesOn d k :=
    match d.init with
    | none => k = .openBracket ∨ k = .assign
    | some init => Initializer.spelling.GoesOn init k
  IsRead := IsRead

variable {isConstant : Bool} {id : NodeId} {name : String} {dims : List Dimension}
  {span : Span} {symbol : Option SymbolId} {ws : List Word}

/-- Only a variable can go without an initial value. -/
theorem spells_none :
    (spelling isConstant).Spells ⟨id, name, dims, none, span, symbol⟩ ws ↔
      isConstant = false ∧ ∃ u, ws = .name name :: u ∧
        Dimension.brackets.Spells dims u := by
  have hparts : parts ⟨id, name, dims, none, span, symbol⟩ =
      .name name :: Dimension.allParts dims := by
    unfold parts
    rw [List.append_nil]
  have hproper : (spelling isConstant).Proper ⟨id, name, dims, none, span, symbol⟩ ↔
      isConstant = false := by
    show (!isConstant) = true ↔ _
    rw [Bool.not_eq_true']
  unfold Spells
  rw [hproper, show (spelling isConstant).parts _ = _ from hparts]
  constructor
  · rintro ⟨hp, hws⟩
    obtain ⟨u, rfl, hu⟩ := spelled_word.mp hws
    exact ⟨hp, u, rfl, Dimension.spells_brackets.mpr hu⟩
  · rintro ⟨hp, u, rfl, hu⟩
    exact ⟨hp, hu.2.word⟩

/-- An initial value stands after the dimensions. -/
theorem spells_some {init : Initializer} :
    (spelling isConstant).Spells ⟨id, name, dims, some init, span, symbol⟩ ws ↔
      ∃ u v, ws = Word.name name :: (u ++ Word.plain .assign :: v) ∧
        Dimension.brackets.Spells dims u ∧ Initializer.spelling.Spells init v := by
  constructor
  · rintro ⟨hp, hws⟩
    obtain ⟨_, rfl, hrest⟩ := spelled_word.mp hws
    obtain ⟨u, _, rfl, hu, hrest⟩ := spelled_append.mp hrest
    obtain ⟨v, rfl, hv⟩ := spelled_word.mp hrest
    exact ⟨u, v, rfl, Dimension.spells_brackets.mpr hu, hp, hv⟩
  · rintro ⟨u, v, rfl, hu, hv⟩
    exact ⟨hv.1, (hu.2.append hv.2.plain).word⟩

/-- A definition with an initializer, to complete what is missing. -/
def zero : VarDef :=
  { id := default, name := "", dims := [], init := some .zero, span := default }

theorem spells_zero : (spelling isConstant).Spells zero
    [.name "", .plain .assign, .number .integer "0"] :=
  spells_some.mpr ⟨[], _, rfl, many_nil, Initializer.spells_zero⟩

/-- A definition ends before a token that is no operator and opens or assigns nothing. -/
theorem not_goesOn {d : VarDef} {k : TokenKind} (hassign : k ≠ .assign)
    (h : k ≠ .openBracket ∧ k ≠ .openParen ∧ Precedence.ofToken? k = none) :
    ¬(spelling isConstant).GoesOn d k := by
  obtain ⟨id, name, dims, init, span, symbol⟩ := d
  cases init with
  | none => exact fun hk => hk.elim h.1 hassign
  | some init => exact Initializer.not_goesOn h

end VarDef

namespace Phrase

instance (isConstant : Bool) : Forward (varDef isConstant) := by
  unfold varDef
  dsimp only
  infer_instance

/-- Definitions are read as they are written. A constant must have its value. -/
theorem varDef_reads (isConstant : Bool) (c : Cursor) (hc : c.Closed) :
    (VarDef.spelling isConstant).Reads [] (varDef isConstant) c := by
  refine Reads.position fun start => Reads.identifier hc ⟨_, _, VarDef.spells_zero⟩ ?_
  intro name hc₁
  -- after the name and some dimensions a value can always make it whole
  have hviable : ∀ {dims u}, Dimension.brackets.Spells dims u →
      (VarDef.spelling isConstant).Viable ([] ++ [Word.name name] ++ u) := by
    intro dims u hu
    refine ⟨⟨default, name, dims, some .zero, default, none⟩,
      [.plain .assign, .number .integer "0"], ?_⟩
    exact VarDef.spells_some.mpr ⟨u, _, rfl, hu, Initializer.spells_zero⟩
  refine Reads.bind hc₁ (brackets_reads _ hc₁) (fun dims u hu => hviable hu) ?_
  intro dims u d hd
  refine Reads.kind ?_
  dsimp only
  by_cases hk : d.kind = .assign
  · rw [if_pos hk]
    refine Reads.advance hd.closed (by rw [hk]; decide) fun hc₂ => ?_
    rw [Token.word_eq_plain hk rfl, bind_map_left]
    have hwhole : ∀ {init v}, Initializer.spelling.Spells init v → ∀ id span,
        (VarDef.spelling isConstant).Spells ⟨id, name, dims, some init, span, none⟩
          ([] ++ [Word.name name] ++ u ++ [Word.plain .assign] ++ v) :=
      fun hv _ _ => VarDef.spells_some.mpr ⟨u, _, by simp, hd.spells, hv⟩
    refine Reads.bind hc₂ (initializer_reads _ hc₂) ?_ ?_
    · intro init v hv
      exact (hwhole hv default default).viable
    · intro init v e he
      exact Reads.node (hwhole he.spells) fun _ _ => he.stops
  · -- without a value only a variable is whole, while a constant still waits for its value
    rw [if_neg hk]
    cases isConstant with
    | true => exact Reads.congr rfl (Reads.unexpected (hviable hd.spells))
    | false =>
      rw [if_neg Bool.false_ne_true, pure_bind]
      refine Reads.node (fun id span => ?_) fun _ _ h => ?_
      · exact VarDef.spells_none.mpr ⟨rfl, u, rfl, hd.spells⟩
      · rcases h with hbracket | hassign
        · exact hd.stops (Or.inl (decide_eq_true hbracket))
        · exact hk hassign

/-- A definition that is written out is read back. -/
theorem varDef_tracks (isConstant : Bool) (c : Cursor) (hc : c.Closed) :
    (VarDef.spelling isConstant).Tracks (varDef isConstant) c := by
  intro d ws r hws hr
  obtain ⟨id, name, dims, init, span, symbol⟩ := d
  obtain ⟨w, x, rfl, hgoes⟩ := hr
  refine .position fun start => ?_
  cases init with
  | none =>
    obtain ⟨rfl, u, rfl, hu⟩ := VarDef.spells_none.mp hws
    refine .identifier hc fun hc₁ _ => ?_
    have hstops : Dimension.brackets.Stops dims (w :: x) :=
      ⟨w, x, rfl, Dimension.brackets_stops fun h => hgoes (Or.inl h)⟩
    refine .bind_last hc₁ (brackets_tracks _ hc₁ dims u _ hu hstops) fun dims' d hdims _ => ?_
    refine .look rfl rfl ?_
    rw [if_neg fun h => hgoes (Or.inr h), if_neg Bool.false_ne_true, pure_bind]
    exact .node fun _ _ =>
      VarDef.IsRead.mk (d := ⟨id, name, dims, none, span, symbol⟩) hdims .none
  | some init =>
    obtain ⟨u, v, rfl, hu, hv⟩ := VarDef.spells_some.mp hws
    refine .identifier hc fun hc₁ _ => ?_
    have hstops : Dimension.brackets.Stops dims (Word.plain .assign :: v ++ w :: x) :=
      ⟨_, _, rfl, Dimension.brackets_stops TokenKind.noConfusion⟩
    refine .bind hc₁ (brackets_tracks _ hc₁ dims u _ hu hstops) fun dims' d hdims hd _ => ?_
    refine .look_plain rfl ?_
    rw [if_pos rfl]
    refine .advance hd TokenKind.noConfusion fun _ hd₁ _ => ?_
    rw [bind_map_left]
    refine .bind_last hd₁ (initializer_tracks _ hd₁ init v _ hv ⟨w, x, rfl, hgoes⟩)
      fun init' _ hinit _ => ?_
    exact .node fun _ _ =>
      VarDef.IsRead.mk (d := ⟨id, name, dims, some init, span, symbol⟩) hdims (.some hinit)

end Phrase

/-! ## Declarations -/

namespace Decl

/-- Declarations, which a semicolon ends. -/
def spelling : Spelling Decl where
  parts := parts
  Proper d := d.isWellFormed = true
  GoesOn _ _ := False
  IsRead := IsRead

/-- The word that makes a declaration one of constants. -/
def marker (isConstant : Bool) : List Word :=
  if isConstant then [.plain .kwConst] else []

/-- A declaration is its marker, its type and its definitions with commas, up to a semicolon. -/
theorem spells_iff {d : Decl} {ws : List Word} :
    spelling.Spells d ws ↔ d.basic.Fits false ∧ ∃ v,
      ws = marker d.isConstant ++ Word.plain d.basic.token :: (v ++ [Word.plain .semicolon]) ∧
        (VarDef.spelling d.isConstant).commaSeparated.Spells d.defs v := by
  obtain ⟨id, isConstant, basic, defs, span⟩ := d
  have hproper : spelling.Proper ⟨id, isConstant, basic, defs, span⟩ ↔
      basic.Fits false ∧ (VarDef.spelling isConstant).commaSeparated.Proper defs := by
    show (_ && _ && _) = true ↔ _
    simp [BasicType.Fits, Spelling.commaSeparated, VarDef.spelling, and_assoc]
  have hmarker : ∀ {u : List Word},
      Spelled (if isConstant then [.plain .kwConst] else []) u ↔ u = marker isConstant := by
    intro u
    cases isConstant with
    | true =>
      constructor
      · intro h
        obtain ⟨_, rfl, rfl⟩ := spelled_word.mp h
        rfl
      · rintro rfl
        exact Spelled.nil.plain
    | false => exact Iff.rfl
  unfold Spells
  rw [hproper]
  constructor
  · rintro ⟨⟨hbasic, hdefs⟩, hws⟩
    obtain ⟨u, _, rfl, hu, hrest⟩ := spelled_append.mp hws
    obtain ⟨_, rfl, hafter⟩ := spelled_word.mp hrest
    obtain ⟨v, _, rfl, hv, hclose⟩ := spelled_append.mp hafter
    obtain ⟨_, rfl, rfl⟩ := spelled_word.mp hclose
    obtain rfl := hmarker.mp hu
    exact ⟨hbasic, v, rfl, hdefs, hv⟩
  · rintro ⟨hbasic, v, rfl, hdefs, hv⟩
    exact ⟨⟨hbasic, hdefs⟩, (hmarker.mpr rfl).append (hv.append Spelled.nil.plain).plain⟩

/-- A declaration starts with `const` or an element kind. -/
theorem startsWith : spelling.StartsWith fun k =>
    k = .kwConst ∨ ∃ t : BasicType, t.Fits false ∧ k = t.token := by
  intro d ws hws
  obtain ⟨hbasic, v, rfl, _⟩ := spells_iff.mp hws
  cases d.isConstant with
  | true => exact ⟨_, _, rfl, Or.inl rfl⟩
  | false => exact ⟨_, _, rfl, Or.inr ⟨_, hbasic, rfl⟩⟩

end Decl

namespace Phrase

instance : Forward decl := by
  unfold decl
  dsimp only
  infer_instance

/-- What comes after the marker of a declaration. -/
def declAfter (start : Position) (isConstant : Bool) : Phrase Decl := do
  let basic ← basicType false
  let defs ← commaSeparated (varDef isConstant)
  let _ ← expect .semicolon
  let id ← freshId
  return { id, isConstant, basic, defs, span := ← spanFrom start }

instance (start : Position) (isConstant : Bool) : Forward (declAfter start isConstant) := by
  unfold declAfter
  infer_instance

/-- After its marker, a declaration goes on in one way. -/
theorem decl_eq (c : Cursor) :
    decl c = (if c.kind = .kwConst then advance >>= fun _ => declAfter c.current.span.start true
      else declAfter c.current.span.start false : Phrase Decl) c := by
  have hrun : decl c = (if c.kind = .kwConst then
      advance >>= fun _ => declAfter c.current.span.start (decide (c.kind = .kwConst))
    else declAfter c.current.span.start (decide (c.kind = .kwConst)) : Phrase Decl) c := rfl
  rw [hrun]
  by_cases hk : c.kind = .kwConst
  · rw [if_pos hk, if_pos hk, decide_eq_true hk]
  · rw [if_neg hk, if_neg hk, decide_eq_false hk]

/-- A declaration is read on after its marker. -/
theorem declAfter_reads (start : Position) (isConstant : Bool) (c : Cursor) (hc : c.Closed) :
    Decl.spelling.Reads (Decl.marker isConstant) (declAfter start isConstant) c := by
  have hwhole : ∀ {basic defs v}, BasicType.Fits basic false →
      (VarDef.spelling isConstant).commaSeparated.Spells defs v → ∀ id span,
      Decl.spelling.Spells ⟨id, isConstant, basic, defs, span⟩
        (Decl.marker isConstant ++ [Word.plain basic.token] ++ v ++ [Word.plain .semicolon]) :=
    fun hbasic hv _ _ => Decl.spells_iff.mpr ⟨hbasic, _, by simp, hv⟩
  refine Reads.basicType hc ?_ fun basic hbasic hc₁ => ?_
  · -- a type has to follow, and `int` with some definition would do
    have hdefs : (VarDef.spelling isConstant).commaSeparated.Spells [.zero] _ :=
      spells_commaSeparated_cons.mpr
        ⟨_, [], (List.append_nil _).symm, VarDef.spells_zero, many_nil⟩
    have hint : BasicType.int32.Fits false := Or.inr (by decide)
    have hdecl := hwhole hint hdefs default default
    rw [List.append_assoc, List.append_assoc] at hdecl
    exact ⟨_, _, hdecl⟩
  · refine Reads.bind hc₁ (commaSeparated_reads (varDef_reads isConstant) _ hc₁) ?_ ?_
    · intro defs v hv
      exact ⟨_, _, hwhole hbasic hv default default⟩
    · intro defs v d hd
      have hdecl := hwhole hbasic hd.spells
      refine Reads.expect hd.closed (by decide) rfl ⟨_, _, hdecl default default⟩ fun _ => ?_
      exact Reads.node hdecl fun _ _ => id

/-- Declarations are read as they are written. -/
theorem decl_reads (c : Cursor) (hc : c.Closed) : Decl.spelling.Reads [] decl c := by
  refine Reads.congr (decl_eq c) ?_
  by_cases hk : c.kind = .kwConst
  · rw [if_pos hk]
    refine Reads.advance hc (by rw [hk]; decide) fun hc₁ => ?_
    rw [Token.word_eq_plain hk rfl]
    exact declAfter_reads _ true _ hc₁
  · rw [if_neg hk]
    exact declAfter_reads _ false c hc

/-- After its marker, a declaration that is written out is read back. -/
theorem declAfter_follows {start : Position} {c : Cursor} (hc : c.Closed) {d : Decl}
    {v r : List Word} (hbasic : d.basic.Fits false)
    (hv : (VarDef.spelling d.isConstant).commaSeparated.Spells d.defs v) :
    (declAfter start d.isConstant).Follows c
      (Word.plain d.basic.token :: (v ++ [Word.plain .semicolon])) r (Decl.IsRead · d) := by
  refine .basicType hc hbasic fun hc₁ _ => ?_
  have hlist : (VarDef.spelling d.isConstant).commaSeparated.Tracks
      (commaSeparated (varDef d.isConstant)) c.advance :=
    commaSeparated_tracks (fun _ _ => VarDef.not_goesOn (by decide) (by decide)) _ hc₁
      fun e he _ => varDef_tracks _ e he
  have hstops : (VarDef.spelling d.isConstant).commaSeparated.Stops d.defs
      ([Word.plain .semicolon] ++ r) := by
    refine ⟨_, _, rfl, ?_⟩
    rintro (h | ⟨_, _, h⟩)
    · exact TokenKind.noConfusion h
    · exact VarDef.not_goesOn (by decide) (by decide) h
  refine .bind hc₁ (hlist d.defs v _ hv hstops) fun defs' e hdefs he _ => ?_
  exact .expect he (by decide) fun _ _ => .node fun _ _ => .mk hdefs

/-- A declaration that is written out is read back. -/
theorem decl_tracks (c : Cursor) (hc : c.Closed) : Decl.spelling.Tracks decl c := by
  intro d ws r hws _
  obtain ⟨id, isConstant, basic, defs, span⟩ := d
  obtain ⟨hbasic, v, rfl, hv⟩ := Decl.spells_iff.mp hws
  cases isConstant with
  | true =>
    refine .of_head rfl fun hhead => .congr (decl_eq c) ?_
    rw [if_pos (show c.kind = .kwConst from congrArg Word.kind hhead)]
    refine .advance hc TokenKind.noConfusion fun _ hc₁ _ => ?_
    exact declAfter_follows (d := ⟨id, true, basic, defs, span⟩) hc₁ hbasic hv
  | false =>
    refine .of_head rfl fun hhead => .congr (decl_eq c) ?_
    -- no type is spelled as the marker is
    have hk : c.kind ≠ .kwConst := by
      rw [← c.word_kind, hhead]
      cases basic <;> exact TokenKind.noConfusion
    rw [if_neg hk]
    exact declAfter_follows (d := ⟨id, false, basic, defs, span⟩) hc hbasic hv

end Phrase

/-! ## Parameters -/

/-- The outermost brackets of a parameter, which may be empty. -/
def Dimension.outer : Spelling (Option Dimension) where
  parts dim := bracket (dim.toList.map fun d => .dimension d.text)
  Proper _ := True
  GoesOn _ _ := False
  IsRead := Option.Rel IsRead

/-- An open dimension is a pair of brackets. -/
theorem Dimension.spells_outer_none {ws : List Word} :
    Dimension.outer.Spells none ws ↔ ws = [.plain .openBracket, .plain .closeBracket] := by
  constructor
  · rintro ⟨_, hws⟩
    obtain ⟨_, rfl, hrest⟩ := spelled_word.mp hws
    obtain ⟨_, rfl, rfl⟩ := spelled_word.mp hrest
    rfl
  · rintro rfl
    exact ⟨trivial, Spelled.nil.plain.plain⟩

theorem Dimension.spells_outer_some {d : Dimension} {ws : List Word} :
    Dimension.outer.Spells (some d) ws ↔ Dimension.spelling.bracketed.Spells d ws :=
  Iff.rfl

namespace Param

/-- Parameters, which one more bracket may follow. -/
def spelling : Spelling Param where
  parts := parts
  Proper p := p.isWellFormed = true
  GoesOn _ k := k = .openBracket
  IsRead := IsRead

variable {p : Param} {ws : List Word}

/-- A parameter is its type, its name, the brackets of an open dimension if it has one, and its
other dimensions. -/
theorem spells_iff : spelling.Spells p ws ↔ p.basic.Fits false ∧ ∃ u v,
    ws = Word.plain p.basic.token :: Word.name p.name :: (u ++ v) ∧
      Spelled (if p.isOpen then bracket [] else []) u ∧ Dimension.brackets.Spells p.dims v := by
  have hproper : spelling.Proper p ↔ p.basic.Fits false := by
    show (p.basic != .void) = true ↔ _
    simp [BasicType.Fits]
  unfold Spells
  rw [hproper]
  constructor
  · rintro ⟨hbasic, hws⟩
    obtain ⟨_, rfl, hrest⟩ := spelled_word.mp hws
    obtain ⟨_, rfl, hafter⟩ := spelled_word.mp hrest
    obtain ⟨u, v, rfl, hu, hv⟩ := spelled_append.mp hafter
    exact ⟨hbasic, u, v, rfl, hu, Dimension.spells_brackets.mpr hv⟩
  · rintro ⟨hbasic, u, v, rfl, hu, hv⟩
    exact ⟨hbasic, (hu.append hv.2).word.plain⟩

/-- A parameter starts with an element kind. -/
theorem startsWith : spelling.StartsWith fun k => ∃ t : BasicType, k = t.token := by
  intro p ws hws
  obtain ⟨_, u, v, rfl, _⟩ := spells_iff.mp hws
  exact ⟨_, _, rfl, _, rfl⟩

end Param

namespace Phrase

variable {c : Cursor}

instance : Forward outerDimension := by
  unfold outerDimension
  dsimp only
  infer_instance

/-- What comes after the outermost brackets of a parameter. -/
def paramAfter (start : Position) (basic : BasicType) (name : String) (isOpen : Bool)
    (outer : List Dimension) : Phrase Param := do
  let inner ← bracketed dimension
  let id ← freshId
  return { id, name, basic, isOpen, dims := outer ++ inner, span := ← spanFrom start }

instance (start : Position) (basic : BasicType) (name : String) (isOpen : Bool)
    (outer : List Dimension) : Forward (paramAfter start basic name isOpen outer) := by
  unfold paramAfter
  infer_instance

/-- A parameter is its element kind, its name, the outermost brackets and the others. -/
theorem param_eq : param = (do
    let start ← position
    let basic ← basicType false
    let name ← identifier "in parameter list"
    if (← kind) = .openBracket then
      let outer ← outerDimension
      paramAfter start basic name outer.isNone outer.toList
    else
      paramAfter start basic name false []) := by
  refine bind_congr fun start => bind_congr fun basic => bind_congr fun name =>
    bind_congr fun k => ?_
  dsimp only
  by_cases hk : k = .openBracket
  · rw [if_pos hk, if_pos hk]
    refine bind_congr fun outer => ?_
    cases outer with
    | none => rfl
    | some dim => rfl
  · rw [if_neg hk, if_neg hk]
    rfl

instance : Forward param := by
  rw [param_eq]
  infer_instance

/-- The first dimension is read as it is written, open or not. -/
theorem outerDimension_reads (hc : c.Closed) (hk : c.kind = .openBracket) :
    Dimension.outer.Reads [] outerDimension c := by
  refine Reads.advance hc (by rw [hk]; decide) fun hc₁ => Reads.kind ?_
  rw [Token.word_eq_plain hk rfl]
  dsimp only
  by_cases hclose : c.advance.kind = .closeBracket
  · rw [if_pos hclose, pure_bind]
    have hwhole := Dimension.spells_outer_none.mpr rfl
    exact Reads.expect hc₁ (by decide) rfl ⟨_, _, hwhole⟩ fun _ => Reads.pure hwhole id
  · rw [if_neg hclose, bind_map_left]
    have hwhole : ∀ {d v}, Dimension.spelling.Spells d v → Dimension.outer.Spells (some d)
        ([] ++ [Word.plain .openBracket] ++ v ++ [Word.plain .closeBracket]) :=
      fun hv => Dimension.spells_outer_some.mpr (spells_bracketed.mpr ⟨_, by simp, hv⟩)
    refine Reads.bind hc₁ (dimension_reads _ hc₁) (fun d v hv => ⟨_, _, hwhole hv⟩) ?_
    intro d v e he
    refine Reads.expect he.closed (by decide) rfl ⟨_, _, hwhole he.spells⟩ fun _ => ?_
    exact Reads.pure (hwhole he.spells) id

/-- The first dimension is read back. -/
theorem outerDimension_tracks (c : Cursor) (hc : c.Closed) :
    Dimension.outer.Tracks outerDimension c := by
  intro dim ws r hws _
  cases dim with
  | none =>
    obtain rfl := Dimension.spells_outer_none.mp hws
    refine .advance hc TokenKind.noConfusion fun _ hc₁ _ => ?_
    refine .look_plain rfl ?_
    rw [if_pos rfl, pure_bind]
    exact .expect hc₁ (by decide) fun _ _ => .pure .none
  | some d =>
    obtain ⟨v, rfl, hv⟩ := spells_bracketed.mp (Dimension.spells_outer_some.mp hws)
    obtain ⟨w, x, hwx, hw⟩ : ∃ w x, v = w :: x ∧ w.kind ≠ .closeBracket := by
      rcases Dimension.spells_iff.mp hv with rfl | ⟨digits, _, rfl⟩
      · exact ⟨_, _, rfl, TokenKind.noConfusion⟩
      · exact ⟨_, _, rfl, TokenKind.noConfusion⟩
    refine .advance hc TokenKind.noConfusion fun _ hc₁ _ => ?_
    refine .look (w := w) (u := x ++ [Word.plain .closeBracket] ++ r) rfl (by simp [hwx]) ?_
    rw [if_neg hw, bind_map_left]
    refine .bind hc₁ (dimension_tracks _ hc₁ d v _ hv ⟨_, _, rfl, not_false⟩) fun d' e hd he _ => ?_
    exact .expect he (by decide) fun _ _ => .pure (.some hd)

/-- A parameter is read on after its first dimension, whichever form that has had. -/
theorem paramAfter_reads {start : Position} {basic : BasicType} {name : String} {isOpen : Bool}
    {outer : List Dimension} {before : List Word}
    (hwhole : ∀ {dims v}, Dimension.brackets.Spells dims v → ∀ id span,
      Param.spelling.Spells ⟨id, name, basic, isOpen, outer ++ dims, span, none⟩ (before ++ v))
    (hc : c.Closed) :
    Param.spelling.Reads before (paramAfter start basic name isOpen outer) c := by
  refine Reads.bind hc (brackets_reads c hc) ?_ ?_
  · intro dims v hv
    exact (hwhole hv default default).viable
  · intro dims v d hd
    refine Reads.node (hwhole hd.spells) fun _ _ hk => ?_
    exact hd.stops (Or.inl (decide_eq_true hk))

/-- Parameters are read as they are written. -/
theorem param_reads (c : Cursor) (hc : c.Closed) : Param.spelling.Reads [] param c := by
  rw [param_eq]
  have hname : ∀ {basic : BasicType}, basic.Fits false → ∀ name {dims v},
      Dimension.brackets.Spells dims v → ∀ id span,
      Param.spelling.Spells ⟨id, name, basic, false, dims, span, none⟩
        (.plain basic.token :: .name name :: v) := by
    intro basic hbasic name dims v hv id span
    exact Param.spells_iff.mpr ⟨hbasic, [], v, rfl, Spelled.nil, hv⟩
  refine Reads.position fun start => Reads.basicType hc ?_ fun basic hbasic hc₁ => ?_
  · have hint : BasicType.int32.Fits false := Or.inr (by decide)
    exact ⟨_, _, hname hint "" many_nil default default⟩
  refine Reads.identifier hc₁ ?_ fun name hc₂ => Reads.kind ?_
  · exact ⟨_, _, hname hbasic "" many_nil default default⟩
  by_cases hk : c.advance.advance.kind = .openBracket
  · rw [if_pos hk]
    -- the outer dimension may be left open; it is the first of the dimensions if it is not
    have hwhole : ∀ {outer u}, Dimension.outer.Spells outer u → ∀ {dims v},
        Dimension.brackets.Spells dims v → ∀ id span,
        Param.spelling.Spells
          ⟨id, name, basic, outer.isNone, outer.toList ++ dims, span, none⟩
          (Word.plain basic.token :: Word.name name :: u ++ v) := by
      intro outer u hu dims v hv id span
      cases outer with
      | none => exact Param.spells_iff.mpr ⟨hbasic, u, v, rfl, hu.2, hv⟩
      | some d => exact hname hbasic name (many_cons (Dimension.spells_outer_some.mp hu) hv) id span
    refine Reads.bind hc₂ (outerDimension_reads hc₂ hk) ?_ ?_
    · intro outer u hu
      exact ⟨_, [], hwhole hu many_nil default default⟩
    · intro outer u d hd
      exact paramAfter_reads (hwhole hd.spells) hd.closed
  · rw [if_neg hk]
    exact paramAfter_reads (hname hbasic name) hc₂

/-- After its first dimension, a parameter that is written out is read back. -/
theorem paramAfter_follows {start : Position} (p : Param) {outer' : List Dimension}
    (outer : List Dimension) {dims : List Dimension} {v : List Word} {w : Word} {u : List Word}
    (hc : c.Closed) (houter : List.Forall₂ Dimension.IsRead outer' outer)
    (hdims : p.dims = outer ++ dims)
    (hv : Dimension.brackets.Spells dims v) (hw : w.kind ≠ .openBracket) :
    (paramAfter start p.basic p.name p.isOpen outer').Follows c v (w :: u) (Param.IsRead · p) := by
  refine .bind_last hc
    (brackets_tracks c hc dims v _ hv ⟨w, u, rfl, Dimension.brackets_stops hw⟩) ?_
  intro dims' _ hdims' _
  refine .node fun _ _ => .mk ?_
  rw [hdims]
  exact List.rel_append houter hdims'

/-- A parameter that is written out is read back. -/
theorem param_tracks (c : Cursor) (hc : c.Closed) : Param.spelling.Tracks param c := by
  intro p ws r hws hr
  obtain ⟨id, name, basic, isOpen, dims, span, symbol⟩ := p
  obtain ⟨hbasic, u, v, rfl, hu, hv⟩ := Param.spells_iff.mp hws
  obtain ⟨w, x, rfl, hw⟩ := hr
  rw [param_eq]
  refine .position fun start => .basicType hc hbasic fun hc₁ _ => .identifier hc₁ fun hc₂ _ => ?_
  -- open, without dimensions, or with a first dimension that goes through the same brackets
  cases isOpen with
  | true =>
    have houter : Dimension.outer.Spells none u := ⟨trivial, hu⟩
    obtain rfl := Dimension.spells_outer_none.mp houter
    refine .look_plain rfl ?_
    rw [if_pos rfl]
    have hstops := stops_of_never (S := Dimension.outer) (a := none) (fun _ => not_false) v w x
    refine .bind hc₂ (outerDimension_tracks _ hc₂ none _ _ houter hstops) ?_
    intro outer d houter' hd _
    cases houter'
    exact paramAfter_follows ⟨id, name, basic, true, dims, span, symbol⟩ [] hd .nil rfl hv hw
  | false =>
    obtain rfl : u = [] := hu
    cases dims with
    | nil =>
      obtain rfl : v = [] := hv.2
      refine .look rfl rfl ?_
      rw [if_neg (show w.kind ≠ .openBracket from hw)]
      exact paramAfter_follows ⟨id, name, basic, false, [], span, symbol⟩ [] hc₂ .nil rfl hv hw
    | cons dim dims =>
      obtain ⟨v₁, v₂, rfl, hv₁, hv₂⟩ := of_many_cons hv
      have houter := Dimension.spells_outer_some.mpr hv₁
      obtain ⟨v', hv', _⟩ := spells_bracketed.mp hv₁
      refine .of_head (by rw [hv']; rfl) fun hhead => .kind ?_
      rw [if_pos (show c.advance.advance.kind = .openBracket from congrArg Word.kind hhead),
        List.nil_append]
      have hstops :=
        stops_of_never (S := Dimension.outer) (a := some dim) (fun _ => not_false) v₂ w x
      refine .bind hc₂ (outerDimension_tracks _ hc₂ (some dim) _ _ houter hstops) ?_
      intro outer d houter' hd _
      cases houter' with
      | some hdim =>
        exact paramAfter_follows ⟨id, name, basic, false, dim :: dims, span, symbol⟩ [dim] hd
          (.cons hdim .nil) rfl hv₂ hw

end Phrase

end CactLang
