import CactLang.Grammar.Statement

/-!
# Trees written out

To the grammar a token is its kind and, if it is a name or a number, its text. That
much of a token is a word. `Program.words` writes a program out as words, in the order
of a source: it is what a reader of tokens has to give the program back from.

Not every tree can be written so that it is read as it was. A sum cannot be a factor
unless it stands in parentheses, and an `else` goes to the nearest `if`.
`Program.isWellFormed` holds of the trees without such parts.

A dimension is kept as a text, `-3` say, that may have been one word or two. So a tree is
first written as parts, one of which is a whole dimension.

> `Spelled ps ws`: the words `ws` are the parts `ps`, each dimension taken either way.
-/

namespace CactLang

/-! ## Words -/

/-- Whether tokens of a kind differ by their texts. -/
def TokenKind.hasText (k : TokenKind) : Bool :=
  k = .identifier || k.isNumber

/-- What the grammar sees of a token. -/
@[ext] structure Word where
  kind : TokenKind
  /-- The text of a name or number. -/
  text : String
  /-- For any other token there is no text. -/
  text_eq : kind.hasText = false → text = ""
  deriving DecidableEq

/-- The token that a literal of this form is. -/
def NumberKind.token : NumberKind → TokenKind
  | integer => .integerLiteral
  | float => .floatLiteral
  | double => .doubleLiteral

namespace Word

/-- A word that is known by its kind. -/
def plain (k : TokenKind) : Word :=
  ⟨k, "", fun _ => rfl⟩

/-- A name. -/
def name (text : String) : Word :=
  ⟨.identifier, text, fun h => Bool.noConfusion h⟩

/-- A literal. -/
def number (kind : NumberKind) (text : String) : Word :=
  ⟨kind.token, text, by cases kind <;> exact fun h => Bool.noConfusion h⟩

end Word

/-- What the grammar sees of a token. -/
def Token.word (t : Token) : Word :=
  ⟨t.kind, if t.kind.hasText then t.text else "", by intro h; rw [h]; rfl⟩

namespace Token

variable {t : Token}

/-- A token without a text of its own is seen as its kind. -/
theorem word_eq_plain {k : TokenKind} (hk : t.kind = k) (htext : k.hasText = false) :
    t.word = .plain k := by
  rw [Word.ext_iff]
  exact ⟨hk, if_neg (by rw [hk, htext]; exact Bool.false_ne_true)⟩

/-- A name is seen as its text. -/
theorem word_eq_name (hk : t.kind = .identifier) : t.word = .name t.text := by
  rw [Word.ext_iff]
  exact ⟨hk, if_pos (by rw [hk]; rfl)⟩

/-- A literal is seen as its form and its text. -/
theorem word_eq_number (kind : NumberKind) (hk : t.kind = kind.token) :
    t.word = .number kind t.text := by
  rw [Word.ext_iff]
  exact ⟨hk, if_pos (by rw [hk]; cases kind <;> rfl)⟩

/-- A token that is seen as a kind with texts has the text it is seen with. -/
theorem text_eq {w : Word} (hw : t.word = w) (htext : w.kind.hasText = true) :
    t.text = w.text := by
  rw [← hw] at htext ⊢
  exact (if_pos htext).symm

end Token

/-- A token for a word. -/
def Word.token (w : Word) : Token :=
  ⟨w.kind, w.text, default⟩

theorem Word.word_token (w : Word) : w.token.word = w := by
  rw [Word.ext_iff]
  refine ⟨rfl, ?_⟩
  show (if w.kind.hasText = true then w.text else "") = w.text
  by_cases htext : w.kind.hasText = true
  · exact if_pos htext
  · rw [if_neg htext, w.text_eq (Bool.eq_false_iff.mpr htext)]

/-- The tokens before the end of the input. -/
def Token.content (tokens : List Token) : List Token :=
  tokens.takeWhile (·.kind ≠ .eof)

/-- A part of a written tree. -/
inductive Part where
  | word (w : Word)
  /-- What stands between array brackets. -/
  | dimension (text : String)

namespace Part

/-- A word that is known by its kind. -/
def plain (k : TokenKind) : Part :=
  .word (.plain k)

/-- A name. -/
def name (text : String) : Part :=
  .word (.name text)

/-- The words of a dimension: of a negative one, a dash and its digits. -/
def dimensionWords (text : String) : List Word :=
  match text.toList with
  | '-' :: digits => [.plain .dash, .number .integer (String.ofList digits)]
  | _ => [.number .integer text]

/-- The words of a part. -/
def words : Part → List Word
  | word w => [w]
  | dimension text => dimensionWords text

/-- The words that a part can be read from. -/
def Spells : Part → List Word → Prop
  | word w, ws => ws = [w]
  | dimension text, ws =>
    ws = [.number .integer text] ∨
      ∃ digits, text = "-" ++ digits ∧ ws = [Word.plain .dash, .number .integer digits]

end Part

/-- Parts with commas between them. -/
def commas : List (List Part) → List Part
  | [] => []
  | first :: rest => first ++ rest.flatMap (Part.plain .comma :: ·)

/-- Parts in brackets. -/
def bracket (parts : List Part) : List Part :=
  Part.plain .openBracket :: (parts ++ [Part.plain .closeBracket])

/-! ## Operators and types -/

/-- The keyword of an element kind. -/
def BasicType.token : BasicType → TokenKind
  | int32 => .kwInt32
  | bool => .kwBool
  | float => .kwFloat
  | double => .kwDouble
  | void => .kwVoid

namespace Operator

/-- The token an operator is; `nop` is not written. -/
def token? : Operator → Option TokenKind
  | nop => none
  | plus | add => some .plus
  | neg | sub => some .dash
  | not => some .not
  | mul => some .star
  | div => some .slash
  | mod => some .percent
  | less => some .less
  | lessEqual => some .lessEqual
  | greater => some .greater
  | greaterEqual => some .greaterEqual
  | equal => some .equal
  | notEqual => some .notEqual
  | and => some .and
  | or => some .or

/-- Whether an operator stands in front of one operand. -/
def isUnary : Operator → Bool
  | plus | neg | not => true
  | _ => false

/-- The precedence of an operator that stands between two operands. -/
def precedence? : Operator → Option Precedence
  | or => some .or
  | and => some .and
  | equal | notEqual => some .equality
  | less | lessEqual | greater | greaterEqual => some .relational
  | add | sub => some .additive
  | mul | div | mod => some .multiplicative
  | nop | plus | neg | not => none

/-- The operator written out. -/
def parts (op : Operator) : List Part :=
  op.token?.toList.map Part.plain

end Operator

/-! ## Expressions -/

/-- Whether an operator between two operands is the outermost part. -/
def Expr.isBinary : Expr → Bool
  | ⟨_, .binary .., _, _⟩ => true
  | _ => false

/-- How tightly the outermost part holds together: as its operator does, and above all
operators if it is not one between two operands. -/
def Expr.rank : Expr → Nat
  | ⟨_, .binary op _ _, _, _⟩ => op.precedence?.elim 0 Precedence.rank
  | _ => Precedence.primary.rank + 1

mutual

/-- The expression written out. -/
@[simp] def Expr.parts : Expr → List Part
  | ⟨_, .number text kind, _, _⟩ => [.word (.number kind text)]
  | ⟨_, .bool value, _, _⟩ => [.plain (if value then .kwTrue else .kwFalse)]
  | ⟨_, .lvalue lvalue, _, _⟩ => lvalue.parts
  | ⟨_, .paren inner, _, _⟩ => Part.plain .openParen :: (inner.parts ++ [Part.plain .closeParen])
  | ⟨_, .unary operator operand, _, _⟩ => operator.parts ++ operand.parts
  | ⟨_, .binary operator left right, _, _⟩ => left.parts ++ (operator.parts ++ right.parts)
  | ⟨_, .call callee arguments _, _, _⟩ =>
    .name callee :: .plain .openParen ::
      (commas (Expr.allParts arguments) ++ [Part.plain .closeParen])

/-- The variable and its indices written out. -/
@[simp] def LValue.parts : LValue → List Part
  | ⟨_, name, indices, _, _, _⟩ => .name name :: (Expr.allParts indices).flatMap bracket

/-- Each of the expressions written out. -/
@[simp] def Expr.allParts : List Expr → List (List Part)
  | [] => []
  | e :: es => e.parts :: Expr.allParts es

end

mutual

/-- Whether the expression is read as it is written: operators stand where they can, with
operands that do not fall apart. -/
@[simp] def Expr.isWellFormed : Expr → Bool
  | ⟨_, .number .., _, _⟩ => true
  | ⟨_, .bool _, _, _⟩ => true
  | ⟨_, .lvalue lvalue, _, _⟩ => lvalue.isWellFormed
  | ⟨_, .paren inner, _, _⟩ => inner.isWellFormed
  | ⟨_, .unary operator operand, _, _⟩ =>
    operator.isUnary && !operand.isBinary && operand.isWellFormed
  | ⟨_, .binary operator left right, _, _⟩ =>
    match operator.precedence? with
    | none => false
    | some p =>
      decide (p.rank ≤ left.rank) && decide (p.rank < right.rank) &&
        left.isWellFormed && right.isWellFormed
  | ⟨_, .call _ arguments _, _, _⟩ => Expr.areWellFormed arguments

/-- Whether the indices are read as they are written. -/
@[simp] def LValue.isWellFormed : LValue → Bool
  | ⟨_, _, indices, _, _, _⟩ => Expr.areWellFormed indices

/-- Whether the expressions are read as they are written. -/
@[simp] def Expr.areWellFormed : List Expr → Bool
  | [] => true
  | e :: es => e.isWellFormed && Expr.areWellFormed es

end

theorem Expr.allParts_eq_map (es : List Expr) : Expr.allParts es = es.map Expr.parts := by
  induction es with
  | nil => rfl
  | cons e es ih => rw [Expr.allParts, ih, List.map_cons]

theorem Expr.areWellFormed_iff (es : List Expr) :
    Expr.areWellFormed es = true ↔ ∀ e ∈ es, e.isWellFormed = true := by
  induction es with
  | nil => simp [Expr.areWellFormed]
  | cons e es ih => simp [Expr.areWellFormed, ih]

/-! ## Declarations -/

mutual

/-- The initializer written out. -/
@[simp] def Initializer.parts : Initializer → List Part
  | .scalar _ value _ => value.parts
  | .list _ items _ =>
    Part.plain .openCurly :: (commas (Initializer.allParts items) ++ [Part.plain .closeCurly])

/-- Each of the initializers written out. -/
@[simp] def Initializer.allParts : List Initializer → List (List Part)
  | [] => []
  | i :: is => i.parts :: Initializer.allParts is

end

mutual

/-- Whether the initializer is read as it is written. -/
@[simp] def Initializer.isWellFormed : Initializer → Bool
  | .scalar _ value _ => value.isWellFormed
  | .list _ items _ => Initializer.areWellFormed items

/-- Whether the initializers are read as they are written. -/
@[simp] def Initializer.areWellFormed : List Initializer → Bool
  | [] => true
  | i :: is => i.isWellFormed && Initializer.areWellFormed is

end

theorem Initializer.allParts_eq_map (is : List Initializer) :
    Initializer.allParts is = is.map Initializer.parts := by
  induction is with
  | nil => rfl
  | cons i is ih => rw [Initializer.allParts, ih, List.map_cons]

theorem Initializer.areWellFormed_iff (is : List Initializer) :
    Initializer.areWellFormed is = true ↔ ∀ i ∈ is, i.isWellFormed = true := by
  induction is with
  | nil => simp [Initializer.areWellFormed]
  | cons i is ih => simp [Initializer.areWellFormed, ih]

/-- The dimensions written out. -/
def Dimension.allParts (dims : List Dimension) : List Part :=
  dims.flatMap fun dim => bracket [.dimension dim.text]

/-- The definition written out. -/
def VarDef.parts (d : VarDef) : List Part :=
  Part.name d.name :: (Dimension.allParts d.dims ++
    match d.init with
    | none => []
    | some init => .plain .assign :: init.parts)

/-- Whether the definition is read as it is written: a constant has an initializer. -/
def VarDef.isWellFormed (isConstant : Bool) (d : VarDef) : Bool :=
  match d.init with
  | none => !isConstant
  | some init => init.isWellFormed

/-- The declaration written out. -/
def Decl.parts (d : Decl) : List Part :=
  (if d.isConstant then [Part.plain .kwConst] else []) ++
    Part.plain d.basic.token :: (commas (d.defs.map VarDef.parts) ++ [Part.plain .semicolon])

/-- Whether the declaration is read as it is written: it is not of `void` and defines
something. -/
def Decl.isWellFormed (d : Decl) : Bool :=
  d.basic != .void && !d.defs.isEmpty && d.defs.all (VarDef.isWellFormed d.isConstant)

/-- The parameter written out. -/
def Param.parts (p : Param) : List Part :=
  .plain p.basic.token :: .name p.name ::
    ((if p.isOpen then bracket [] else []) ++ Dimension.allParts p.dims)

/-- Whether the parameter is read as it is written: it is not of `void`. -/
def Param.isWellFormed (p : Param) : Bool :=
  p.basic != .void

/-! ## Statements -/

/-- Whether the statement ends in an `if` that has no `else` and would take one. -/
def Stmt.endsOpen : Stmt → Bool
  | ⟨_, .cond _ _ none, _, _⟩ => true
  | ⟨_, .cond _ _ (some elseBranch), _, _⟩ => elseBranch.endsOpen
  | ⟨_, .loop _ body, _, _⟩ => body.endsOpen
  | _ => false

/-- An expression in parentheses, as it follows `if` and `while`. -/
def Expr.conditionParts (test : Expr) : List Part :=
  Part.plain .openParen :: (test.parts ++ [Part.plain .closeParen])

mutual

/-- The statement written out. -/
@[simp] def Stmt.parts : Stmt → List Part
  | ⟨_, .assign target value, _, _⟩ =>
    target.parts ++ Part.plain .assign :: (value.parts ++ [Part.plain .semicolon])
  | ⟨_, .expr none, _, _⟩ => [.plain .semicolon]
  | ⟨_, .expr (some value), _, _⟩ => value.parts ++ [Part.plain .semicolon]
  | ⟨_, .block block, _, _⟩ => block.parts
  | ⟨_, .cond test thenBranch none, _, _⟩ =>
    Part.plain .kwIf :: (test.conditionParts ++ thenBranch.parts)
  | ⟨_, .cond test thenBranch (some elseBranch), _, _⟩ =>
    .plain .kwIf ::
      (test.conditionParts ++ (thenBranch.parts ++ Part.plain .kwElse :: elseBranch.parts))
  | ⟨_, .loop test body, _, _⟩ => Part.plain .kwWhile :: (test.conditionParts ++ body.parts)
  | ⟨_, .leave _, _, _⟩ => [.plain .kwBreak, .plain .semicolon]
  | ⟨_, .next _, _, _⟩ => [.plain .kwContinue, .plain .semicolon]
  | ⟨_, .ret none _, _, _⟩ => [.plain .kwReturn, .plain .semicolon]
  | ⟨_, .ret (some value) _, _, _⟩ =>
    Part.plain .kwReturn :: (value.parts ++ [Part.plain .semicolon])

/-- The block written out. -/
@[simp] def Block.parts : Block → List Part
  | ⟨_, items, _, _, _⟩ =>
    Part.plain .openCurly :: (BlockItem.allParts items ++ [Part.plain .closeCurly])

/-- The items of a block written out. -/
@[simp] def BlockItem.allParts : List BlockItem → List Part
  | [] => []
  | .decl d :: rest => d.parts ++ BlockItem.allParts rest
  | .stmt s :: rest => s.parts ++ BlockItem.allParts rest

end

mutual

/-- Whether the statement is read as it is written: no `else` follows a branch that would
take it for itself. -/
@[simp] def Stmt.isWellFormed : Stmt → Bool
  | ⟨_, .assign target value, _, _⟩ => target.isWellFormed && value.isWellFormed
  | ⟨_, .expr none, _, _⟩ => true
  | ⟨_, .expr (some value), _, _⟩ => value.isWellFormed
  | ⟨_, .block block, _, _⟩ => block.isWellFormed
  | ⟨_, .cond test thenBranch none, _, _⟩ => test.isWellFormed && thenBranch.isWellFormed
  | ⟨_, .cond test thenBranch (some elseBranch), _, _⟩ =>
    test.isWellFormed && !thenBranch.endsOpen && thenBranch.isWellFormed &&
      elseBranch.isWellFormed
  | ⟨_, .loop test body, _, _⟩ => test.isWellFormed && body.isWellFormed
  | ⟨_, .leave _, _, _⟩ => true
  | ⟨_, .next _, _, _⟩ => true
  | ⟨_, .ret none _, _, _⟩ => true
  | ⟨_, .ret (some value) _, _, _⟩ => value.isWellFormed

/-- Whether the block is read as it is written. -/
@[simp] def Block.isWellFormed : Block → Bool
  | ⟨_, items, _, _, _⟩ => BlockItem.areWellFormed items

/-- Whether the items of a block are read as they are written. -/
@[simp] def BlockItem.areWellFormed : List BlockItem → Bool
  | [] => true
  | .decl d :: rest => d.isWellFormed && BlockItem.areWellFormed rest
  | .stmt s :: rest => s.isWellFormed && BlockItem.areWellFormed rest

end

/-- The item written out. -/
def BlockItem.parts : BlockItem → List Part
  | .decl d => d.parts
  | .stmt s => s.parts

/-- Whether the item is read as it is written. -/
def BlockItem.isWellFormed : BlockItem → Bool
  | .decl d => d.isWellFormed
  | .stmt s => s.isWellFormed

theorem BlockItem.allParts_eq_flatMap (items : List BlockItem) :
    BlockItem.allParts items = items.flatMap BlockItem.parts := by
  induction items with
  | nil => rfl
  | cons item items ih =>
    cases item with
    | decl d => rw [BlockItem.allParts, ih, List.flatMap_cons, BlockItem.parts]
    | stmt s => rw [BlockItem.allParts, ih, List.flatMap_cons, BlockItem.parts]

theorem BlockItem.areWellFormed_iff (items : List BlockItem) :
    BlockItem.areWellFormed items = true ↔ ∀ item ∈ items, item.isWellFormed = true := by
  induction items with
  | nil => simp [BlockItem.areWellFormed]
  | cons item items ih =>
    cases item with
    | decl d => simp [BlockItem.areWellFormed, BlockItem.isWellFormed, ih]
    | stmt s => simp [BlockItem.areWellFormed, BlockItem.isWellFormed, ih]

/-! ## Programs -/

/-- The function definition written out. -/
def FuncDef.parts (f : FuncDef) : List Part :=
  .plain f.returns.token :: .name f.name :: .plain .openParen ::
    (commas (f.params.map Param.parts) ++ Part.plain .closeParen :: f.body.parts)

/-- Whether the function definition is read as it is written. -/
def FuncDef.isWellFormed (f : FuncDef) : Bool :=
  f.params.all Param.isWellFormed && f.body.isWellFormed

namespace Item

/-- The item written out. -/
def parts : Item → List Part
  | decl d => d.parts
  | func f => f.parts

/-- Whether the item is read as it is written. -/
def isWellFormed : Item → Bool
  | decl d => d.isWellFormed
  | func f => f.isWellFormed

end Item

namespace Program

/-- The program written out as parts. -/
def parts (p : Program) : List Part :=
  p.items.flatMap Item.parts

/-- The words of a program, in the order of its source. -/
def words (p : Program) : List Word :=
  p.parts.flatMap Part.words

/-- Whether the program is read as it is written. -/
def isWellFormed (p : Program) : Bool :=
  p.items.all Item.isWellFormed

end Program

/-! ## Parts and words -/

/-- The words are the parts, each dimension with its dash as a word of its own or not. -/
def Spelled : List Part → List Word → Prop
  | [], ws => ws = []
  | p :: ps, ws => ∃ u v, ws = u ++ v ∧ p.Spells u ∧ Spelled ps v

theorem spelled_word {w : Word} {ps : List Part} {ws : List Word} :
    Spelled (.word w :: ps) ws ↔ ∃ v, ws = w :: v ∧ Spelled ps v := by
  constructor
  · intro h
    obtain ⟨u, v, rfl, rfl, hv⟩ := h
    exact ⟨v, rfl, hv⟩
  · intro h
    obtain ⟨v, rfl, hv⟩ := h
    exact ⟨[w], v, rfl, rfl, hv⟩

theorem spelled_append {ps qs : List Part} {ws : List Word} :
    Spelled (ps ++ qs) ws ↔ ∃ u v, ws = u ++ v ∧ Spelled ps u ∧ Spelled qs v := by
  induction ps generalizing ws with
  | nil =>
    constructor
    · intro h
      exact ⟨[], ws, rfl, rfl, h⟩
    · intro h
      obtain ⟨u, v, rfl, rfl, hv⟩ := h
      exact hv
  | cons p ps ih =>
    constructor
    · intro h
      obtain ⟨u, v, rfl, hu, hv⟩ := h
      obtain ⟨v₁, v₂, rfl, hv₁, hv₂⟩ := ih.mp hv
      exact ⟨u ++ v₁, v₂, by rw [List.append_assoc], ⟨u, v₁, rfl, hu, hv₁⟩, hv₂⟩
    · intro h
      obtain ⟨u, v, rfl, ⟨u₁, u₂, rfl, hu₁, hu₂⟩, hv⟩ := h
      exact ⟨u₁, u₂ ++ v, by rw [List.append_assoc], hu₁, ih.mpr ⟨u₂, v, rfl, hu₂, hv⟩⟩

theorem Spelled.nil : Spelled [] [] :=
  rfl

theorem Spelled.word {w : Word} {ps : List Part} {ws : List Word} (h : Spelled ps ws) :
    Spelled (.word w :: ps) (w :: ws) :=
  spelled_word.mpr ⟨ws, rfl, h⟩

theorem Spelled.plain {k : TokenKind} {ps : List Part} {ws : List Word} (h : Spelled ps ws) :
    Spelled (.plain k :: ps) (.plain k :: ws) :=
  h.word

theorem Spelled.append {ps qs : List Part} {us vs : List Word} (hp : Spelled ps us)
    (hq : Spelled qs vs) : Spelled (ps ++ qs) (us ++ vs) :=
  spelled_append.mpr ⟨us, vs, rfl, hp, hq⟩

/-- Parts can be read from their words. -/
theorem spelled_words (ps : List Part) : Spelled ps (ps.flatMap Part.words) := by
  induction ps with
  | nil => rfl
  | cons p ps ih =>
    refine ⟨p.words, ps.flatMap Part.words, List.flatMap_cons, ?_, ih⟩
    cases p with
    | word w => rfl
    | dimension text =>
      simp only [Part.words, Part.dimensionWords]
      split
      next digits hdigits =>
        refine Or.inr ⟨String.ofList digits, ?_, rfl⟩
        rw [← String.toList_inj, String.toList_append, hdigits]
        simp
      next => exact Or.inl rfl

/-- Where no number starts with a dash, parts can be read from their words only. -/
theorem Spelled.eq_words {ps : List Part} {ws : List Word} (h : Spelled ps ws)
    (hws : ∀ w ∈ ws, w.kind = .integerLiteral → w.text.toList.head? ≠ some '-') :
    ws = ps.flatMap Part.words := by
  induction ps generalizing ws with
  | nil => exact h
  | cons p ps ih =>
    obtain ⟨u, v, rfl, hu, hv⟩ := h
    have hrest := ih hv fun w hw => hws w (List.mem_append_right u hw)
    rw [List.flatMap_cons, ← hrest]
    congr 1
    cases p with
    | word w => exact hu
    | dimension text =>
      rcases hu with rfl | ⟨digits, rfl, rfl⟩
      · -- a number is never scanned with its minus, so the text is that of one word
        have htext : text.toList.head? ≠ some '-' := hws (.number .integer text) (by simp) rfl
        simp only [Part.words, Part.dimensionWords]
        split
        next digits hdigits => exact absurd (by rw [hdigits]; rfl) htext
        next => rfl
      · have hlist : ("-" ++ digits).toList = '-' :: digits.toList := by
          rw [String.toList_append]
          rfl
        simp only [Part.words, Part.dimensionWords, hlist, String.ofList_toList]

end CactLang
