import CactLang.Grammar.Statement
import CactLang.Proofs.Guarded.Tape
import CactLang.Proofs.Reading.Program

/-!
# The grammar by place

Each phrase of the grammar has a reader here, of the same name. What is left to show is that no
phrase takes the end of the input, and that it hands out no more identities than its tokens pay
for: an expression ends in a token, so it leaves one over, and so do the brackets of a block.

> `parsed?_eq`: on at most `2 ^ 30` tokens, reading by place gives what reading gives.
-/

namespace CactLang.Reader

variable {next : Option TokenKind} {k : TokenKind} {n : Nat}

/-! ## Expressions -/

section

variable {expr : Precedence → Phrase Expr}

/-! A token pays for three identities: for that of a leaf and two more. -/

/-- A number is one token and one node. -/
def number (hk : k ≠ .eof) : Reader (some k) n (n + 1) Phrase.number :=
  bind (advance hk) fun token =>
    match NumberKind.ofToken? token.kind with
    | none => throw _
    | some _ => bind (freshId (Nat.le_succ (n + 2))) fun _ => pure _ (Nat.le_refl (n + 1))

/-- A truth value is one token and one node. -/
def truth (hk : k ≠ .eof) : Reader (some k) n (n + 1) Phrase.truth :=
  bind (advance hk) fun _ => bind (freshId (Nat.le_succ (n + 2))) fun _ =>
    pure _ (Nat.le_refl (n + 1))

/-- A call makes one node of its own. A variable makes two, which its name pays for. -/
def nameWith (hk : k ≠ .eof) (x : ∀ b {n}, Reader none n (n + 1) (expr b)) :
    Reader (some k) n (n + 1) (Phrase.nameWith expr) :=
  bind (advance hk) fun _ => kind fun k => ite
    (fun hparen => bind (advance (hparen ▸ by decide)) fun _ =>
      bind (listUntil .closeParen (by decide) (x .lowest).spare) fun _ => node)
    (fun _ => bind (bracketed (x .lowest).spare) fun _ => bind (spanFrom _) fun _ =>
      bind (freshId (l := n + 2)) fun _ => bind (freshId (l := n + 1)) fun _ => pure _)

/-- A sign is one token and one node. -/
def signWith (hk : k ≠ .eof) (x : ∀ b {n}, Reader none n (n + 1) (expr b)) :
    Reader (some k) n (n + 1) (Phrase.signWith expr) :=
  bind (advance hk) fun token =>
    match Operator.ofUnary? token.kind with
    | none => throw _
    | some _ => bind (x .unary) fun _ => node (Nat.le_add_right (n + 2) 2)

/-- A group has two tokens and one node. -/
def groupWith (hk : k ≠ .eof) (x : ∀ b {n}, Reader none n (n + 1) (expr b)) :
    Reader (some k) n (n + 1) (Phrase.groupWith expr) :=
  bind (advance hk) fun _ => bind (x .lowest) fun _ => bind (expect .closeParen) fun _ => node

/-- Each form of operand leaves an identity over. The end of the input announces none of them. -/
def operandWith (x : ∀ b {n}, Reader none n (n + 1) (expr b)) :
    Reader next n (n + 1) (Phrase.operandWith expr) :=
  kind fun k =>
    have hk {form : OperandForm} (h : OperandForm.ofToken? k = some form) : k ≠ .eof := by
      rintro rfl
      cases h
    match h : OperandForm.ofToken? k with
    | none => unexpected _
    | some .number => number (hk h)
    | some .truth => truth (hk h)
    | some .name => nameWith (hk h) x
    | some .sign => signWith (hk h) x
    | some .group => groupWith (hk h) x

/-- An operator pays for the node that it makes. -/
def operationWith (hk : k ≠ .eof) (x : ∀ b {n}, Reader none n (n + 1) (expr b)) (left : Expr)
    (b : Precedence) : Reader (some k) n n (Phrase.operationWith expr left b) :=
  bind (advance hk) fun token =>
    match Operator.ofBinary? token.kind with
    | none => throw _
    | some _ => bind (x b) fun _ => bind (freshId (l := n)) fun _ => pure _

/-- No operator is the end of the input, so each round takes a token. -/
def extendWith (x : ∀ b {n}, Reader none n (n + 1) (expr b)) (bound : Precedence) :
    (rounds : Nat) → (left : Expr) → Reader none n n (Phrase.extendWith expr bound rounds left)
  | 0, left => pure left
  | rounds + 1, left => kind fun k =>
    match h : Precedence.ofToken? k with
    | none => pure left
    | some b => ite
      (fun _ => bind (operationWith (by rintro rfl; cases h) x left b) fun left =>
        extendWith x bound rounds left)
      fun _ => pure left

end

/-- Expressions of bounded nesting, with an identity left over. -/
def exprWithin : (levels : Nat) → (bound : Precedence) → {n : Nat} →
    Reader none n (n + 1) (Phrase.exprWithin levels bound)
  | 0, _, _ => unexpected _
  | levels + 1, bound, _ => bind (operandWith (exprWithin levels)) fun left =>
    withLeft fun rounds => extendWith (exprWithin levels) bound rounds left

/-- Expressions, with as many levels of nesting as tokens stand ahead. -/
def expr (bound : Precedence) : Reader next n (n + 1) (Phrase.expr bound) :=
  withLeft fun levels => (exprWithin (levels + 1) bound).anywhere

/-! ## Declarations -/

/-- The token of a type makes no node. -/
def basicType (allowVoid : Bool) : Reader next n (n + 3) (Phrase.basicType allowVoid) :=
  -- Each kind of token settles whether the phrase takes it.
  kind fun k => by
    cases allowVoid <;> cases k
    all_goals first | exact bind (advance (by decide)) fun _ => pure _ | exact unexpected _

/-- A name makes no node of its own. -/
def identifier (place : String) : Reader next n (n + 3) (Phrase.identifier place) :=
  bind (expectHint _ _) fun _ => pure _

/-- A dimension has no identity. -/
def dimension : Reader none n n Phrase.dimension :=
  bind position fun _ => kind fun _ => ite
    (fun hdash => bind (advance (hdash ▸ by decide)) fun _ =>
      bind (expectHint _ _) fun _ => bind (spanFrom _) fun _ => pure _)
    fun _ => bind (expectHint _ _) fun _ => bind (spanFrom _) fun _ => pure _

/-- A single value wraps its expression in one node, for which the expression has left an
identity. -/
def initializerWith {init : Phrase Initializer} (x : ∀ {n}, Reader none n n init) :
    Reader none n n (Phrase.initializerWith init) :=
  bind position fun _ => kind fun _ => ite
    (fun hopen => bind (advance (hopen ▸ by decide)) fun _ =>
      bind (listUntil .closeCurly (by decide) x) fun _ => node)
    fun _ => bind (expr .lowest) fun _ => node

/-- Initial values of bounded nesting. -/
def initializerWithin : (levels : Nat) → {n : Nat} →
    Reader none n n (Phrase.initializerWithin levels)
  | 0, _ => unexpected _
  | levels + 1, _ => initializerWith (initializerWithin levels)

/-- Initial values, with as many levels of nesting as tokens stand ahead. -/
def initializer : Reader next n n Phrase.initializer :=
  withLeft fun levels => (initializerWithin (levels + 1)).anywhere

/-- The name pays for the node of a definition. -/
def varDef (isConstant : Bool) : Reader none n n (Phrase.varDef isConstant) :=
  bind position fun _ => bind (identifier _) fun _ => bind (bracketed dimension) fun _ =>
    kind fun _ => ite
      (fun hassign => bind (advance (hassign ▸ by decide)) fun _ =>
        bind (map some initializer) fun _ => node)
      fun _ => ite (fun _ => bind (unexpected (l := n + 3) _) fun _ => node)
        fun _ => bind (pure none (Nat.le_refl _)) fun _ => node

/-- The type pays for the node of a declaration. -/
def decl : Reader next n n Phrase.decl :=
  bind position fun _ => kind fun _ => ite
    (fun hconst => bind (advance (hconst ▸ by decide)) fun _ => bind (basicType false) fun _ =>
      bind (commaSeparated (varDef _)) fun _ => bind (expect .semicolon) fun _ => node)
    fun _ => bind (basicType false) fun _ =>
      bind (commaSeparated (varDef _)) fun _ => bind (expect .semicolon) fun _ => node

/-- The first dimension of a parameter, after its opening bracket. -/
def outerDimension (hk : k ≠ .eof) : Reader (some k) n n Phrase.outerDimension :=
  bind (advance hk) fun _ => kind fun _ => ite
    (fun _ => bind (pure none (Nat.le_refl _)) fun _ =>
      bind (expect .closeBracket) fun _ => pure _)
    fun _ => bind (map some dimension.anywhere) fun _ =>
      bind (expect .closeBracket) fun _ => pure _

/-- The type pays for the node of a parameter. -/
def param : Reader none n n Phrase.param :=
  bind position fun _ => bind (basicType false) fun _ => bind (identifier _) fun _ =>
    kind fun _ => ite
      (fun hopen => bind (outerDimension (hopen ▸ by decide)) fun
        | none => bind (pure _ (Nat.le_refl _)) fun _ => bind (bracketed dimension) fun _ => node
        | some _ => bind (pure _ (Nat.le_refl _)) fun _ =>
          bind (bracketed dimension) fun _ => node)
      fun _ => bind (pure _ (Nat.le_refl _)) fun _ => bind (bracketed dimension) fun _ => node

/-! ## Statements -/

/-- The semicolon pays for the node of the statement. -/
def exprStmt : Reader next n n Phrase.exprStmt :=
  bind position fun _ => bind (expr .lowest) fun left => kind fun _ => ite
    (fun hassign => by
      obtain ⟨_, kind, _, _⟩ := left
      cases kind with
      | lvalue _ =>
        exact bind (advance (hassign ▸ by decide)) fun _ => bind (expr .lowest) fun _ =>
          bind (expect .semicolon) fun _ => node
      | _ => exact unexpected _)
    fun _ => bind (expect .semicolon) fun _ => node

/-- The empty statement is one token and one node. -/
def emptyStmt (hk : k ≠ .eof) : Reader (some k) n n Phrase.emptyStmt :=
  bind (advance hk) fun _ => node

/-- A condition makes no node besides its expression. -/
def condition : Reader none n n Phrase.condition :=
  bind (expect .openParen) fun _ => bind (expr .lowest) fun _ =>
    bind (expect .closeParen) fun _ => pure _

section

variable {stmt : Phrase Stmt}

/-- An item of a block makes no node of its own. -/
def blockItemWith (x : ∀ {n}, Reader none n n stmt) :
    Reader next n n (Phrase.blockItemWith stmt) :=
  kind fun _ => ite (fun _ => map _ decl) fun _ => map _ x.anywhere

/-- The two brackets of a block pay for its node and for the statement around it. -/
def blockWith (x : ∀ {n}, Reader none n n stmt) : Reader none n (n + 1) (Phrase.blockWith stmt) :=
  bind position fun _ => bind (expect .openCurly) fun _ =>
    bind (many _ fun _ _ => blockItemWith x) fun _ => bind (expect .closeCurly) fun _ => node

/-- A block as a statement makes a second node, for which the block has left an identity. -/
def blockStmtWith (x : ∀ {n}, Reader none n n stmt) :
    Reader next n n (Phrase.blockStmtWith stmt) :=
  bind position fun _ => bind (blockWith x) fun _ => node

/-- The keyword pays for the node of a condition. -/
def ifStmtWith (hk : k ≠ .eof) (x : ∀ {n}, Reader none n n stmt) :
    Reader (some k) n n (Phrase.ifStmtWith stmt) :=
  bind (advance hk) fun _ => bind condition fun _ => bind x fun _ => kind fun _ => ite
    (fun helse => bind (advance (helse ▸ by decide)) fun _ => bind (map some x) fun _ => node)
    fun _ => bind (pure none (Nat.le_refl _)) fun _ => node

/-- The keyword pays for the node of a loop. -/
def whileStmtWith (hk : k ≠ .eof) (x : ∀ {n}, Reader none n n stmt) :
    Reader (some k) n n (Phrase.whileStmtWith stmt) :=
  bind (advance hk) fun _ => bind condition fun _ => bind x fun _ => node

/-- The keyword pays for the node of a jump. -/
def jumpStmt (hk : k ≠ .eof) (jump : StmtKind) : Reader (some k) n n (Phrase.jumpStmt jump) :=
  bind (advance hk) fun _ => bind (expect .semicolon) fun _ => node

/-- The keyword pays for the node of a return. -/
def returnStmt (hk : k ≠ .eof) : Reader (some k) n n Phrase.returnStmt :=
  bind (advance hk) fun _ => kind fun _ => ite
    (fun _ => bind (pure none (Nat.le_refl _)) fun _ => bind (expect .semicolon) fun _ => node)
    fun _ => bind (map some (expr .lowest)) fun _ => bind (expect .semicolon) fun _ => node

/-- The forms of statements that a token announces. The end of the input announces none
of them. -/
def stmtWith (x : ∀ {n}, Reader none n n stmt) : Reader none n n (Phrase.stmtWith stmt) :=
  kind fun k =>
    have hk {form : StmtForm} (h : StmtForm.ofToken? k = some form) : k ≠ .eof := by
      rintro rfl
      cases h
    match h : StmtForm.ofToken? k with
    | some .block => blockStmtWith x
    | some .cond => ifStmtWith (hk h) x
    | some .loop => whileStmtWith (hk h) x
    | some .leave => jumpStmt (hk h) _
    | some .next => jumpStmt (hk h) _
    | some .ret => returnStmt (hk h)
    | some .empty => emptyStmt (hk h)
    | none => exprStmt

end

/-- Statements of bounded nesting. -/
def stmtWithin : (levels : Nat) → {n : Nat} → Reader none n n (Phrase.stmtWithin levels)
  | 0, _ => unexpected _
  | levels + 1, _ => stmtWith (stmtWithin levels)

/-- Statements, with as many levels of nesting as tokens stand ahead. -/
def stmt : Reader none n n Phrase.stmt :=
  withLeft fun levels => stmtWithin (levels + 1)

/-- The body of a function. -/
def block : Reader none n (n + 1) Phrase.block :=
  blockWith stmt

/-! ## Programs -/

/-- The type pays for the node of a function definition. -/
def funcDef : Reader none n n Phrase.funcDef :=
  bind position fun _ => bind (basicType true) fun _ => bind (identifier _) fun _ =>
    bind (expect .openParen) fun _ => bind (listUntil .closeParen (by decide) param) fun _ =>
      bind block fun _ => node

/-- Whether a function definition starts at the next token. -/
def startsFuncDef : Machine Bool := do
  let k := (← Machine.current).kind
  let next := (← Machine.peek 1).kind
  let second := (← Machine.peek 2).kind
  return k = .kwVoid || (k.isDataType && next = .identifier && second = .openParen)

/-- What the next item is known by. -/
def itemForm : Machine (Bool × Bool) := do
  return (← startsFuncDef, (← Machine.current).kind.startsDecl)

/-- Looking ahead by place sees what the cursor sees. -/
theorem startsFuncDef_eq {t : Tape} {c : Cursor} (h : t.Shows c) :
    startsFuncDef t = .ok (Phrase.startsFuncDef c) t := by
  rw [startsFuncDef, Machine.bind_ok h.current, Machine.bind_ok (h.peek (by decide)),
    Machine.bind_ok (h.peek (by decide))]
  rfl

/-- The next item is known by the same tokens. -/
theorem itemForm_eq {t : Tape} {c : Cursor} (h : t.Shows c) :
    itemForm t = .ok (Phrase.startsFuncDef c, c.current.kind.startsDecl) t := by
  rw [itemForm, Machine.bind_ok (startsFuncDef_eq h), Machine.bind_ok h.current]
  rfl

/-- The item that is known by this. -/
def itemOf (isFunc isDecl : Bool) : Phrase Item :=
  if isFunc then .func <$> Phrase.funcDef
  else if isDecl then .decl <$> Phrase.decl
  else Phrase.unexpected "expected a declaration or function definition"

/-- An item of a program makes no node of its own. -/
def item : Reader none n n Phrase.item :=
  have ofForm (form : Bool × Bool) : Reader none n n (itemOf form.1 form.2) :=
    ite (fun _ => map _ funcDef) fun _ => ite (fun _ => map _ decl) fun _ => unexpected _
  looking itemForm itemForm_eq ofForm

/-- A program is the one node that no token pays for. -/
def program : Reader none 1 0 Phrase.program :=
  bind (freshId (l := 0)) fun _ => bind position fun _ =>
    bind (many _ fun _ _ => item.anywhere) fun _ => bind position fun _ => pure _

end CactLang.Reader

namespace CactLang

/-- The tokens of an input from the first one on. An end-of-input token is put after the last
one, unless it is one. -/
def Tape.ofTokens (tokens : List Token) (file : String) : Tape :=
  let closed := match tokens.getLast? with
    | none => [.endOfInput ⟨0, file⟩]
    | some last => if last.kind = .eof then tokens else tokens ++ [.endOfInput last.span.stop]
  ⟨closed, file, 0, 0⟩

namespace Tape

/-- The tape and the cursor have the same tokens, closed in the same way. -/
theorem ofTokens_tokens (tokens : List Token) (file : String) :
    (ofTokens tokens file).tokens = (Cursor.ofTokens tokens file).tokens := by
  cases tokens with
  | nil => rfl
  | cons first rest =>
    have hlast : (first :: rest).getLast? = some (rest.getLastD first) := by
      rw [List.getLast?_cons, List.getLastD_eq_getLast?]
    unfold ofTokens Cursor.ofTokens Cursor.tokens
    rw [hlast]
    by_cases heof : (rest.getLastD first).kind = .eof
    · simp only [if_pos heof, List.append_nil]
    · simp only [if_neg heof, List.cons_append]

/-- The tape of an input shows its cursor. -/
theorem ofTokens_shows {tokens : List Token} {file : String}
    (h : (Cursor.ofTokens tokens file).tokens.length < 2 ^ 32) :
    (ofTokens tokens file).Shows (Cursor.ofTokens tokens file) := by
  refine ⟨by rwa [ofTokens_tokens], ofTokens_tokens tokens file, fun _ => ?_, ?_, ?_⟩
  · cases tokens <;> rfl
  · intro before hplace
    cases hplace
  · cases tokens <;> rfl

end Tape

/-- At most the end of the input is added. -/
theorem Cursor.ofTokens_length (tokens : List Token) (file : String) :
    (ofTokens tokens file).ahead.length ≤ tokens.length := by
  rcases ofTokens_cases tokens file with ⟨htokens, _⟩ | ⟨_, htokens, _⟩
  · have hlength := congrArg List.length htokens
    rw [Cursor.tokens, List.length_cons] at hlength
    omega
  · have hlength := congrArg List.length htokens
    rw [Cursor.tokens, List.length_cons, List.length_append, List.length_singleton] at hlength
    omega

/-- The program that is read and the number of identities handed out, or a diagnostic. -/
def parsed (tokens : List Token) (file : String) : Except Diagnostic (Program × Nat) :=
  match parse tokens file with
  | .ok p c => .ok (p, c.nodeCount)
  | .error d _ => .error d

/-- The same by place, unless a place or an identity is out of range. -/
def parsed? (tokens : List Token) (file : String) : Option (Except Diagnostic (Program × Nat)) :=
  match Reader.program.run (Tape.ofTokens tokens file) with
  | .ok p t => some (.ok (p, t.nodeCount))
  | .error (.diagnostic d) _ => some (.error d)
  | .error .fault _ => none

/-- **Reading by place is never out of range.** -/
theorem parsed?_eq {tokens : List Token} {file : String} (h : tokens.length ≤ 2 ^ 30) :
    parsed? tokens file = some (parsed tokens file) := by
  have hlength := Cursor.ofTokens_length tokens file
  have hshows : (Tape.ofTokens tokens file).Shows (Cursor.ofTokens tokens file) := by
    refine Tape.ofTokens_shows ?_
    rw [Cursor.tokens, List.length_cons]
    omega
  have hcount : (Cursor.ofTokens tokens file).nodeCount = 0 := by
    cases tokens <;> rfl
  have hspares : (Cursor.ofTokens tokens file).Spares 1 :=
    ⟨Cursor.ofTokens_closed tokens file, by omega⟩
  unfold parsed? parsed parse
  cases Reader.program.follows hshows hspares (Reader.at_any _) with
  | ok hx hm hshows _ =>
    rw [hx, hm]
    dsimp only
    rw [hshows.nodeCount]
  | error hx hm => rw [hx, hm]

end CactLang
