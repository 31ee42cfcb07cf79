import CactLang.Proofs.Reading.Program
import CactLang.Proofs.Scanned

/-!
# Reading and writing programs

Reading gives back what was written, and what was read is written as it stood there. So,
but for identities and spans, the well-formed programs and the texts that are accepted
stand for each other.

> `parse_written`: the words of a well-formed program are read as that program.

> `parse_lossless`: a source that is read as a program consists of the words of that
> program, which is well-formed.
-/

namespace CactLang

open Spelling

/-- A well-formed program is read back from its words, whatever else the tokens carry. -/
theorem parse_written (p : Program) (hp : p.isWellFormed = true) (tokens : List Token)
    (file : String) (htokens : (Token.content tokens).map Token.word = p.words) :
    ∃ p' c, parse tokens file = .ok p' c ∧ p'.bare = p.erase.bare := by
  have hws : Program.spelling.Spells p p.words := ⟨hp, spelled_words p.parts⟩
  obtain ⟨t, rest, hinput, ht⟩ := Cursor.ofTokens_content tokens file
  have hwords : (Cursor.ofTokens tokens file).words =
      p.words ++ t.word :: rest.map Token.word := by
    unfold Cursor.words
    rw [hinput, List.map_append, htokens, List.map_cons]
  refine parse_of_words hws hwords fun w hw => ?_
  obtain rfl := Option.some.inj hw
  exact ht

/-- A program in which every `else` could be taken by another `if`, with a negative
dimension and operators of several precedences:

```
const int n[-2] = {1, {}};
void f(bool v[][3]) {
  if (v) while (true) if (g(1, -2)) ; else v[1 - 2 - 3 * 4] = !(1 < 2) == true; else return;
}
```
-/
def nestedBranches : Program :=
  let number (text : String) : Expr := .plain default (.number text .integer) default
  let binary (op : Operator) (a b : Expr) : Expr := .plain default (.binary op a b) default
  let stmt (kind : StmtKind) : Stmt := .plain default kind default
  let index : Expr :=
    binary .sub (binary .sub (number "1") (number "2")) (binary .mul (number "3") (number "4"))
  let value : Expr :=
    binary .equal
      (.plain default (.unary .not
        (.plain default (.paren (binary .less (number "1") (number "2"))) default)) default)
      (.plain default (.bool true) default)
  let call : Expr :=
    .plain default (.call "g" [number "1", .plain default (.unary .neg (number "2")) default]
      none) default
  let inner : Stmt :=
    stmt (.cond call (stmt (.expr none))
      (some (stmt (.assign (.plain default "v" [index] default) value))))
  let outer : Stmt :=
    stmt (.cond (.plain default (.lvalue (.plain default "v" [] default)) default)
      (stmt (.loop (.plain default (.bool true) default) inner)) (some (stmt (.ret none none))))
  ⟨default, [
    .decl ⟨default, true, .int32, [⟨default, "n", [⟨"-2", default⟩], some (.list default [
      .scalar default (number "1") default, .list default [] default] default), default, none⟩],
      default⟩,
    .func ⟨default, "f", .void, [⟨default, "v", .bool, true, [⟨"3", default⟩], default, none⟩],
      .plain default [.stmt outer] default, default, none, none⟩], default⟩

theorem parse_written_nestedBranches :
    nestedBranches.isWellFormed = true ∧
      ∃ p' c, parse (nestedBranches.words.map Word.token) "" = .ok p' c ∧
        p'.bare = nestedBranches.erase.bare := by
  have hp : nestedBranches.isWellFormed = true := by decide +kernel
  have htokens : (Token.content (nestedBranches.words.map Word.token)).map Token.word =
      nestedBranches.words := by decide +kernel
  exact ⟨hp, parse_written nestedBranches hp _ "" htokens⟩

/-- A source that is read as a program consists of the words of that program and the end of
the input, where reading stops. -/
theorem parse_lossless {source file file' : String} {tokens : List Token} {p : Program}
    {c : Cursor} (hscan : tokenize source file = .ok tokens)
    (hparse : parse tokens file' = .ok p c) :
    p.isWellFormed = true ∧
      ∃ before, tokens = before ++ [c.current] ∧ before.map Token.word = p.words ∧
        c.current.kind = .eof ∧ c.ahead = [] := by
  obtain ⟨before, last, rfl, hlast, hlexical⟩ := tokenize_ok hscan
  obtain ⟨hspells, hinput, heof⟩ := parse_ok hparse
  have hcontent : Token.content (before ++ [last]) = before :=
    Token.content_eq (fun t ht => (hlexical t ht).1) hlast
  rw [hcontent] at hspells hinput
  -- no integer starts with a dash, so the words of the program are the only spelling of it
  have hwords : before.map Token.word = p.words := by
    refine hspells.2.eq_words fun w hw hk => ?_
    obtain ⟨t, ht, rfl⟩ := List.mem_map.mp hw
    have htext : t.word.text = t.text := if_pos (by rw [show t.kind = .integerLiteral from hk]; rfl)
    rw [htext]
    exact (hlexical t ht).2 hk
  rw [Cursor.ofTokens_ended hlast] at hinput
  obtain ⟨hcurrent, hahead⟩ := List.cons.inj (List.append_cancel_left hinput)
  exact ⟨hspells.1, before, by rw [hcurrent], hwords, heof, hahead.symm⟩

/-- Whether a source is read as a program. -/
def readsSource (source : String) : Bool :=
  match tokenize source with
  | .error _ => false
  | .ok tokens =>
    match parse tokens "shell" with
    | .error _ _ => false
    | .ok _ _ => true

theorem exists_of_readsSource (source : String) (h : readsSource source = true) :
    ∃ tokens p c, tokenize source = .ok tokens ∧ parse tokens "shell" = .ok p c := by
  unfold readsSource at h
  cases hscan : tokenize source with
  | error e =>
    rw [hscan] at h
    cases h
  | ok tokens =>
    simp only [hscan] at h
    cases hparse : parse tokens "shell" with
    | error e c =>
      rw [hparse] at h
      cases h
    | ok p c => exact ⟨tokens, p, c, rfl, hparse⟩

/-- A source with comments between its tokens, one of them inside a negative dimension. -/
def commentedSource : String :=
  "int a[- /* two */ 2], b = f(1); // a call\n" ++
  "void f(int v[][3]) \x7b if (!a[0]) v[0][1] = -1 + 2 * 0x3; else \x7b \x7d /* */ \x7d"

theorem parse_lossless_commentedSource :
    ∃ tokens p c, tokenize commentedSource = .ok tokens ∧ parse tokens "shell" = .ok p c ∧
      p.isWellFormed = true ∧
      ∃ before, tokens = before ++ [c.current] ∧ before.map Token.word = p.words ∧
        c.current.kind = .eof ∧ c.ahead = [] := by
  obtain ⟨tokens, p, c, hscan, hparse⟩ :=
    exists_of_readsSource commentedSource (by decide +kernel)
  exact ⟨tokens, p, c, hscan, hparse, parse_lossless hscan hparse⟩

end CactLang
