import CactLang.Diagnostic
import CactLang.Text.Width
import CactLang.Token.Lexeme

/-!
# From text to tokens

`tokenize` cuts a source into lexemes from left to right, keeps those that are
tokens, each with the span of its bytes, and puts the end-of-input token after
them. The first character that starts no lexeme stops it.
-/

namespace CactLang

open Text (width)

/-- The span of `bytes` bytes from `offset` on. -/
def Span.ofBytes (file : String) (offset bytes : Nat) : Span :=
  ⟨Position.ofBytes file offset, Position.ofBytes file (offset + bytes)⟩

namespace Token

/-- The tokens of `text`, which starts at byte `offset` of `file`. -/
def scan (file : String) (offset : Nat) : List Char → Except Diagnostic (List Token)
  | [] => .ok [endOfInput (Position.ofBytes file offset)]
  | c :: text =>
    match _claimed : Lexeme.first? (c :: text) with
    | none => .error ⟨.unrecognised (String.singleton c), Position.ofBytes file offset, none⟩
    | some lexeme => do
      let bytes := width lexeme.text
      let tokens ← scan file (offset + bytes) lexeme.rest
      match lexeme.kind with
      | none => return tokens
      | some kind =>
        return ⟨kind, String.ofList lexeme.text, Span.ofBytes file offset bytes⟩ :: tokens
termination_by text => text.length
decreasing_by exact Lexeme.length_rest_lt _claimed

end Token

/-- The tokens of a source, or the first character that starts none. -/
def tokenize (source : String) (file : String := "shell") : Except Diagnostic (List Token) :=
  Token.scan file 0 source.toList

end CactLang
