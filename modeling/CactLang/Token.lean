import CactLang.Source.Position

/-!
# Tokens

The words of the language. A token has a kind, the text it was written with and
the span it was read from; the end of the input is a token too, so that a reader
always has one in front of it.
-/

namespace CactLang

/-- The kinds of tokens. -/
inductive TokenKind where
  | eof
  | identifier
  | integerLiteral
  | floatLiteral
  | doubleLiteral
  | openBracket
  | closeBracket
  | openCurly
  | closeCurly
  | openParen
  | closeParen
  | assign
  | equal
  | not
  | notEqual
  | less
  | lessEqual
  | greater
  | greaterEqual
  | or
  | and
  | semicolon
  | comma
  | plus
  | dash
  | slash
  | star
  | percent
  | kwConst
  | kwInt32
  | kwBool
  | kwFloat
  | kwDouble
  | kwVoid
  | kwIf
  | kwElse
  | kwWhile
  | kwBreak
  | kwContinue
  | kwReturn
  | kwTrue
  | kwFalse
  deriving DecidableEq, Repr, Inhabited

namespace TokenKind

/-- The name a kind is shown by. -/
def label : TokenKind → String
  | eof => "EOF"
  | identifier => "Identifier"
  | integerLiteral => "IntegerConstant"
  | floatLiteral => "FloatConstant"
  | doubleLiteral => "DoubleConstant"
  | openBracket => "OpenBracket"
  | closeBracket => "CloseBracket"
  | openCurly => "OpenCurly"
  | closeCurly => "CloseCurly"
  | openParen => "OpenParen"
  | closeParen => "CloseParen"
  | assign => "Assignment"
  | equal => "Equals"
  | not => "Not"
  | notEqual => "NotEquals"
  | less => "Less"
  | lessEqual => "LessEquals"
  | greater => "Greater"
  | greaterEqual => "GreaterEquals"
  | or => "Or"
  | and => "And"
  | semicolon => "Semicolon"
  | comma => "Comma"
  | plus => "Plus"
  | dash => "Dash"
  | slash => "Slash"
  | star => "Star"
  | percent => "Percent"
  | kwConst => "Const"
  | kwInt32 => "Int32"
  | kwBool => "Bool"
  | kwFloat => "Float"
  | kwDouble => "Double"
  | kwVoid => "Void"
  | kwIf => "If"
  | kwElse => "Else"
  | kwWhile => "While"
  | kwBreak => "Break"
  | kwContinue => "Continue"
  | kwReturn => "Return"
  | kwTrue => "True"
  | kwFalse => "False"

/-- Every kind, each once. -/
def all : List TokenKind :=
  [eof, identifier, integerLiteral, floatLiteral, doubleLiteral, openBracket, closeBracket,
    openCurly, closeCurly, openParen, closeParen, assign, equal, not, notEqual, less, lessEqual,
    greater, greaterEqual, or, and, semicolon, comma, plus, dash, slash, star, percent, kwConst,
    kwInt32, kwBool, kwFloat, kwDouble, kwVoid, kwIf, kwElse, kwWhile, kwBreak, kwContinue,
    kwReturn, kwTrue, kwFalse]

/-- The kind with a given label. -/
def ofLabel? (label : String) : Option TokenKind :=
  all.find? (·.label == label)

/-- The words that are not identifiers; `int` and `int32` are the same word. -/
def reserved : List (String × TokenKind) :=
  [("const", kwConst), ("int", kwInt32), ("int32", kwInt32), ("bool", kwBool),
    ("float", kwFloat), ("double", kwDouble), ("void", kwVoid), ("if", kwIf), ("else", kwElse),
    ("while", kwWhile), ("break", kwBreak), ("continue", kwContinue), ("return", kwReturn),
    ("true", kwTrue), ("false", kwFalse)]

/-- The kind of a reserved word. -/
def ofReserved? (word : String) : Option TokenKind :=
  reserved.lookup word

/-- The kind of a word: reserved, or else an identifier. -/
def ofWord (word : String) : TokenKind :=
  (ofReserved? word).getD identifier

/-- Whether a token of this kind names a type that variables can have. -/
def isDataType : TokenKind → Bool
  | kwInt32 | kwBool | kwFloat | kwDouble => true
  | _ => false

/-- Whether a token of this kind is a numeric literal. -/
def isNumber : TokenKind → Bool
  | integerLiteral | floatLiteral | doubleLiteral => true
  | _ => false

end TokenKind

/-- A word of the source. -/
structure Token where
  /-- What the word is. -/
  kind : TokenKind
  /-- The word as written. -/
  text : String
  /-- Where it stands. -/
  span : Span
  deriving DecidableEq, Repr, Inhabited

namespace Token

/-- The token that ends every input, standing at its last position. -/
def endOfInput (position : Position) : Token :=
  ⟨.eof, "EOF", ⟨position, position⟩⟩

/-- The token as a person is shown it. -/
def describe (t : Token) : String :=
  "Token \x7b\nkind: " ++ t.kind.label ++ ",\nvalue: " ++ t.text ++ "\x7d"

end Token

end CactLang
