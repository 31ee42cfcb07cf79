import CactLang.Source.Position
import CactLang.Text.Quoted
import CactLang.Tree.NodeId

/-!
# Diagnostics

What can be wrong with a program, said as a cause; where, as a position and, for
what the type checker finds, a tree node. Each cause has a name, a message and,
except for a character that starts no token, a tip. This module is the only
place that knows their wording.
-/

namespace CactLang

open Text (quoted)

/-- What is wrong. -/
inductive Cause where
  /-- A character that starts no token. -/
  | unrecognised (token : String)
  /-- A token where another one had to stand. -/
  | unexpected (token : String)
  /-- A token out of place, with a hint on what was expected. -/
  | unexpectedHint (token hint : String)
  /-- A numeric literal without a value in its type. -/
  | badNumber (token : String)
  /-- A second declaration of a name in one scope. -/
  | duplicate (name : String)
  /-- A variable no enclosing scope declares. -/
  | undeclaredVariable (name : String)
  /-- A function not declared before its call. -/
  | undeclaredFunction (name : String)
  /-- An array dimension that is not a positive 32-bit number. -/
  | badDimension (dimension : String)
  /-- An initializer whose braces do not fit the array shape. -/
  | shapeMismatch (depth : Nat) (reason : String)
  /-- An initializer element that mentions a variable or a call. -/
  | notConstant
  /-- A value of another type than its place asks for. -/
  | typeMismatch (expected received : String)
  /-- A returned value of another type than the function's. -/
  | returnMismatch (expected received : String)
  /-- More indices than dimensions. -/
  | overIndexed (name : String) (dimensions indices : Nat)
  /-- An index that is not a scalar `int32`. -/
  | badIndex (received : String)
  /-- An assignment to a constant. -/
  | notAssignable (name : String)
  /-- An operator applied to operands it does not take. -/
  | badOperand (operator operand : String)
  /-- A jump without a loop around it. -/
  | outsideLoop (statement : String)
  /-- A call with arguments left over. -/
  | tooManyArguments (function : String) (expected received : Nat)
  /-- A call with arguments missing. -/
  | tooFewArguments (function : String) (expected received : Nat)
  /-- An argument its parameter does not accept; arguments count from zero here. -/
  | argumentMismatch (function : String) (index : Nat) (expected received : String)
  deriving DecidableEq, Repr

namespace Cause

/-- The name reports open with. -/
def name : Cause → String
  | unrecognised .. => "UnrecognisedToken"
  | unexpected .. => "UnexpectedToken"
  | unexpectedHint .. => "UnexpectedTokenDetailed"
  | badNumber .. => "NumberParseError"
  | duplicate .. => "DuplicateSymbol"
  | undeclaredVariable .. => "UndeclaredSymbol"
  | undeclaredFunction .. => "UndeclaredFunction"
  | badDimension .. => "InvalidArrayDimension"
  | shapeMismatch .. => "ArrayDimensionMismatch"
  | notConstant => "NonConstantInitializer"
  | typeMismatch .. => "TypeMismatch"
  | returnMismatch .. => "ReturnTypeMismatch"
  | overIndexed .. => "ScalarIndexing"
  | badIndex .. => "InvalidArrayIndexType"
  | notAssignable .. => "InvalidAssignmentTarget"
  | badOperand .. => "InvalidOperandType"
  | outsideLoop .. => "ControlFlowOutsideLoop"
  | tooManyArguments .. => "TooManyArguments"
  | tooFewArguments .. => "TooFewArguments"
  | argumentMismatch .. => "ArgumentTypeMismatch"

/-- The message, without the place. -/
def message : Cause → String
  | unrecognised token => s!"unrecognised token: {quoted token}"
  | unexpected token => s!"unexpected token: {quoted token}"
  | unexpectedHint token hint => s!"unexpected token ({quoted hint}): {quoted token}"
  | badNumber token => s!"error parsing number: {quoted token}"
  | duplicate name => s!"symbol {quoted name} already declared"
  | undeclaredVariable name => s!"symbol {quoted name} not declared"
  | undeclaredFunction name => s!"function {quoted name} not declared"
  | badDimension dimension => s!"invalid array dimension {dimension}"
  | shapeMismatch depth reason => s!"array initializer mismatch at depth {depth}: {reason}"
  | notConstant => "initializer element is not a constant expression"
  | typeMismatch expected received =>
    s!"types do not match: expected {expected}, received {received}"
  | returnMismatch expected received =>
    s!"return type mismatch: expected {expected}, received {received}"
  | overIndexed name dimensions indices =>
    s!"{quoted name} indexed {indices} times but has {dimensions} dimensions"
  | badIndex received => s!"array index must be int32, received {received}"
  | notAssignable name => s!"{quoted name} is not a valid assignment target"
  | badOperand operator operand => s!"operator {operator} cannot be applied to {operand}"
  | outsideLoop statement => s!"{statement} outside of a loop"
  | tooManyArguments function expected received =>
    s!"too many arguments to {quoted function}: expected {expected}, received {received}"
  | tooFewArguments function expected received =>
    s!"too few arguments to {quoted function}: expected {expected}, received {received}"
  | argumentMismatch function index expected received =>
    s!"argument {index} of {quoted function}: expected {expected}, received {received}"

/-- What to do about it. In tips, arguments count from one. -/
def tip : Cause → Option String
  | unrecognised _ => none
  | unexpected token => some s!"Unexpected token: `{token}`, did you miss a semicolon?"
  | unexpectedHint token hint => some s!"Unexpected token: `{token}`, {hint}"
  | badNumber token => some s!"Invalid number: `{token}`, is it above the integer limit?"
  | duplicate name => some s!"`{name}` is already declared in this scope"
  | undeclaredVariable name => some s!"Variable `{name}` not declared"
  | undeclaredFunction name => some s!"Function `{name}` not declared before this call"
  | badDimension dimension => some s!"Array dimension `{dimension}` must be a positive integer"
  | shapeMismatch depth reason =>
    some s!"Initializer does not match the array shape at depth {depth}: {reason}"
  | notConstant => some "Initializer elements must be constant expressions"
  | typeMismatch expected received => some s!"Expected type `{expected}`, received `{received}`"
  | returnMismatch expected received =>
    some s!"Function returns `{expected}`, received `{received}`"
  | overIndexed name dimensions indices =>
    some s!"`{name}` has {dimensions} dimension(s) but is indexed {indices} time(s)"
  | badIndex received => some s!"Array indices must be `int32`, received `{received}`"
  | notAssignable name => some s!"`{name}` is a constant and cannot be assigned to"
  | badOperand operator operand => some s!"Operator `{operator}` cannot be applied to `{operand}`"
  | outsideLoop statement => some s!"`{statement}` used outside of a while loop"
  | tooManyArguments function expected received =>
    some s!"`{function}` expects {expected} arguments, received {received}"
  | tooFewArguments function expected received =>
    some s!"`{function}` expects {expected} arguments, received {received}"
  | argumentMismatch function index expected received =>
    some s!"Argument {index + 1} of `{function}` expects `{expected}`, received `{received}`"

end Cause

/-- Something wrong at a place. -/
structure Diagnostic where
  /-- What is wrong. -/
  cause : Cause
  /-- Where the report points. -/
  position : Position
  /-- The tree node it is about, if a tree was there already. -/
  node : Option NodeId := none
  deriving DecidableEq, Repr

namespace Diagnostic

/-- A diagnostic about a tree node, pointing at the start of `span`. -/
def ofNode (cause : Cause) (id : NodeId) (span : Span) : Diagnostic :=
  ⟨cause, span.start, some id⟩

/-- The message with its place. -/
def message (d : Diagnostic) : String :=
  s!"{d.cause.message} at {d.position.file}:{d.position.offset}"

end Diagnostic

end CactLang
