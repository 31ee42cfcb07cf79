import CactLang.Grammar.Expression
import CactLang.Tree.Decl

/-!
# Reading declarations

Declarations of variables, with dimensions and initializers, and parameters of
functions. A dimension is an integer literal, not an expression; whether it is a
possible one is for the type checker to say.
-/

namespace CactLang.Phrase

/-- The keyword of an element kind; `void` only where it is allowed. -/
def basicType (allowVoid : Bool) : Phrase BasicType := do
  let basic? : Option BasicType := match ← kind with
    | .kwInt32 => some .int32
    | .kwBool => some .bool
    | .kwFloat => some .float
    | .kwDouble => some .double
    | .kwVoid => if allowVoid then some .void else none
    | _ => none
  match basic? with
  | none => unexpected "expected a type"
  | some basic =>
    let _ ← advance
    return basic

/-- An identifier, `place` saying where it was expected. -/
def identifier (place : String) : Phrase String := do
  let token ← expectOr .identifier (·.unexpected ("expected identifier " ++ place))
  return token.text

/-- What stands between array brackets. -/
def dimension : Phrase Dimension := do
  let start ← position
  let negative := (← kind) = .dash
  if negative then
    let _ ← advance
  let digits ←
    expectOr .integerLiteral (·.unexpected "array dimensions must be integer literals")
  return ⟨if negative then "-" ++ digits.text else digits.text, ← spanFrom start⟩

/-- An initializer, its parts read by `init`. -/
def initializerWith (init : Phrase Initializer) : Phrase Initializer := do
  let start ← position
  if (← kind) = .openCurly then
    let _ ← advance
    let items ← listUntil .closeCurly init
    let id ← freshId
    return .list id items (← spanFrom start)
  else
    let value ← expr .lowest
    let id ← freshId
    return .scalar id value (← spanFrom start)

/-- An initializer with at most `levels` levels of braces. -/
def initializerWithin : (levels : Nat) → Phrase Initializer
  | 0 => unexpected "expected an expression"
  | levels + 1 => initializerWith (initializerWithin levels)

/-- An initializer. -/
def initializer : Phrase Initializer := do
  initializerWithin ((← get).ahead.length + 1)

/-- The definition of a variable or, with an initializer that must not be
missing, of a constant. -/
def varDef (isConstant : Bool) : Phrase VarDef := do
  let start ← position
  let name ← identifier "during variable declaration"
  let dims ← bracketed dimension
  let init ←
    if (← kind) = .assign then
      let _ ← advance
      some <$> initializer
    else if isConstant then
      unexpected "expected rhs in constant definition"
    else
      pure none
  let id ← freshId
  return { id, name, dims, init, span := ← spanFrom start }

/-- A declaration. -/
def decl : Phrase Decl := do
  let start ← position
  let isConstant := (← kind) = .kwConst
  if isConstant then
    let _ ← advance
  let basic ← basicType false
  let defs ← commaSeparated (varDef isConstant)
  let _ ← expect .semicolon
  let id ← freshId
  return { id, isConstant, basic, defs, span := ← spanFrom start }

/-- The outermost brackets of a parameter, which may be empty. -/
def outerDimension : Phrase (Option Dimension) := do
  let _ ← advance
  let dim ← if (← kind) = .closeBracket then pure none else some <$> dimension
  let _ ← expect .closeBracket
  return dim

/-- A parameter of a function. -/
def param : Phrase Param := do
  let start ← position
  let basic ← basicType false
  let name ← identifier "in parameter list"
  let (isOpen, outer) ←
    if (← kind) = .openBracket then
      match ← outerDimension with
      | none => pure (true, [])
      | some dim => pure (false, [dim])
    else
      pure (false, [])
  let inner ← bracketed dimension
  let id ← freshId
  return { id, name, basic, isOpen, dims := outer ++ inner, span := ← spanFrom start }

end CactLang.Phrase
