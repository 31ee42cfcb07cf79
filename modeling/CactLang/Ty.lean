/-!
# Types

A type is an element kind and a list of array dimensions, outermost first; a
scalar has none. Values never convert, so two types either are equal or do not
go together, with one exception: the outermost dimension of a parameter may be
left open. An open dimension is written `[]` and held as zero.
-/

namespace CactLang

/-- The kind of a scalar value or of the elements of an array. -/
inductive BasicType where
  | int32
  | bool
  | float
  | double
  | void
  deriving DecidableEq, Repr, Inhabited

namespace BasicType

/-- The keyword that names the kind. -/
def name : BasicType → String
  | int32 => "int32"
  | bool => "bool"
  | float => "float"
  | double => "double"
  | void => "void"

/-- Every kind, each once. -/
def all : List BasicType :=
  [int32, bool, float, double, void]

/-- The kind with a given name. -/
def ofName? (name : String) : Option BasicType :=
  all.find? (·.name == name)

/-- The kinds that arithmetic is defined on. -/
def isNumeric : BasicType → Bool
  | int32 | float | double => true
  | bool | void => false

end BasicType

/-- A type: an element kind and array dimensions. -/
structure Ty where
  /-- The element kind. -/
  basic : BasicType
  /-- The dimensions, outermost first. -/
  dims : List Nat := []
  deriving DecidableEq, Repr, Inhabited

namespace Ty

/-- The type of a single value. -/
def scalar (basic : BasicType) : Ty :=
  ⟨basic, []⟩

/-- The type with one more dimension inside. -/
def addDim (t : Ty) (dim : Nat) : Ty :=
  ⟨t.basic, t.dims ++ [dim]⟩

/-- The number of dimensions. -/
def rank (t : Ty) : Nat :=
  t.dims.length

/-- Whether there is any dimension. -/
def isArray (t : Ty) : Bool :=
  !t.dims.isEmpty

/-- Operators take scalars other than `void`. -/
def isOperand (t : Ty) : Bool :=
  !t.isArray && t.basic != .void

/-- An index is a scalar `int32`. -/
def isIndex (t : Ty) : Bool :=
  !t.isArray && t.basic == .int32

/-- Whether a parameter of this type takes an argument of another: the types are
equal, or equal but for the outermost dimension, which the parameter leaves open. -/
def accepts (parameter argument : Ty) : Bool :=
  parameter == argument ||
    match parameter.dims, argument.dims with
    | 0 :: inner, _ :: inner' => parameter.basic == argument.basic && inner == inner'
    | _, _ => false

/-- The type that is left after `count` indices. -/
def indexed (t : Ty) (count : Nat) : Ty :=
  ⟨t.basic, t.dims.drop count⟩

/-- A dimension as written. -/
def dimText (dim : Nat) : String :=
  if dim = 0 then "[]" else s!"[{dim}]"

/-- The type as written. -/
def text (t : Ty) : String :=
  t.basic.name ++ String.join (t.dims.map dimText)

end Ty

end CactLang
