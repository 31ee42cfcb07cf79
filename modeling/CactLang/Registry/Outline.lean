import CactLang.Registry
import CactLang.Text.Outline

/-!
# Outlines of registries

The outline of a registry and of what it holds. Names are listed in alphabetical
order, whatever the order of their declaration.
-/

namespace CactLang

open Text (Outline quoted)

/-- The name an element kind is shown by in outlines. -/
def BasicType.label : BasicType → String
  | int32 => "Int32"
  | bool => "Bool"
  | float => "Float"
  | double => "Double"
  | void => "Void"

/-- The outline of an element kind. -/
def BasicType.outline (b : BasicType) : Outline :=
  .leaf b.label

/-- The outline of a type. -/
def Ty.outline (t : Ty) : Outline :=
  .record "Type"
    [("basic_type", t.basic.outline), ("array_dims", .list (t.dims.map .nat))]

/-- The outline of a handle. -/
def ScopeId.outline (id : ScopeId) : Outline :=
  .tuple "ScopeId" [.nat id.index]

/-- The outline of a handle. -/
def SymbolId.outline (id : SymbolId) : Outline :=
  .tuple "SymbolId" [.nat id.index]

/-- The outline of a handle. -/
def FunctionId.outline (id : FunctionId) : Outline :=
  .tuple "FunctionId" [.nat id.index]

/-- The outline of a variable. -/
def Symbol.outline (s : Symbol) : Outline :=
  .record "Symbol"
    [("name", .text s.name), ("ty", s.ty.outline), ("is_constant", .bool s.isConstant),
      ("is_initialized", .bool s.isInitialized)]

/-- The outline of a parameter. -/
def Parameter.outline (p : Parameter) : Outline :=
  .record "Parameter" [("name", .text p.name), ("ty", p.ty.outline)]

/-- The outline of a function. -/
def Signature.outline (f : Signature) : Outline :=
  .record "FunctionSignature"
    [("name", .text f.name), ("return_type", f.returns.outline),
      ("parameters", .list (f.parameters.map Parameter.outline)),
      ("is_builtin", .bool f.isBuiltin)]

/-- The outline of names and what they stand for, in alphabetical order. -/
def namesOutline {α : Type} (f : α → Outline) (names : List (String × α)) : Outline :=
  .map ((names.mergeSort fun a b => a.1 ≤ b.1).map fun (name, a) => (quoted name, f a))

/-- The outline of a scope. -/
def Scope.outline (s : Scope) : Outline :=
  .record "Scope"
    [("id", s.id.outline), ("parent", .option ScopeId.outline s.parent),
      ("variables", namesOutline SymbolId.outline s.bindings)]

/-- The outline of a registry. -/
def Registry.outline (r : Registry) : Outline :=
  .record "SymbolRegistry"
    [("scopes", .list (r.scopes.toList.map Scope.outline)),
      ("symbols", .list (r.symbols.toList.map Symbol.outline)),
      ("functions", .list (r.functions.toList.map Signature.outline)),
      ("function_lookup", namesOutline FunctionId.outline r.functionNames),
      ("global", .option ScopeId.outline r.global)]

end CactLang
