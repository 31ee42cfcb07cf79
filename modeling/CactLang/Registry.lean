import CactLang.Diagnostic
import CactLang.Ty

/-!
# The registry

Everything a program declares: scopes, the variables bound in them, and
functions. Entries are only ever added, and a handle is the place of an entry,
so a tree can refer to scopes, variables and functions by handle for good.

Scopes form a forest by their parents. A name is looked up from a scope outwards
and the nearest binding wins. In the global scope, variables share their names
with the functions. The names of functions are kept apart from the functions
themselves, and each declaration writes both.

A change is made step by step (`Change`). Whatever the steps before a refusal have
done stays done.

A handle that names no entry is not the fault of the program being checked. An
operation that meets one says so (`Refusal.dangling`) instead of giving a cause.
-/

namespace CactLang

/-! ## Handles and entries -/

/-- The handle of a scope. -/
structure ScopeId where
  index : Nat
  deriving DecidableEq, Repr, Inhabited

/-- The handle of a variable. -/
structure SymbolId where
  index : Nat
  deriving DecidableEq, Repr, Inhabited

/-- The handle of a function. -/
structure FunctionId where
  index : Nat
  deriving DecidableEq, Repr, Inhabited

/-- A declared variable, constant or parameter. -/
structure Symbol where
  name : String
  ty : Ty
  isConstant : Bool
  isInitialized : Bool
  deriving DecidableEq, Repr

namespace Symbol

/-- A variable that has no value yet. -/
def ofVariable (name : String) (ty : Ty) : Symbol :=
  ⟨name, ty, false, false⟩

/-- A constant, which has its value from its declaration. -/
def ofConstant (name : String) (ty : Ty) : Symbol :=
  ⟨name, ty, true, true⟩

/-- A parameter, which has its value from the caller. -/
def ofParameter (name : String) (ty : Ty) : Symbol :=
  ⟨name, ty, false, true⟩

/-- Everything but a constant can be assigned to. -/
def isAssignable (s : Symbol) : Bool :=
  !s.isConstant

end Symbol

/-- A scope: the variables bound in it, in the order of their declaration. -/
structure Scope where
  id : ScopeId
  parent : Option ScopeId
  bindings : List (String × SymbolId) := []
  deriving DecidableEq, Repr

/-- The variable a name is bound to in this very scope. -/
def Scope.get? (s : Scope) (name : String) : Option SymbolId :=
  s.bindings.lookup name

/-- A parameter of a function. -/
structure Parameter where
  name : String
  ty : Ty
  deriving DecidableEq, Repr

/-- What calls need to know of a function. -/
structure Signature where
  name : String
  /-- A scalar type, `void` included. -/
  returns : Ty
  parameters : List Parameter := []
  isBuiltin : Bool := false
  deriving DecidableEq, Repr

/-- All scopes, variables and functions of a program. -/
structure Registry where
  scopes : Array Scope := #[]
  symbols : Array Symbol := #[]
  functions : Array Signature := #[]
  /-- The names of functions with their handles, in the order of their declaration. -/
  functionNames : List (String × FunctionId) := []
  /-- The root of the scopes, once there is one. -/
  global : Option ScopeId := none
  deriving DecidableEq, Repr, Inhabited

namespace Registry

/-- Why an operation did not go through. -/
inductive Refusal where
  /-- The declarations do not allow it. -/
  | cause (c : Cause)
  /-- A handle names no entry. -/
  | dangling
  deriving DecidableEq, Repr

/-! ## Scopes -/

/-- The scope of a handle. -/
def scope? (r : Registry) (id : ScopeId) : Option Scope :=
  r.scopes[id.index]?

/-- Adds an empty scope. -/
def pushScope (r : Registry) (parent : Option ScopeId) : ScopeId × Registry :=
  let id : ScopeId := ⟨r.scopes.size⟩
  (id, { r with scopes := r.scopes.push { id, parent } })

/-- Adds the global scope, unless it is there already. -/
def ensureGlobal (r : Registry) : ScopeId × Registry :=
  match r.global with
  | some id => (id, r)
  | none =>
    let (id, r) := r.pushScope none
    (id, { r with global := some id })

/-- Adds a scope inside `parent`. -/
def newScope (r : Registry) (parent : ScopeId) : ScopeId × Registry :=
  r.pushScope (some parent)

/-! ## Changes -/

/-- A change of a registry, made step by step. A refusal leaves the registry as the
steps before it have left it. -/
abbrev Change (α : Type) := EStateM Refusal Registry α

namespace Change

variable {α : Type}

/-- What a change gives, and the registry after it. -/
def outcome (change : Change α) (r : Registry) : Except Refusal α × Registry :=
  match change r with
  | .ok a r' => (.ok a, r')
  | .error refusal r' => (.error refusal, r')

/-- What a change gives with the registry after it, or why it was refused. -/
def attempt (change : Change α) (r : Registry) : Except Refusal (α × Registry) :=
  match change r with
  | .ok a r' => .ok (a, r')
  | .error refusal _ => .error refusal

end Change

/-! ## Functions -/

/-- The function of a handle. -/
def function? (r : Registry) (id : FunctionId) : Option Signature :=
  r.functions[id.index]?

/-- The function of a name. -/
def findFunction? (r : Registry) (name : String) : Option FunctionId :=
  r.functionNames.lookup name

/-- The function of a name, or the reason why there is none. -/
def lookupFunction (r : Registry) (name : String) : Except Refusal FunctionId :=
  match r.findFunction? name with
  | some id => .ok id
  | none => .error (.cause (.undeclaredFunction name))

/-- Whether the global scope binds a name. -/
def globalBinds (r : Registry) (name : String) : Except Refusal Bool :=
  match r.global with
  | none => .ok false
  | some id =>
    match r.scope? id with
    | none => .error .dangling
    | some scope => .ok (scope.get? name).isSome

namespace Change

/-- Adds a function after the others, under no name yet. -/
def pushFunction (signature : Signature) : Change FunctionId := fun r =>
  .ok ⟨r.functions.size⟩ { r with functions := r.functions.push signature }

/-- Lets a name stand for a function. -/
def enterName (name : String) (id : FunctionId) : Change Unit := fun r =>
  .ok () { r with functionNames := r.functionNames ++ [(name, id)] }

/-- Changes the entry of a function. -/
def updateFunction (id : FunctionId) (update : Signature → Signature) : Change Unit := fun r =>
  match r.function? id with
  | none => .error .dangling r
  | some f => .ok () { r with functions := r.functions.setIfInBounds id.index (update f) }

/-- Adds a function that has no parameters yet. Its name must be new among the
functions and the global variables. -/
def newFunction (name : String) (returns : BasicType) : Change FunctionId := fun r =>
  match r.globalBinds name with
  | .error refusal => .error refusal r
  | .ok binds =>
    if binds || (r.findFunction? name).isSome then .error (.cause (.duplicate name)) r
    else
      (do
        let id ← pushFunction { name, returns := .scalar returns }
        enterName name id
        return id : Change FunctionId) r

/-- Adds a parameter to a function, after those it has. -/
def addParameter (id : FunctionId) (parameter : Parameter) : Change Unit :=
  updateFunction id fun f => { f with parameters := f.parameters ++ [parameter] }

/-- Adds parameters to a function, one after the other. -/
def addParameters (id : FunctionId) : List Parameter → Change Unit
  | [] => pure ()
  | parameter :: rest => do
    addParameter id parameter
    addParameters id rest

/-- Adds a built-in function: first as a function without parameters, then marked
as built-in, then with its parameters. -/
def addBuiltin (signature : Signature) : Change Unit := do
  let id ← newFunction signature.name signature.returns.basic
  updateFunction id fun f => { f with isBuiltin := true }
  addParameters id signature.parameters

/-- Adds built-in functions one by one, up to the first that is refused. -/
def addBuiltins : List Signature → Change Unit
  | [] => pure ()
  | signature :: rest => do
    addBuiltin signature
    addBuiltins rest

end Change

/-- Adds a function that has no parameters yet, or says why it cannot be added. -/
def newFunction (r : Registry) (name : String) (returns : BasicType) :
    Except Refusal (FunctionId × Registry) :=
  (Change.newFunction name returns).attempt r

/-- Adds a parameter to a function, or says why it cannot be added. -/
def addParameter (r : Registry) (id : FunctionId) (parameter : Parameter) :
    Except Refusal Registry :=
  ((Change.addParameter id parameter).attempt r).map Prod.snd

/-- The functions every program may call for input and output. -/
def builtins : List Signature :=
  let print (name : String) (t : BasicType) : Signature :=
    { name, returns := .scalar .void, parameters := [⟨"value", .scalar t⟩], isBuiltin := true }
  let get (name : String) (t : BasicType) : Signature :=
    { name, returns := .scalar t, isBuiltin := true }
  [print "print_int" .int32, print "print_float" .float, print "print_double" .double,
    print "print_bool" .bool, get "get_int" .int32, get "get_float" .float,
    get "get_double" .double]

/-- Adds the built-in functions. -/
def addBuiltins (r : Registry) : Except Refusal Unit × Registry :=
  (Change.addBuiltins builtins).outcome r

/-! ## Variables -/

/-- The variable of a handle. -/
def symbol? (r : Registry) (id : SymbolId) : Option Symbol :=
  r.symbols[id.index]?

namespace Change

/-- Adds a variable after the others, bound to no name yet. -/
def pushSymbol (symbol : Symbol) : Change SymbolId := fun r =>
  .ok ⟨r.symbols.size⟩ { r with symbols := r.symbols.push symbol }

/-- Binds a name in a scope, after the names that it has. -/
def bindName (scope : ScopeId) (name : String) (id : SymbolId) : Change Unit := fun r =>
  match r.scope? scope with
  | none => .error .dangling r
  | some s =>
    let s := { s with bindings := s.bindings ++ [(name, id)] }
    .ok () { r with scopes := r.scopes.setIfInBounds scope.index s }

/-- Binds a name to a new variable in a scope. The name must be new in this very
scope; in the global scope it must not be a function's either. -/
def register (scope : ScopeId) (name : String) (symbol : Symbol) : Change SymbolId := fun r =>
  if r.global = some scope ∧ (r.findFunction? name).isSome then
    .error (.cause (.duplicate name)) r
  else
    match r.scope? scope with
    | none => .error .dangling r
    | some s =>
      if (s.get? name).isSome then .error (.cause (.duplicate name)) r
      else
        (do
          let id ← pushSymbol symbol
          bindName scope name id
          return id : Change SymbolId) r

end Change

/-- Binds a name to a new variable in a scope, or says why it cannot be bound. -/
def register (r : Registry) (scope : ScopeId) (name : String) (symbol : Symbol) :
    Except Refusal (SymbolId × Registry) :=
  (Change.register scope name symbol).attempt r

/-- The nearest binding of a name among a scope and the next `steps` scopes
around it. -/
def lookupWithin (r : Registry) (name : String) : (steps : Nat) → ScopeId →
    Except Refusal SymbolId
  | steps, id =>
    match r.scope? id with
    | none => .error .dangling
    | some scope =>
      match scope.get? name, scope.parent, steps with
      | some symbol, _, _ => .ok symbol
      | none, some parent, steps + 1 => lookupWithin r name steps parent
      | none, _, _ => .error (.cause (.undeclaredVariable name))

/-- The variable a name stands for in a scope: the nearest binding outwards. A
chain of parents that is longer than the number of scopes repeats itself, so
looking further would find nothing. -/
def lookup (r : Registry) (scope : ScopeId) (name : String) : Except Refusal SymbolId :=
  r.lookupWithin name r.scopes.size scope

end Registry

end CactLang
