import CactLang.Proofs.Erasure

/-!
# The registry mirrors the tree

What a program declares can be read off its tree, without checking anything: its declarations
in source order, its function definitions, and the constructs that open a scope, each with the
names that are declared directly in it. The registry that a check leaves has exactly these
entries, in this order, and the handles on the tree are their places.

> `Contents`: what a part of a tree declares.
>
> `Adds c k r r'`: `r'` is `r` with the contents `k`, whose own names are bound in the scope `c`.

A part that is checked after another adds its contents after those of the other
(`Adds.append`), and what a construct declares stays inside of it (`Adds.enclosed`).
-/

namespace CactLang

/-! ## What a tree declares -/

/-- The declaration of a variable, as it is written, and what the tree has for the variable. -/
structure Declaration where
  name : String
  basic : BasicType
  /-- Whether an open dimension stands before the others. -/
  isOpen : Bool
  dims : List Dimension
  isConstant : Bool
  isInitialized : Bool
  symbol : Option SymbolId

namespace Declaration

/-- The declared type, if all dimensions are such. -/
def ty? (d : Declaration) : Option Ty :=
  (d.dims.mapM Typing.extent?).map fun extents =>
    ⟨d.basic, if d.isOpen then 0 :: extents else extents⟩

/-- The variable that is declared. -/
def toSymbol? (d : Declaration) : Option Symbol :=
  d.ty?.map fun ty => ⟨d.name, ty, d.isConstant, d.isInitialized⟩

/-- The name, with what the tree has for its variable. -/
def binding (d : Declaration) : String × Option SymbolId :=
  (d.name, d.symbol)

end Declaration

/-- A constant has its value from its declaration, and so has a variable with an
initializer. -/
def VarDef.declaration (isConstant : Bool) (basic : BasicType) (d : VarDef) : Declaration :=
  ⟨d.name, basic, false, d.dims, isConstant, isConstant || d.init.isSome, d.symbol⟩

/-- A parameter has its value from the caller. -/
def Param.declaration (p : Param) : Declaration :=
  ⟨p.name, p.basic, p.isOpen, p.dims, false, true, p.symbol⟩

/-- The function that a definition declares. -/
def FuncDef.signature? (f : FuncDef) : Option Signature :=
  (f.params.mapM fun (p : Param) => p.declaration.ty?.map fun ty => Parameter.mk p.name ty).map
    fun parameters => { name := f.name, returns := .scalar f.returns, parameters }

/-- A construct with a scope of its own: what the tree has for the scope, the scope of the
construct directly around it, and the names declared directly in it. -/
structure Region where
  scope : Option ScopeId
  parent : Option ScopeId
  bindings : List (String × Option SymbolId)

/-- What a part of a tree declares. -/
structure Contents where
  /-- All declarations of variables, in source order. -/
  declarations : List Declaration := []
  /-- All function definitions, in source order. -/
  functions : List FuncDef := []
  /-- The names declared directly in the part, and not in a construct inside of it. -/
  names : List (String × Option SymbolId) := []
  /-- All constructs with a scope, in the order in which they begin. -/
  regions : List Region := []

namespace Contents

instance : Append Contents where
  append k k' := ⟨k.declarations ++ k'.declarations, k.functions ++ k'.functions,
    k.names ++ k'.names, k.regions ++ k'.regions⟩

/-- Declarations that stand one after the other. -/
def ofDeclarations (ds : List Declaration) : Contents :=
  { declarations := ds, names := ds.map Declaration.binding }

/-- The contents of a construct with a scope: the names inside are its own. -/
def enclosed (scope parent : Option ScopeId) (k : Contents) : Contents :=
  { k with names := [], regions := ⟨scope, parent, k.names⟩ :: k.regions }

end Contents

/-- What a declaration declares. -/
def Decl.contents (d : Decl) : Contents :=
  .ofDeclarations (d.defs.map (VarDef.declaration d.isConstant d.basic))

mutual

/-- What a statement declares that stands in the scope `parent`. -/
def Stmt.contents (parent : Option ScopeId) : Stmt → Contents
  | ⟨_, .assign _ _, _, _⟩ => {}
  | ⟨_, .expr _, _, _⟩ => {}
  | ⟨_, .block b, _, _⟩ => b.contents parent
  | ⟨_, .cond _ thenBranch none, _, _⟩ => thenBranch.contents parent
  | ⟨_, .cond _ thenBranch (some elseBranch), _, _⟩ =>
    thenBranch.contents parent ++ elseBranch.contents parent
  | ⟨_, .loop _ body, _, _⟩ => body.contents parent
  | ⟨_, .leave _, _, _⟩ => {}
  | ⟨_, .next _, _, _⟩ => {}
  | ⟨_, .ret _ _, _, _⟩ => {}

/-- What a block declares that stands in the scope `parent`. -/
def Block.contents (parent : Option ScopeId) : Block → Contents
  | ⟨_, items, _, scope, _⟩ => (BlockItem.allContents scope items).enclosed scope parent

/-- What the items of a block declare. -/
def BlockItem.allContents (scope : Option ScopeId) : List BlockItem → Contents
  | [] => {}
  | .decl d :: rest => d.contents ++ BlockItem.allContents scope rest
  | .stmt t :: rest => t.contents scope ++ BlockItem.allContents scope rest

end

/-- What a function definition declares: the function, its parameters in a scope, and its body
inside of that. -/
def FuncDef.contents (parent : Option ScopeId) (f : FuncDef) : Contents :=
  { (Contents.ofDeclarations (f.params.map Param.declaration) ++
      f.body.contents f.scope).enclosed f.scope parent with functions := [f] }

/-- What the items of a program declare, in the scope `global`. -/
def Item.allContents (global : Option ScopeId) : List Item → Contents
  | [] => {}
  | .decl d :: rest => d.contents ++ Item.allContents global rest
  | .func f :: rest => f.contents global ++ Item.allContents global rest

/-- What a program declares. Its own scope is the first. -/
def Program.contents (p : Program) : Contents :=
  (Item.allContents (some ⟨0⟩) p.items).enclosed (some ⟨0⟩) none

/-- A scope of the registry, as a tree has it. -/
def Scope.region (s : Scope) : Region :=
  ⟨some s.id, s.parent, s.bindings.map fun b => (b.1, some b.2)⟩

/-- The scope with more names bound after those it has. -/
def Scope.extended (bindings : List (String × SymbolId)) (s : Scope) : Scope :=
  { s with bindings := s.bindings ++ bindings }

/-! ## A registry with more contents -/

namespace Registry

variable {c : ScopeId} {k k' : Contents} {r r₁ r' : Registry}

/-- `r'` is `r` with the contents `k`. The names of `k` are bound in the scope `c`, everything
else is added at the end, and the handles in `k` are the places of the new entries. -/
structure Adds (c : ScopeId) (k : Contents) (r r' : Registry) : Prop where
  global : r'.global = r.global
  symbols : ∃ ys, r'.symbols.toList = r.symbols.toList ++ ys ∧
    k.declarations.map Declaration.toSymbol? = ys.map some
  functions : ∃ fs, r'.functions.toList = r.functions.toList ++ fs ∧
    k.functions.map FuncDef.signature? = fs.map some
  scopes : ∃ bs ss, r'.scopes.toList = r.scopes.toList.modify c.index (Scope.extended bs) ++ ss ∧
    k.names = bs.map (fun b => (b.1, some b.2)) ∧ k.regions = ss.map Scope.region
  symbolIds : k.declarations.map Declaration.symbol =
    (List.range' r.symbols.size k.declarations.length).map fun n => some ⟨n⟩
  functionIds : k.functions.map FuncDef.function =
    (List.range' r.functions.size k.functions.length).map fun n => some ⟨n⟩
  scopeIds : k.regions.map Region.scope =
    (List.range' r.scopes.size k.regions.length).map fun n => some ⟨n⟩

theorem extended_nil : Scope.extended [] = id := by
  funext s
  simp [Scope.extended]

/-- Extending a scope twice is extending it by both. -/
theorem extended_extended (bs bs' : List (String × SymbolId)) :
    Scope.extended bs' ∘ Scope.extended bs = Scope.extended (bs ++ bs') := by
  funext s
  simp [Scope.extended]

/-- The first entries are changed as if there were no others. -/
theorem modify_append_of_lt {α : Type} {f : α → α} :
    ∀ {xs ys : List α} {i : Nat}, i < xs.length → (xs ++ ys).modify i f = xs.modify i f ++ ys
  | [], _, _, h => absurd h (Nat.not_lt_zero _)
  | _ :: _, _, 0, _ => rfl
  | x :: _, _, _ + 1, h =>
    congrArg (x :: ·) (modify_append_of_lt (Nat.lt_of_succ_lt_succ h))

/-- Changing the last entry. -/
theorem modify_last {α : Type} {f : α → α} {x : α} :
    ∀ xs : List α, (xs ++ [x]).modify xs.length f = xs ++ [f x]
  | [] => rfl
  | y :: ys => congrArg (y :: ·) (modify_last ys)

/-- Numbers go on where they stopped. -/
theorem numbers_append {α β : Type} {f : α → β} {g : Nat → β} {xs ys : List α} {n : Nat}
    (hx : xs.map f = (List.range' n xs.length).map g)
    (hy : ys.map f = (List.range' (n + xs.length) ys.length).map g) :
    (xs ++ ys).map f = (List.range' n (xs ++ ys).length).map g := by
  rw [List.map_append, hx, hy, ← List.map_append, List.range'_append_1, List.length_append]

namespace Adds

theorem refl (c : ScopeId) (r : Registry) : Adds c {} r r where
  global := rfl
  symbols := ⟨[], by rw [List.append_nil], rfl⟩
  functions := ⟨[], by rw [List.append_nil], rfl⟩
  scopes := ⟨[], [], by rw [List.append_nil, extended_nil, List.modify_id], rfl, rfl⟩
  symbolIds := rfl
  functionIds := rfl
  scopeIds := rfl

/-- As many variables are added as are declared. -/
theorem symbols_size (h : Adds c k r r') :
    r'.symbols.size = r.symbols.size + k.declarations.length := by
  obtain ⟨ys, hys, hk⟩ := h.symbols
  have hlength := congrArg List.length hk
  rw [List.length_map, List.length_map] at hlength
  rw [← Array.length_toList, hys, List.length_append, Array.length_toList, hlength]

/-- As many functions are added as are defined. -/
theorem functions_size (h : Adds c k r r') :
    r'.functions.size = r.functions.size + k.functions.length := by
  obtain ⟨fs, hfs, hk⟩ := h.functions
  have hlength := congrArg List.length hk
  rw [List.length_map, List.length_map] at hlength
  rw [← Array.length_toList, hfs, List.length_append, Array.length_toList, hlength]

/-- As many scopes are added as there are regions. -/
theorem scopes_size (h : Adds c k r r') :
    r'.scopes.size = r.scopes.size + k.regions.length := by
  obtain ⟨bs, ss, hss, _, hk⟩ := h.scopes
  rw [← Array.length_toList, hss, List.length_append, List.length_modify, Array.length_toList, hk,
    List.length_map]

/-- A scope that was there is there. -/
theorem lt_size {id : ScopeId} (h : Adds c k r r') (hid : id.index < r.scopes.size) :
    id.index < r'.scopes.size := by
  rw [h.scopes_size]
  omega

/-- One part after the other. -/
theorem append (hc : c.index < r.scopes.size) (h : Adds c k r r₁) (h' : Adds c k' r₁ r') :
    Adds c (k ++ k') r r' := by
  obtain ⟨ys, hys, hdeclarations⟩ := h.symbols
  obtain ⟨ys', hys', hdeclarations'⟩ := h'.symbols
  obtain ⟨fs, hfs, hfunctions⟩ := h.functions
  obtain ⟨fs', hfs', hfunctions'⟩ := h'.functions
  obtain ⟨bs, ss, hss, hnames, hregions⟩ := h.scopes
  obtain ⟨bs', ss', hss', hnames', hregions'⟩ := h'.scopes
  have hsymbolIds := h'.symbolIds
  have hfunctionIds := h'.functionIds
  have hscopeIds := h'.scopeIds
  rw [h.symbols_size] at hsymbolIds
  rw [h.functions_size] at hfunctionIds
  rw [h.scopes_size] at hscopeIds
  refine ⟨h'.global.trans h.global, ⟨ys ++ ys', ?_, ?_⟩, ⟨fs ++ fs', ?_, ?_⟩,
    ⟨bs ++ bs', ss ++ ss', ?_, ?_, ?_⟩, numbers_append h.symbolIds hsymbolIds,
    numbers_append h.functionIds hfunctionIds, numbers_append h.scopeIds hscopeIds⟩
  · rw [hys', hys, List.append_assoc]
  · rw [List.map_append, ← hdeclarations, ← hdeclarations', ← List.map_append]
    rfl
  · rw [hfs', hfs, List.append_assoc]
  · rw [List.map_append, ← hfunctions, ← hfunctions', ← List.map_append]
    rfl
  · -- the scope is one of the old ones, so the second part changes it as the first left it
    rw [hss', hss, modify_append_of_lt (by rw [List.length_modify]; exact hc),
      List.modify_modify_eq, extended_extended, List.append_assoc]
  · rw [List.map_append, ← hnames, ← hnames']
    rfl
  · rw [List.map_append, ← hregions, ← hregions']
    rfl

/-- What is added in a new scope stays there. -/
theorem enclosed {parent : Option ScopeId} {id : ScopeId}
    (h : Adds id k (r.pushScope parent).2 r') (hid : id = ⟨r.scopes.size⟩) :
    Adds c (k.enclosed (some id) parent) r r' := by
  subst hid
  obtain ⟨bs, ss, hss, hnames, hregions⟩ := h.scopes
  have hscopeIds := h.scopeIds
  refine ⟨h.global, h.symbols, h.functions, ⟨[], ⟨⟨r.scopes.size⟩, parent, bs⟩ :: ss, ?_, rfl, ?_⟩,
    h.symbolIds, h.functionIds, ?_⟩
  · -- the new scope is the last one, and it had no names
    rw [extended_nil, List.modify_id, hss, pushScope, Array.toList_push, ← Array.length_toList,
      modify_last, List.append_assoc]
    rfl
  · rw [List.map_cons, ← hregions, Contents.enclosed, hnames]
    rfl
  · rw [pushScope, Array.size_push] at hscopeIds
    rw [Contents.enclosed, List.map_cons, hscopeIds, List.length_cons, List.range'_succ,
      List.map_cons]

/-- A name that is bound adds its declaration. -/
theorem bound {s : Scope} {d : Declaration} {y : Symbol} (hs : r.scope? c = some s)
    (hd : d.toSymbol? = some y) (hsymbol : d.symbol = some ⟨r.symbols.size⟩) :
    Adds c (.ofDeclarations [d]) r (r.bound c s d.name y) := by
  refine ⟨rfl, ⟨[y], ?_, ?_⟩, ⟨[], ?_, rfl⟩, ⟨[(d.name, ⟨r.symbols.size⟩)], [], ?_, ?_, rfl⟩, ?_,
    rfl, rfl⟩
  · rw [Registry.bound, Array.toList_push]
  · rw [Contents.ofDeclarations, List.map_singleton, hd, List.map_singleton]
  · rw [List.append_nil, Registry.bound]
  · -- binding a name is to modify the scope in its place, and nothing else of the scopes
    have hget : r.scopes.toList[c.index]? = some s := by
      rw [Array.getElem?_toList]
      exact hs
    rw [Registry.bound, Array.toList_setIfInBounds, List.append_nil, List.modify_eq_set_getElem?,
      hget]
    rfl
  · rw [Contents.ofDeclarations, List.map_singleton, Declaration.binding, hsymbol,
      List.map_singleton]
  · rw [Contents.ofDeclarations, List.map_singleton, hsymbol]
    rfl

/-- A function may be there from the start. -/
theorem ofFunction {f : FuncDef} {g : Signature} (hk : k.functions = [])
    (hf : f.signature? = some g) (hfunction : f.function = some ⟨r.functions.size⟩)
    (h : Adds c k (r.declared g) r') :
    Adds c { k with functions := [f] } r r' := by
  obtain ⟨fs, hfs, hnone⟩ := h.functions
  rw [hk, List.map_nil, eq_comm, List.map_eq_nil_iff] at hnone
  refine ⟨h.global, h.symbols, ⟨[g], ?_, ?_⟩, h.scopes, h.symbolIds, ?_, h.scopeIds⟩
  · rw [hfs, hnone, List.append_nil, declared, withFunctions, Array.toList_push]
  · rw [List.map_singleton, hf, List.map_singleton]
  · rw [List.map_singleton, hfunction]
    rfl

end Adds

end Registry

/-! ## The declared types -/

/-- Related lists, read as a computation that may fail. -/
theorem mapM_eq_some {α β : Type} {f : α → Option β} {xs : List α} {ys : List β}
    (h : List.Forall₂ (fun x y => f x = some y) xs ys) : xs.mapM f = some ys := by
  induction h with
  | nil => rfl
  | cons hxy _ ih =>
    rw [List.mapM_cons, hxy, ih]
    rfl

namespace Typing

/-- The type that was checked is the one that the declaration says. -/
theorem ty?_of_typeOf {d : Declaration} {id : NodeId} {ty : Ty}
    (h : typeOf d.basic d.dims d.isOpen id = .ok ty) : d.ty? = some ty := by
  obtain ⟨ns, hns, rfl⟩ := typeOf_ok.mp h
  rw [Declaration.ty?, mapM_eq_some hns]
  rfl

theorem declaredSymbol_eq (isConstant : Bool) (d : VarDef) (ty : Ty) :
    declaredSymbol isConstant d ty = ⟨d.name, ty, isConstant, isConstant || d.init.isSome⟩ := by
  cases isConstant <;> rfl

/-- The parameters have the types that their declarations say. -/
theorem parameters_of_typeOf {ps : List Param} {tys : List Ty}
    (h : List.Forall₂ (fun p ty => typeOf p.basic p.dims p.isOpen p.id = .ok ty) ps tys) :
    (ps.mapM fun (p : Param) => p.declaration.ty?.map fun ty => Parameter.mk p.name ty) =
      some (declaredParameters ps tys) := by
  refine mapM_eq_some ?_
  unfold declaredParameters
  induction h with
  | nil => exact .nil
  | @cons p ty ps tys hty _ ih =>
    have hty' : p.declaration.ty? = some ty := ty?_of_typeOf hty
    refine .cons ?_ ih
    rw [hty']
    rfl

/-- The signature is the one that the definition says. -/
theorem signature?_of_typeOf {f : FuncDef} {tys : List Ty}
    (h : List.Forall₂ (fun p ty => typeOf p.basic p.dims p.isOpen p.id = .ok ty) f.params tys) :
    f.signature? = some (declaredSignature f tys) := by
  rw [FuncDef.signature?, parameters_of_typeOf h]
  rfl

/-- The function of a definition does not depend on what the tree has for it. -/
theorem signature?_erase (f : FuncDef) : f.erase.signature? = f.signature? := by
  unfold FuncDef.signature? FuncDef.erase
  rw [List.mapM_map]
  rfl

/-! ## What checking adds -/

/-- The current scope is there. -/
def State.Scoped (s : State) : Prop :=
  s.context.scope.index < s.registry.scopes.size

open Registry (Adds)

/-- What is added does not take the current scope away. -/
theorem State.Scoped.after {s s' : State} {c : ScopeId} {k : Contents} (hs : s.Scoped)
    (hcontext : s'.context = s.context) (h : Adds c k s.registry s'.registry) : s'.Scoped := by
  unfold State.Scoped
  rw [hcontext]
  exact h.lt_size hs

theorem State.scoped_inScope (s : State) : s.inScope.Scoped := by
  unfold State.Scoped State.inScope
  simp [Registry.newScope, Registry.pushScope]

/-- A definition adds its variable. -/
theorem varDef_adds {isConstant : Bool} {basic : BasicType} {d d' : VarDef} {s s' : State}
    (h : varDef isConstant basic d s = .ok d' s') :
    Adds s.context.scope (.ofDeclarations [d'.declaration isConstant basic]) s.registry
      s'.registry := by
  obtain ⟨ty, init, v, r, hty, hrel, hreg, rfl, rfl⟩ := varDef_ok.mp h
  obtain ⟨c, hc, _, _, rfl, rfl⟩ := Registry.register_ok.mp hreg
  have hinit : d.init.isSome = init.isSome := by
    obtain ⟨hd, rfl⟩ | ⟨x, x', hd, rfl, _⟩ := rel_cases hrel
    · rw [hd]
    · rw [hd]
      rfl
  have hty' : (VarDef.declaration isConstant basic
      { d with init, symbol := some ⟨s.registry.symbols.size⟩ }).ty? = some ty :=
    ty?_of_typeOf hty
  refine Adds.bound (d := VarDef.declaration isConstant basic _) hc ?_ rfl
  rw [Declaration.toSymbol?, hty', declaredSymbol_eq, hinit]
  rfl

/-- Definitions add their variables in order. -/
theorem varDefs_adds {isConstant : Bool} {basic : BasicType} :
    ∀ {ds ds' : List VarDef} {s s' : State}, s.Scoped →
      varDefs isConstant basic ds s = .ok ds' s' →
      Adds s.context.scope (.ofDeclarations (ds'.map (VarDef.declaration isConstant basic)))
        s.registry s'.registry
  | [], _, s, _, _, h => by
    obtain ⟨rfl, rfl⟩ := varDefs_nil_ok.mp h
    exact .refl _ _
  | d :: ds, _, s, _, hs, h => by
    obtain ⟨x, xs, s₁, hx, hxs, rfl⟩ := varDefs_cons_ok.mp h
    have hcontext := ((varDef_keeps isConstant basic d).ok hx).1
    have hfirst := varDef_adds hx
    have hrest := varDefs_adds (hs.after hcontext hfirst) hxs
    rw [hcontext] at hrest
    exact hfirst.append hs hrest

/-- A declaration adds what it contains. -/
theorem decl_adds {d d' : Decl} {s s' : State} (hs : s.Scoped) (h : decl d s = .ok d' s') :
    Adds s.context.scope d'.contents s.registry s'.registry := by
  obtain ⟨defs, hdefs, rfl⟩ := decl_ok.mp h
  exact varDefs_adds hs hdefs

mutual

/-- A statement adds what it contains, by recursion on the tree. -/
theorem stmt_adds :
    ∀ {t t' : Stmt} {s s' : State}, s.Scoped → stmt t s = .ok t' s' →
      Adds s.context.scope (t'.contents (some s.context.scope)) s.registry s'.registry
  | ⟨_, .assign _ _, _, _⟩, _, _, _, _, h => by
    obtain ⟨_, _, _, _, _, _, rfl, rfl⟩ := stmt_assign_ok.mp h
    rw [Stmt.contents]
    exact .refl _ _
  | ⟨_, .expr none, _, _⟩, _, _, _, _, h => by
    obtain ⟨rfl, rfl⟩ := stmt_empty_ok.mp h
    rw [Stmt.contents]
    exact .refl _ _
  | ⟨_, .expr (some _), _, _⟩, _, _, _, _, h => by
    obtain ⟨_, _, _, rfl, rfl⟩ := stmt_expr_ok.mp h
    rw [Stmt.contents]
    exact .refl _ _
  | ⟨_, .block _, _, _⟩, _, _, _, hs, h => by
    obtain ⟨b', hb, rfl⟩ := stmt_block_ok.mp h
    rw [Stmt.contents]
    exact block_adds hs hb
  | ⟨_, .cond _ _ none, _, _⟩, _, _, _, hs, h => by
    obtain ⟨_, _, then', _, _, hthen, rfl⟩ := stmt_if_ok.mp h
    rw [Stmt.contents]
    exact stmt_adds hs hthen
  | ⟨_, .cond _ thenBranch (some _), _, _⟩, _, _, _, hs, h => by
    obtain ⟨_, _, then', else', s₁, _, _, hthen, helse, rfl⟩ := stmt_ifElse_ok.mp h
    -- both branches are checked in one context, so their contents go to one scope
    have hcontext := ((stmt_keeps thenBranch).ok hthen).1
    have hfirst := stmt_adds hs hthen
    have hsecond := stmt_adds (hs.after hcontext hfirst) helse
    rw [hcontext] at hsecond
    rw [Stmt.contents]
    exact hfirst.append hs hsecond
  | ⟨id, .loop _ _, _, _⟩, _, s, _, hs, h => by
    obtain ⟨_, _, body', s₁, _, _, hbody, rfl, rfl⟩ := stmt_loop_ok.mp h
    -- a loop is noted in the context, but is no scope of its own
    have hloop : (s.inLoop id).Scoped := hs
    have hbody' := stmt_adds hloop hbody
    rw [Stmt.contents]
    exact hbody'
  | ⟨_, .leave _, _, _⟩, _, _, _, _, h => by
    obtain ⟨_, _, rfl, rfl⟩ := stmt_leave_ok.mp h
    rw [Stmt.contents]
    exact .refl _ _
  | ⟨_, .next _, _, _⟩, _, _, _, _, h => by
    obtain ⟨_, _, rfl, rfl⟩ := stmt_next_ok.mp h
    rw [Stmt.contents]
    exact .refl _ _
  | ⟨_, .ret none _, _, _⟩, _, _, _, _, h => by
    obtain ⟨_, hk, rfl⟩ := stmt_ret_ok.mp h
    obtain ⟨_, _, _, _, _, rfl, rfl⟩ := returning_none_ok.mp hk
    rw [Stmt.contents]
    exact .refl _ _
  | ⟨_, .ret (some _) _, _, _⟩, _, _, _, _, h => by
    obtain ⟨_, hk, rfl⟩ := stmt_ret_ok.mp h
    obtain ⟨_, _, _, _, _, _, _, _, _, rfl, rfl⟩ := returning_some_ok.mp hk
    rw [Stmt.contents]
    exact .refl _ _

theorem block_adds :
    ∀ {b b' : Block} {s s' : State}, s.Scoped → block b s = .ok b' s' →
      Adds s.context.scope (b'.contents (some s.context.scope)) s.registry s'.registry
  | ⟨_, _, _, _, _⟩, _, s, _, _, h => by
    obtain ⟨items', _, s₁, hitems, rfl, rfl⟩ := block_ok.mp h
    have hitems' := blockItems_adds s.scoped_inScope hitems
    rw [Block.contents]
    exact hitems'.enclosed rfl

theorem blockItems_adds :
    ∀ {items items' : List BlockItem} {returns : Bool} {s s' : State}, s.Scoped →
      blockItems items s = .ok (items', returns) s' →
      Adds s.context.scope (BlockItem.allContents (some s.context.scope) items') s.registry
        s'.registry
  | [], _, _, _, _, _, h => by
    obtain ⟨rfl, _, rfl⟩ := blockItems_nil_ok.mp h
    rw [BlockItem.allContents]
    exact .refl _ _
  | .decl d :: _, _, _, _, _, hs, h => by
    obtain ⟨d', rest', s₁, hd, hrest, rfl⟩ := blockItems_decl_ok.mp h
    have hcontext := ((decl_keeps d).ok hd).1
    have hfirst := decl_adds hs hd
    have hrest' := blockItems_adds (hs.after hcontext hfirst) hrest
    rw [hcontext] at hrest'
    rw [BlockItem.allContents]
    exact hfirst.append hs hrest'
  | .stmt t :: _, _, _, _, _, hs, h => by
    obtain ⟨t', rest', _, s₁, ht, hrest, rfl, _⟩ := blockItems_stmt_ok.mp h
    have hcontext := ((stmt_keeps t).ok ht).1
    have hfirst := stmt_adds hs ht
    have hrest' := blockItems_adds (hs.after hcontext hfirst) hrest
    rw [hcontext] at hrest'
    rw [BlockItem.allContents]
    exact hfirst.append hs hrest'

end

/-- Parameters add their declarations, where the function has them already. -/
theorem params_adds {function : FunctionId} :
    ∀ {ps ps' : List Param} {s s' : State}, s.Scoped → params function ps s = .ok ps' s' →
      Adds s.context.scope (.ofDeclarations (ps'.map Param.declaration))
        (s.registry.withFunctions s'.registry.functions s'.registry.functionNames) s'.registry
  | [], _, s, _, _, h => by
    obtain ⟨rfl, rfl⟩ := params_nil_ok.mp h
    exact .refl _ _
  | p :: ps, _, s, s', hs, h => by
    obtain ⟨x, xs, s₁, hx, hxs, rfl⟩ := params_cons_ok.mp h
    obtain ⟨ty, r₁, v, r₂, hty, hadd, hreg, rfl, rfl⟩ := param_ok.mp hx
    obtain ⟨f, _, rfl⟩ := Registry.addParameter_ok.mp hadd
    obtain ⟨c, hc, _, _, rfl, rfl⟩ := Registry.register_ok.mp hreg
    have hty' : (Param.declaration { p with symbol := some ⟨s.registry.symbols.size⟩ }).ty? =
        some ty := ty?_of_typeOf hty
    have hfirst : Adds s.context.scope
        (.ofDeclarations [Param.declaration { p with symbol := some ⟨s.registry.symbols.size⟩ }])
        (s.registry.withFunctions s'.registry.functions s'.registry.functionNames)
        ((s.registry.withFunctions s'.registry.functions s'.registry.functionNames).bound
          s.context.scope c p.name (.ofParameter p.name ty)) := by
      refine .bound hc ?_ rfl
      rw [Declaration.toSymbol?, hty']
      rfl
    -- the scope of the rest has one name more, which changes nothing about its being there
    have hrest := params_adds (by exact hfirst.lt_size hs) hxs
    exact hfirst.append (by exact hs) hrest

/-- A function definition adds its function, its scope, and what its parameters and its body
contain. -/
theorem funcDef_adds {f f' : FuncDef} {s s' : State} (h : funcDef f s = .ok f' s') :
    Adds s.context.scope (f'.contents (some s.context.scope)) s.registry s'.registry := by
  have herase := funcDef_erase h
  obtain ⟨_, _, ps, s₁, body, s₂, hps, hbody, rfl, rfl⟩ := funcDef_ok.mp h
  obtain ⟨tys, htys, hgrows⟩ := inFunction_grows hps
  have hsignature : FuncDef.signature? { f with
      params := ps, body, function := some ⟨s.registry.functions.size⟩,
      scope := some ⟨s.registry.scopes.size⟩ } = some (declaredSignature f tys) := by
    rw [← signature?_erase, herase, signature?_erase, signature?_of_typeOf htys]
  have hopened : (s.inFunction f).Scoped := s.scoped_inScope
  have hcontext := params_context hps
  have hparams := params_adds hopened hps
  have hbody' := block_adds (by
    unfold State.Scoped
    rw [hcontext]
    exact hparams.lt_size hopened) hbody
  rw [hcontext] at hbody'
  have hinside := hparams.append (by exact hopened) hbody'
  rw [hgrows.functions, hgrows.functionNames] at hinside
  have hwhole : Adds s.context.scope
      (Contents.enclosed (some ⟨s.registry.scopes.size⟩) (some s.context.scope)
        (.ofDeclarations (ps.map Param.declaration) ++
          body.contents (some ⟨s.registry.scopes.size⟩)))
      (s.registry.declared (declaredSignature f tys)) s₂.registry :=
    Adds.enclosed (by exact hinside) rfl
  refine .ofFunction ?_ hsignature rfl hwhole
  -- the body declares no function, so there is none but the definition's own
  have hsize := hwhole.functions_size
  rw [((block_keeps f.body).ok hbody).2.functions, hgrows.functions] at hsize
  exact List.eq_nil_of_length_eq_zero (Nat.left_eq_add.mp hsize)

/-- A program adds what its items contain, in order. -/
theorem items_adds :
    ∀ {is is' : List Item} {s s' : State}, s.Scoped → items is s = .ok is' s' →
      Adds s.context.scope (Item.allContents (some s.context.scope) is') s.registry s'.registry
  | [], _, _, _, _, h => by
    obtain ⟨rfl, rfl⟩ := items_nil_ok.mp h
    exact .refl _ _
  | .decl d :: _, _, _, _, hs, h => by
    obtain ⟨d', rest', s₁, hd, hrest, rfl⟩ := items_decl_ok.mp h
    -- the scope of a function is left at its end
    have hcontext := ((decl_keeps d).ok hd).1
    have hfirst := decl_adds hs hd
    have hrest' := items_adds (hs.after hcontext hfirst) hrest
    rw [hcontext] at hrest'
    exact hfirst.append hs hrest'
  | .func f :: _, _, s, _, hs, h => by
    obtain ⟨f', rest', s₁, hf, hrest, rfl⟩ := items_func_ok.mp h
    have hcontext : s₁.context = s.context := by
      obtain ⟨_, _, _, _, _, _, _, _, _, rfl⟩ := funcDef_ok.mp hf
      rfl
    have hfirst := funcDef_adds hf
    have hrest' := items_adds (hs.after hcontext hfirst) hrest
    rw [hcontext] at hrest'
    exact hfirst.append hs hrest'

/-- Checking starts with the built-in functions, if they are wanted, and the global scope. -/
theorem start_registry (withBuiltins : Bool) :
    (start withBuiltins).registry = (Registry.pushScope
      { functions := (if withBuiltins then Registry.builtins else []).toArray,
        functionNames := (start withBuiltins).registry.functionNames, global := some ⟨0⟩ }
      none).2 := by
  cases withBuiltins with
  | false => rfl
  | true => decide +kernel

/-- **The registry mirrors the tree.** In an accepted program, read off the tree that comes
back, which is the tree that was checked with its annotations:

* the variables are one for each definition and each parameter in source order, with its name,
  its declared type, and whether it is constant and has a value;
* the functions are the built-in ones, if they are wanted, and then one for each definition in
  source order, with its result and its parameters;
* the scopes are the global one and then one for each function definition and each block, in
  the order in which they begin, each with the scope directly around it and with exactly the
  names that are declared directly in it;
* the handles on the tree are the places of these entries, counted from zero. -/
theorem typeCheck_mirrors {withBuiltins : Bool} {p p' : Program} {r : Registry}
    (h : typeCheck withBuiltins p = (.ok p', r)) :
    let builtins := if withBuiltins then Registry.builtins else []
    p'.erase = p.erase ∧
      p'.contents.declarations.map Declaration.toSymbol? = r.symbols.toList.map some ∧
      builtins.map some ++ p'.contents.functions.map FuncDef.signature? =
        r.functions.toList.map some ∧
      p'.contents.regions = r.scopes.toList.map Scope.region ∧
      p'.contents.declarations.map Declaration.symbol =
        (List.range r.symbols.size).map (fun n => some ⟨n⟩) ∧
      p'.contents.functions.map FuncDef.function =
        (List.range' builtins.length p'.contents.functions.length).map (fun n => some ⟨n⟩) ∧
      p'.contents.regions.map Region.scope =
        (List.range r.scopes.size).map (fun n => some ⟨n⟩) ∧
      r.global = some ⟨0⟩ := by
  intro builtins
  have herase := typeCheck_erase h
  obtain ⟨is, s, his, rfl, rfl⟩ := typeCheck_ok.mp h
  -- seen from before the global scope, the whole program is one construct with a scope
  let before : Registry :=
    { functions := builtins.toArray, functionNames := (start withBuiltins).registry.functionNames,
      global := some ⟨0⟩ }
  have hstart : (start withBuiltins).registry = (before.pushScope none).2 :=
    start_registry withBuiltins
  have hcontext : (start withBuiltins).context.scope = ⟨0⟩ := by
    cases withBuiltins <;> rfl
  have hitems := items_adds (by
    unfold State.Scoped
    rw [hcontext, hstart]
    exact Nat.zero_lt_one) his
  rw [hcontext, hstart] at hitems
  have hadds : Adds ⟨0⟩ (Program.contents { p with items := is }) before s.registry :=
    .enclosed hitems rfl
  obtain ⟨ys, hys, hdeclarations⟩ := hadds.symbols
  obtain ⟨fs, hfs, hfunctions⟩ := hadds.functions
  obtain ⟨bs, ss, hss, _, hregions⟩ := hadds.scopes
  have hsymbols : s.registry.symbols.size = _ := hadds.symbols_size.trans (Nat.zero_add _)
  have hscopes : s.registry.scopes.size = _ := hadds.scopes_size.trans (Nat.zero_add _)
  refine ⟨herase, ?_, ?_, ?_, ?_, hadds.functionIds, ?_, hadds.global⟩
  · rw [hys]
    exact hdeclarations
  · rw [hfs, List.map_append, ← hfunctions]
  · rw [hss]
    exact hregions
  · rw [hsymbols, List.range_eq_range']
    exact hadds.symbolIds
  · rw [hscopes, List.range_eq_range']
    exact hadds.scopeIds

/-- A program with nested blocks, a loop, shadowed names and two functions. -/
theorem typeCheck_mirrors_sampleSource :
    ∃ p p' r, readSource? sampleSource = some p ∧ typeCheck true p = (.ok p', r) ∧
      p'.contents.declarations.map Declaration.toSymbol? = r.symbols.toList.map some ∧
      Registry.builtins.map some ++ p'.contents.functions.map FuncDef.signature? =
        r.functions.toList.map some ∧
      p'.contents.regions = r.scopes.toList.map Scope.region := by
  obtain ⟨p, p', r, hp, h⟩ := typeCheck_sampleSource
  obtain ⟨_, hsymbols, hfunctions, hscopes, _⟩ := typeCheck_mirrors h
  exact ⟨p, p', r, hp, h, hsymbols, hfunctions, hscopes⟩

end Typing

end CactLang
