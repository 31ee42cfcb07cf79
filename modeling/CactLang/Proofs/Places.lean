import CactLang.Proofs.Nodes

/-!
# Where the nodes of a tree stand

What a name or a jump means depends on where it stands: on the declarations before it
in the blocks around it, on the loops around it and on the function it is in. A place
is all of that, read off the tree alone.

> `Program.places`: every node of a program with its place.

A declaration is in sight from the next definition on, to the end of its block. The
declarations in sight are kept block by block, the innermost first; then come the
parameters, and last the declarations of the program itself.
-/

namespace CactLang

/-- The declarations in sight, block by block, the innermost first: the names, and the
variables that the tree has for them. -/
abbrev Sight := List (List (String × Option SymbolId))

/-- The lexically nearest declaration of a name, if there is one. -/
def Sight.nearest? (σ : Sight) (name : String) : Option (Option SymbolId) :=
  σ.findSome? (·.lookup name)

/-- The declarations in sight after more of them in the innermost block. -/
def Sight.extend : Sight → List (String × Option SymbolId) → Sight
  | [], _ => []
  | frame :: outer, ds => (frame ++ ds) :: outer

/-- Where a node stands. -/
structure Place where
  /-- The declarations in sight. -/
  sight : Sight
  /-- The loops around, the innermost first. -/
  loops : List NodeId := []
  /-- What the tree has for the function around. -/
  function : Option FunctionId := none

namespace Place

/-- The place after more declarations. -/
def extend (place : Place) (ds : List (String × Option SymbolId)) : Place :=
  { place with sight := place.sight.extend ds }

/-- The place inside a new block. -/
def inBlock (place : Place) : Place :=
  { place with sight := [] :: place.sight }

/-- The place inside a loop. -/
def inLoop (place : Place) (loop : NodeId) : Place :=
  { place with loops := loop :: place.loops }

/-- Nodes that stand at one place. -/
def all (place : Place) (ns : List Node) : List (Place × Node) :=
  ns.map (place, ·)

end Place

/-- The name a definition declares, and the variable the tree has for it. -/
def VarDef.declared (d : VarDef) : String × Option SymbolId :=
  (d.name, d.symbol)

/-- The name a parameter declares, and the variable the tree has for it. -/
def Param.declared (p : Param) : String × Option SymbolId :=
  (p.name, p.symbol)

/-- The nodes of definitions. A name is in sight after its own definition. -/
def VarDef.allPlaces : Place → List VarDef → List (Place × Node)
  | _, [] => []
  | place, d :: ds => place.all d.nodes ++ VarDef.allPlaces (place.extend [d.declared]) ds

/-- The nodes of a declaration. -/
def Decl.places (place : Place) (d : Decl) : List (Place × Node) :=
  VarDef.allPlaces place d.defs ++ [(place, .decl d)]

/-- The declarations of a declaration. -/
def Decl.declared (d : Decl) : List (String × Option SymbolId) :=
  d.defs.map VarDef.declared

mutual

/-- The nodes of a statement. -/
def Stmt.places : Place → Stmt → List (Place × Node)
  | place, ⟨id, kind, span, hasReturn⟩ =>
    kind.places place id ++ [(place, .stmt ⟨id, kind, span, hasReturn⟩)]

/-- The nodes inside a statement of this form. -/
def StmtKind.places : Place → NodeId → StmtKind → List (Place × Node)
  | place, _, .assign target value => place.all (target.nodes ++ value.nodes)
  | place, _, .expr value => place.all (value.elim [] Expr.nodes)
  | place, _, .block b => b.places place
  | place, _, .cond test thenBranch none => place.all test.nodes ++ thenBranch.places place
  | place, _, .cond test thenBranch (some elseBranch) =>
    place.all test.nodes ++ (thenBranch.places place ++ elseBranch.places place)
  | place, id, .loop test body => place.all test.nodes ++ body.places (place.inLoop id)
  | _, _, .leave _ => []
  | _, _, .next _ => []
  | place, _, .ret value _ => place.all (value.elim [] Expr.nodes)

/-- The nodes of a block. -/
def Block.places : Place → Block → List (Place × Node)
  | place, ⟨id, items, span, scope, hasReturn⟩ =>
    BlockItem.allPlaces place.inBlock items ++ [(place, .block ⟨id, items, span, scope, hasReturn⟩)]

/-- The nodes of the items of a block, each item after the declarations before it. -/
def BlockItem.allPlaces : Place → List BlockItem → List (Place × Node)
  | _, [] => []
  | place, .decl d :: rest =>
    d.places place ++ BlockItem.allPlaces (place.extend d.declared) rest
  | place, .stmt t :: rest => t.places place ++ BlockItem.allPlaces place rest

end

/-- The place of a function definition among earlier declarations. -/
def Place.top (globals : List (String × Option SymbolId)) : Place :=
  { sight := [globals] }

/-- The place inside a function, with the given parameters in sight. -/
def Place.inFunction (globals : List (String × Option SymbolId)) (f : FuncDef)
    (params : List Param) : Place :=
  { sight := [params.map Param.declared, globals], function := f.function }

/-- The nodes of parameters. A name is in sight after its own parameter. -/
def Param.allPlaces : Place → List Param → List (Place × Node)
  | _, [] => []
  | place, p :: ps => (place, .param p) :: Param.allPlaces (place.extend [p.declared]) ps

/-- The nodes of a function definition. -/
def FuncDef.places (globals : List (String × Option SymbolId)) (f : FuncDef) :
    List (Place × Node) :=
  Param.allPlaces (.inFunction globals f []) f.params ++
    (f.body.places (Place.inFunction globals f f.params) ++ [(.top globals, .func f)])

/-- The nodes of items, each item after the declarations before it. -/
def Item.allPlaces : List (String × Option SymbolId) → List Item → List (Place × Node)
  | _, [] => []
  | globals, .decl d :: rest =>
    d.places (.top globals) ++ Item.allPlaces (globals ++ d.declared) rest
  | globals, .func f :: rest => f.places globals ++ Item.allPlaces globals rest

/-- Every node of a program with its place. -/
def Program.places (p : Program) : List (Place × Node) :=
  Item.allPlaces [] p.items

/-! ## No node is left out -/

@[simp] theorem Place.map_all (place : Place) (ns : List Node) :
    (place.all ns).map Prod.snd = ns := by
  simp [Place.all, List.map_map, Function.comp_def]

theorem VarDef.map_allPlaces :
    ∀ (ds : List VarDef) (place : Place),
      (VarDef.allPlaces place ds).map Prod.snd = ds.flatMap VarDef.nodes
  | [], _ => rfl
  | d :: ds, place => by
    rw [VarDef.allPlaces, List.map_append, Place.map_all, VarDef.map_allPlaces ds,
      List.flatMap_cons]

theorem Decl.map_places (d : Decl) (place : Place) :
    (d.places place).map Prod.snd = d.nodes := by
  rw [Decl.places, List.map_append, VarDef.map_allPlaces]
  rfl

mutual

theorem Stmt.map_places : ∀ (t : Stmt) (place : Place), (t.places place).map Prod.snd = t.nodes
  | ⟨id, kind, _, _⟩, place => by
    rw [Stmt.places, List.map_append, StmtKind.map_places kind place id, Stmt.nodes]
    rfl

theorem StmtKind.map_places :
    ∀ (k : StmtKind) (place : Place) (id : NodeId), (k.places place id).map Prod.snd = k.nodes
  | .assign _ _, _, _ => by rw [StmtKind.places, Place.map_all, StmtKind.nodes]
  | .expr _, _, _ => by rw [StmtKind.places, Place.map_all, StmtKind.nodes]
  | .block b, place, _ => by rw [StmtKind.places, Block.map_places b, StmtKind.nodes]
  | .cond _ thenBranch none, place, _ => by
    rw [StmtKind.places, List.map_append, Place.map_all, Stmt.map_places thenBranch,
      StmtKind.nodes]
  | .cond _ thenBranch (some elseBranch), place, _ => by
    rw [StmtKind.places, List.map_append, List.map_append, Place.map_all,
      Stmt.map_places thenBranch, Stmt.map_places elseBranch, StmtKind.nodes]
  | .loop _ body, place, _ => by
    rw [StmtKind.places, List.map_append, Place.map_all, Stmt.map_places body, StmtKind.nodes]
  | .leave _, _, _ => by rw [StmtKind.places, StmtKind.nodes, List.map_nil]
  | .next _, _, _ => by rw [StmtKind.places, StmtKind.nodes, List.map_nil]
  | .ret _ _, _, _ => by rw [StmtKind.places, Place.map_all, StmtKind.nodes]

theorem Block.map_places :
    ∀ (b : Block) (place : Place), (b.places place).map Prod.snd = b.nodes
  | ⟨_, items, _, _, _⟩, place => by
    rw [Block.places, List.map_append, BlockItem.map_allPlaces items, Block.nodes]
    rfl

theorem BlockItem.map_allPlaces :
    ∀ (items : List BlockItem) (place : Place),
      (BlockItem.allPlaces place items).map Prod.snd = BlockItem.allNodes items
  | [], _ => by rw [BlockItem.allPlaces, BlockItem.allNodes, List.map_nil]
  | .decl d :: rest, place => by
    rw [BlockItem.allPlaces, List.map_append, Decl.map_places, BlockItem.map_allPlaces rest,
      BlockItem.allNodes]
  | .stmt t :: rest, place => by
    rw [BlockItem.allPlaces, List.map_append, Stmt.map_places t, BlockItem.map_allPlaces rest,
      BlockItem.allNodes]

end

theorem Param.map_allPlaces :
    ∀ (ps : List Param) (place : Place),
      (Param.allPlaces place ps).map Prod.snd = ps.map .param
  | [], _ => rfl
  | p :: ps, place => by
    rw [Param.allPlaces, List.map_cons, Param.map_allPlaces ps, List.map_cons]

theorem FuncDef.map_places (f : FuncDef) (globals : List (String × Option SymbolId)) :
    (f.places globals).map Prod.snd = f.nodes := by
  rw [FuncDef.places, List.map_append, List.map_append, Param.map_allPlaces,
    Block.map_places]
  rfl

theorem Item.map_allPlaces :
    ∀ (is : List Item) (globals : List (String × Option SymbolId)),
      (Item.allPlaces globals is).map Prod.snd = is.flatMap Item.nodes
  | [], _ => rfl
  | .decl d :: rest, globals => by
    rw [Item.allPlaces, List.map_append, Decl.map_places, Item.map_allPlaces rest,
      List.flatMap_cons]
    rfl
  | .func f :: rest, globals => by
    rw [Item.allPlaces, List.map_append, FuncDef.map_places, Item.map_allPlaces rest,
      List.flatMap_cons]
    rfl

/-- The places are those of the nodes, one for each. -/
theorem Program.map_places (p : Program) : p.places.map Prod.snd = p.nodes :=
  Item.map_allPlaces p.items []

end CactLang
