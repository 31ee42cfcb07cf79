import CactLang.Proofs.Resolution

/-!
# Where jumps lead

A `break` or a `continue` belongs to the innermost loop around it, and a `return` to the
function it stands in. The checker keeps the loops and the function in its context while
it walks through the tree. Here they are read off the tree.

> `f.Nests around t`: the statement `t` stands in the body of `f`, inside of the statements
> `around`, the innermost first.

The loops among the statements around are those of the place of a statement
(`FuncDef.Nests.place`, `Item.nests_of_mem`), and so those of the context when it was checked.
-/

namespace CactLang

/-! ## Statements inside of others -/

/-- The statement that an item of a block is, if it is one. -/
def BlockItem.stmt? : BlockItem → Option Stmt
  | decl _ => none
  | stmt t => some t

/-- The statements that stand directly in a block. -/
def Block.stmts (b : Block) : List Stmt :=
  b.items.filterMap BlockItem.stmt?

namespace Stmt

/-- The statements that stand directly in a statement. -/
def children (t : Stmt) : List Stmt :=
  match t.kind with
  | .block b => b.stmts
  | .cond _ thenBranch elseBranch => thenBranch :: elseBranch.toList
  | .loop _ body => [body]
  | _ => []

/-- Whether it is a loop. -/
def isLoop (t : Stmt) : Bool :=
  match t.kind with
  | .loop _ _ => true
  | _ => false

/-- The identities of the loops among statements. -/
def loops (ts : List Stmt) : List NodeId :=
  (ts.filter isLoop).map Stmt.id

theorem loops_cons (t : Stmt) (ts : List Stmt) :
    loops (t :: ts) = if t.isLoop then t.id :: loops ts else loops ts := by
  unfold loops
  rw [List.filter_cons]
  split <;> rfl

/-- The first of the loops is the first statement that is one. -/
theorem find?_isLoop {ts : List Stmt} {loop : NodeId} {outer : List NodeId}
    (h : loops ts = loop :: outer) : ∃ w, ts.find? isLoop = some w ∧ w.id = loop := by
  induction ts with
  | nil => cases h
  | cons t ts ih =>
    rw [loops_cons] at h
    split at h
    next ht => exact ⟨t, List.find?_cons_of_pos ht, (List.cons.inj h).1⟩
    next ht =>
      rw [List.find?_cons_of_neg ht]
      exact ih h

/-- Without a loop around there are no loops. -/
theorem loops_eq_nil {ts : List Stmt} : loops ts = [] ↔ ∀ t ∈ ts, t.isLoop = false := by
  simp [loops]

end Stmt

/-- A statement stands in the body of a function, inside of other statements, the innermost
first. -/
inductive FuncDef.Nests (f : FuncDef) : List Stmt → Stmt → Prop where
  | body {t : Stmt} : t ∈ f.body.stmts → Nests f [] t
  | child {around : List Stmt} {u t : Stmt} : Nests f around u → t ∈ u.children →
      Nests f (u :: around) t

/-! ## Every nested statement has a place -/

/-- What a place keeps on the way down to a statement: the nodes below it are among the
nodes of the whole, and the loops and the function are those around. -/
structure Place.Leads (place : Place) (loops : List NodeId) (function : Option FunctionId)
    (whole : List (Place × Node)) (t : Stmt) : Prop where
  nodes : t.places place ⊆ whole
  loops : place.loops = loops
  function : place.function = function

/-- A statement stands at its own place. -/
theorem Stmt.mem_places (t : Stmt) (place : Place) : (place, .stmt t) ∈ t.places place := by
  obtain ⟨id, kind, span, hasReturn⟩ := t
  rw [Stmt.places]
  exact List.mem_append_right _ List.mem_cons_self

/-- The items before a statement only add declarations to its place. -/
theorem BlockItem.leads {t : Stmt} {items : List BlockItem} (place : Place)
    (h : t ∈ items.filterMap BlockItem.stmt?) :
    ∃ inner : Place,
      inner.Leads place.loops place.function (BlockItem.allPlaces place items) t := by
  induction items generalizing place with
  | nil => cases h
  | cons item items ih =>
    cases item with
    | decl d =>
      -- a declaration changes which names are seen, but neither loops nor function
      obtain ⟨inner, hinner⟩ := ih (place.extend d.declared) h
      refine ⟨inner, ?_, hinner.loops, hinner.function⟩
      rw [BlockItem.allPlaces]
      exact List.subset_append_of_subset_right _ hinner.nodes
    | stmt u =>
      rw [BlockItem.allPlaces]
      rcases List.mem_cons.mp h with rfl | hrest
      · exact ⟨place, List.subset_append_left _ _, rfl, rfl⟩
      · obtain ⟨inner, hinner⟩ := ih place hrest
        exact ⟨inner, List.subset_append_of_subset_right _ hinner.nodes, hinner.loops,
          hinner.function⟩

/-- From a block to a statement in it, loops and function stay. -/
theorem Block.leads {t : Stmt} {b : Block} (place : Place) (h : t ∈ b.stmts) :
    ∃ inner : Place, inner.Leads place.loops place.function (b.places place) t := by
  obtain ⟨id, items, span, scope, hasReturn⟩ := b
  obtain ⟨inner, hinner⟩ := BlockItem.leads place.inBlock h
  refine ⟨inner, ?_, hinner.loops, hinner.function⟩
  rw [Block.places]
  exact List.subset_append_of_subset_left _ hinner.nodes

/-- A child has one more loop around it if it is the child of a loop. -/
theorem Stmt.leads {t u : Stmt} (place : Place) (h : t ∈ u.children) :
    ∃ inner : Place, inner.Leads (if u.isLoop then u.id :: place.loops else place.loops)
      place.function (u.places place) t := by
  obtain ⟨id, kind, span, hasReturn⟩ := u
  rw [Stmt.places]
  cases kind with
  | block b =>
    obtain ⟨inner, hinner⟩ := Block.leads place h
    refine ⟨inner, ?_, hinner.loops, hinner.function⟩
    rw [StmtKind.places]
    exact List.subset_append_of_subset_left _ hinner.nodes
  | cond test thenBranch elseBranch =>
    refine ⟨place, ?_, rfl, rfl⟩
    intro x hx
    cases elseBranch with
    | none =>
      obtain rfl : t = thenBranch := by simpa [Stmt.children] using h
      simp [StmtKind.places, hx]
    | some elseBranch =>
      rcases List.mem_cons.mp h with rfl | helse
      · simp [StmtKind.places, hx]
      · obtain rfl : t = elseBranch := by simpa using helse
        simp [StmtKind.places, hx]
  | loop test body =>
    obtain rfl : t = body := by simpa [Stmt.children] using h
    -- the only child that has one loop more around it
    refine ⟨place.inLoop id, ?_, rfl, rfl⟩
    intro x hx
    simp [StmtKind.places, hx]
  | _ => cases h

/-- The places of a function definition are among those of the program. -/
theorem Item.leads {f : FuncDef} {is : List Item} (globals : List (String × Option SymbolId))
    (h : .func f ∈ is) : ∃ before, f.places before ⊆ Item.allPlaces globals is := by
  induction is generalizing globals with
  | nil => cases h
  | cons item is ih =>
    rcases List.mem_cons.mp h with rfl | hrest
    · rw [Item.allPlaces]
      exact ⟨globals, List.subset_append_left _ _⟩
    · cases item with
      | decl d =>
        -- only a declaration adds to what the functions after it see
        obtain ⟨before, hsub⟩ := ih (globals ++ d.declared) hrest
        rw [Item.allPlaces]
        exact ⟨before, List.subset_append_of_subset_right _ hsub⟩
      | func g =>
        obtain ⟨before, hsub⟩ := ih globals hrest
        rw [Item.allPlaces]
        exact ⟨before, List.subset_append_of_subset_right _ hsub⟩

/-- A nested statement has a place with the loops around it and its function. -/
theorem FuncDef.Nests.place {p : Program} {f : FuncDef} {around : List Stmt} {t : Stmt}
    (hf : .func f ∈ p.items) (h : f.Nests around t) :
    ∃ place : Place, place.Leads (Stmt.loops around) f.function p.places t := by
  induction h with
  | body ht =>
    obtain ⟨globals, hsub⟩ := Item.leads [] hf
    obtain ⟨place, hplace⟩ := Block.leads (.inFunction globals f f.params) ht
    refine ⟨place, fun x hx => hsub ?_, hplace.loops, hplace.function⟩
    rw [FuncDef.places]
    exact List.mem_append_right _ (List.mem_append_left _ (hplace.nodes hx))
  | child _ ht ih =>
    obtain ⟨outer, houter⟩ := ih
    obtain ⟨place, hplace⟩ := Stmt.leads outer ht
    refine ⟨place, List.Subset.trans hplace.nodes houter.nodes, ?_,
      hplace.function.trans houter.function⟩
    rw [hplace.loops, houter.loops, Stmt.loops_cons]

/-! ## Every place of a statement is that of a nested one -/

/-- There is no statement among the nodes. -/
def NoStmt (ps : List (Place × Node)) : Prop :=
  ∀ place t, (place, .stmt t) ∉ ps

namespace NoStmt

variable {ps qs : List (Place × Node)}

theorem append (h : NoStmt ps) (h' : NoStmt qs) : NoStmt (ps ++ qs) := by
  intro place t ht
  rcases List.mem_append.mp ht with ht | ht
  · exact h place t ht
  · exact h' place t ht

/-- Expressions and initial values are no statements. -/
theorem values {ns : List Node} (place : Place) (h : ∀ n ∈ ns, n.isValue = true) :
    NoStmt (place.all ns) := by
  intro place t ht
  obtain ⟨n, hn, he⟩ := List.mem_map.mp ht
  obtain ⟨_, rfl⟩ := Prod.mk.inj he
  cases h _ hn

theorem single {place : Place} {n : Node} (h : ∀ t, n ≠ .stmt t) : NoStmt [(place, n)] := by
  intro place t ht
  obtain ⟨_, he⟩ := Prod.mk.inj (List.mem_singleton.mp ht)
  exact absurd he.symm (h t)

theorem value (e : Option Expr) (place : Place) : NoStmt (place.all (e.elim [] Expr.nodes)) := by
  refine values place ?_
  cases e with
  | none => simp
  | some e => exact e.isValue_nodes

theorem varDefs (ds : List VarDef) (place : Place) : NoStmt (VarDef.allPlaces place ds) := by
  induction ds generalizing place with
  | nil => exact fun _ _ => List.not_mem_nil
  | cons d ds ih =>
    rw [VarDef.allPlaces, VarDef.nodes, Place.all, List.map_append]
    refine append (append (values place ?_) (single (n := .varDef d) (by simp))) (ih _)
    cases d.init with
    | none => simp
    | some x => exact x.isValue_nodes

theorem decl (d : Decl) (place : Place) : NoStmt (d.places place) :=
  append (varDefs d.defs place) (single nofun)

theorem params (ps : List Param) (place : Place) : NoStmt (Param.allPlaces place ps) := by
  induction ps generalizing place with
  | nil => nofun
  | cons p ps ih => exact append (single (n := .param p) nofun) (ih _)

end NoStmt

/-- The statements among the nodes are nested in the function, in the loops of their places. -/
def FuncDef.Covers (f : FuncDef) (ps : List (Place × Node)) : Prop :=
  ∀ place t, (place, .stmt t) ∈ ps → ∃ around, f.Nests around t ∧ place.loops = Stmt.loops around

namespace FuncDef.Covers

variable {f : FuncDef} {ps qs : List (Place × Node)} {place : Place}

theorem of_noStmt (h : NoStmt ps) : f.Covers ps :=
  fun place t ht => absurd ht (h place t)

theorem append (h : f.Covers ps) (h' : f.Covers qs) : f.Covers (ps ++ qs) := by
  intro place t ht
  rcases List.mem_append.mp ht with ht | ht
  · exact h place t ht
  · exact h' place t ht

/-- A statement covers itself if its place has the loops around it. -/
theorem self {t : Stmt} {around : List Stmt} (h : f.Nests around t)
    (hloops : place.loops = Stmt.loops around) : f.Covers [(place, .stmt t)] := by
  intro place' t' ht
  obtain ⟨rfl, he⟩ := Prod.mk.inj (List.mem_singleton.mp ht)
  obtain rfl := Node.stmt.inj he
  exact ⟨around, h, hloops⟩

mutual

/-- By recursion on the tree, every statement inside is at a place with the loops around it. -/
theorem stmt : ∀ (t : Stmt) (place : Place) (around : List Stmt), f.Nests around t →
    place.loops = Stmt.loops around → f.Covers (t.places place)
  | ⟨_, .assign target value, _, _⟩, place, around, h, hloops => by
    rw [Stmt.places, StmtKind.places]
    exact append (of_noStmt (.values place (List.forall_mem_append.mpr
      ⟨target.isValue_nodes, value.isValue_nodes⟩))) (self h hloops)
  | ⟨_, .expr e, _, _⟩, place, around, h, hloops => by
    rw [Stmt.places, StmtKind.places]
    exact append (of_noStmt (.value e place)) (self h hloops)
  | ⟨_, .block b, _, _⟩, place, around, h, hloops => by
    rw [Stmt.places, StmtKind.places]
    exact append (block b place _ (fun u hu => .child h hu) hloops) (self h hloops)
  | ⟨_, .cond test thenBranch none, _, _⟩, place, around, h, hloops => by
    rw [Stmt.places, StmtKind.places]
    exact append (append (of_noStmt (.values place test.isValue_nodes))
      (stmt thenBranch place _ (.child h List.mem_cons_self) hloops)) (self h hloops)
  | ⟨_, .cond test thenBranch (some elseBranch), _, _⟩, place, around, h, hloops => by
    rw [Stmt.places, StmtKind.places]
    exact append (append (of_noStmt (.values place test.isValue_nodes))
      (append (stmt thenBranch place _ (.child h List.mem_cons_self) hloops)
        (stmt elseBranch place _ (.child h (List.mem_cons_of_mem _ List.mem_cons_self)) hloops)))
      (self h hloops)
  | ⟨id, .loop test body, _, _⟩, place, around, h, hloops => by
    rw [Stmt.places, StmtKind.places]
    exact append (append (of_noStmt (.values place test.isValue_nodes))
      (stmt body (place.inLoop id) _ (.child h List.mem_cons_self)
        (congrArg (id :: ·) hloops))) (self h hloops)
  | ⟨_, .leave _, _, _⟩, place, around, h, hloops => by
    rw [Stmt.places, StmtKind.places]
    exact self h hloops
  | ⟨_, .next _, _, _⟩, place, around, h, hloops => by
    rw [Stmt.places, StmtKind.places]
    exact self h hloops
  | ⟨_, .ret e _, _, _⟩, place, around, h, hloops => by
    rw [Stmt.places, StmtKind.places]
    exact append (of_noStmt (.value e place)) (self h hloops)

theorem block : ∀ (b : Block) (place : Place) (around : List Stmt),
    (∀ u ∈ b.stmts, f.Nests around u) → place.loops = Stmt.loops around → f.Covers (b.places place)
  | ⟨_, items, _, _, _⟩, place, around, h, hloops => by
    rw [Block.places]
    exact append (blockItems items place.inBlock around h hloops) (of_noStmt (.single nofun))

theorem blockItems : ∀ (items : List BlockItem) (place : Place) (around : List Stmt),
    (∀ u ∈ items.filterMap BlockItem.stmt?, f.Nests around u) →
    place.loops = Stmt.loops around → f.Covers (BlockItem.allPlaces place items)
  | [], _, _, _, _ => by
    rw [BlockItem.allPlaces]
    nofun
  | .decl d :: rest, place, around, h, hloops => by
    rw [BlockItem.allPlaces]
    exact append (of_noStmt (.decl d place))
      (blockItems rest (place.extend d.declared) around h hloops)
  | .stmt t :: rest, place, around, h, hloops => by
    rw [BlockItem.allPlaces]
    exact append (stmt t place around (h t List.mem_cons_self) hloops)
      (blockItems rest place around (fun u hu => h u (List.mem_cons_of_mem _ hu)) hloops)

end

theorem funcDef (globals : List (String × Option SymbolId)) : f.Covers (f.places globals) :=
  append (of_noStmt (.params f.params _))
    (append (block f.body _ [] (fun _ => .body) rfl) (of_noStmt (.single nofun)))

end FuncDef.Covers

/-- Every place of a statement is in one of the functions. -/
theorem Item.nests_of_mem {is : List Item} {globals : List (String × Option SymbolId)}
    {place : Place} {t : Stmt} (h : (place, .stmt t) ∈ Item.allPlaces globals is) :
    ∃ f around, .func f ∈ is ∧ f.Nests around t ∧ place.loops = Stmt.loops around := by
  induction is generalizing globals with
  | nil => cases h
  | cons item is ih =>
    -- what is met in a later item is in a function of the later items
    have hlater : ∀ {globals : List (String × Option SymbolId)},
        (place, .stmt t) ∈ Item.allPlaces globals is →
        ∃ f around, .func f ∈ item :: is ∧ f.Nests around t ∧
          place.loops = Stmt.loops around := by
      intro globals h
      obtain ⟨f, around, hf, hnests⟩ := ih h
      exact ⟨f, around, List.mem_cons_of_mem _ hf, hnests⟩
    cases item with
    | decl d =>
      rw [Item.allPlaces] at h
      rcases List.mem_append.mp h with h | h
      · -- no statement stands in a declaration
        exact absurd h (NoStmt.decl d _ place t)
      · exact hlater h
    | func f =>
      rw [Item.allPlaces] at h
      rcases List.mem_append.mp h with h | h
      · obtain ⟨around, hnests⟩ := FuncDef.Covers.funcDef globals place t h
        exact ⟨f, around, List.mem_cons_self, hnests⟩
      · exact hlater h

/-- A jump has the innermost of the loops, and a `return` has the function. -/
def StmtKind.Linked (loops : List NodeId) (function : Option FunctionId) : StmtKind → Prop
  | .leave target => ∃ loop, loops.head? = some loop ∧ target = some loop
  | .next target => ∃ loop, loops.head? = some loop ∧ target = some loop
  | .ret _ noted => ∃ f, function = some f ∧ noted = some f
  | _ => True

namespace Typing

/-! ## What the checker finds for jumps -/

/-- A return is linked to the function around it. -/
theorem returning_linked {id : NodeId} {span : Span} {value : Option Expr} {k : StmtKind}
    {s s' : State} (h : returning id span value s = .ok k s') :
    k.Linked s.context.loops s.context.function := by
  cases value with
  | none =>
    obtain ⟨f, _, hf, _, _, rfl, _⟩ := returning_none_ok.mp h
    exact ⟨f, hf, rfl⟩
  | some e =>
    obtain ⟨f, _, _, _, hf, _, _, _, _, rfl, _⟩ := returning_some_ok.mp h
    exact ⟨f, hf, rfl⟩

/-- A statement that passes is linked to the loops and the function of the context. -/
theorem stmt_linked {t t' : Stmt} {s s' : State} (h : stmt t s = .ok t' s') :
    t'.kind.Linked s.context.loops s.context.function := by
  obtain ⟨id, kind, span, hasReturn⟩ := t
  cases kind with
  | assign target value =>
    obtain ⟨_, _, _, _, _, _, rfl, _⟩ := stmt_assign_ok.mp h
    trivial
  | expr value =>
    cases value with
    | none =>
      obtain ⟨rfl, _⟩ := stmt_empty_ok.mp h
      trivial
    | some e =>
      obtain ⟨_, _, _, rfl, _⟩ := stmt_expr_ok.mp h
      trivial
  | block b =>
    obtain ⟨_, _, rfl⟩ := stmt_block_ok.mp h
    trivial
  | cond test thenBranch elseBranch =>
    cases elseBranch with
    | none =>
      obtain ⟨_, _, _, _, _, _, rfl⟩ := stmt_if_ok.mp h
      trivial
    | some elseBranch =>
      obtain ⟨_, _, _, _, _, _, _, _, _, rfl⟩ := stmt_ifElse_ok.mp h
      trivial
  | loop test body =>
    obtain ⟨_, _, _, _, _, _, _, rfl, _⟩ := stmt_loop_ok.mp h
    trivial
  | leave target =>
    obtain ⟨loop, hloop, rfl, _⟩ := stmt_leave_ok.mp h
    exact ⟨loop, hloop, rfl⟩
  | next target =>
    obtain ⟨loop, hloop, rfl, _⟩ := stmt_next_ok.mp h
    exact ⟨loop, hloop, rfl⟩
  | ret value function =>
    obtain ⟨k, hk, rfl⟩ := stmt_ret_ok.mp h
    exact returning_linked hk

/-- A nested statement of an accepted program is linked to what is around it. -/
theorem typeCheck_linked {withBuiltins : Bool} {p p' : Program} {r : Registry} {f : FuncDef}
    {around : List Stmt} {t : Stmt} (h : typeCheck withBuiltins p = (.ok p', r))
    (hf : .func f ∈ p'.items) (hnests : f.Nests around t) :
    t.kind.Linked (Stmt.loops around) f.function := by
  obtain ⟨place, hplace⟩ := hnests.place hf
  obtain ⟨s, s', hvisit⟩ := typeCheck_visited h _ (hplace.nodes (t.mem_places place))
  rw [← hplace.loops, ← hplace.function, hvisit.place.loops, hvisit.place.function rfl]
  cases hvisit.gives with
  | stmt hgives => exact stmt_linked hgives

/-- Only a jump outside of every loop is blamed for it. -/
theorem Blame.outsideLoop {s : State} {place : Place} {n : Node} {keyword : String}
    (hs : At false s place) (h : Blame s.registry s.context n (.outsideLoop keyword)) :
    place.loops = [] ∧ ∃ t target, n = .stmt t ∧
      (keyword = "break" ∧ t.kind = .leave target ∨
        keyword = "continue" ∧ t.kind = .next target) := by
  cases h with
  | leave ht hloops => exact ⟨hs.loops.trans hloops, _, _, rfl, Or.inl ⟨rfl, ht⟩⟩
  | next ht hloops => exact ⟨hs.loops.trans hloops, _, _, rfl, Or.inr ⟨rfl, ht⟩⟩
  | name hlookup => cases (hs.nearest_none hlookup).1
  | operand hop => exact absurd (checkOperand_error hop) (by simp)
  | operands hop => exact absurd (checkOperands_error hop) (by simp)
  | callee hcallee => exact absurd (lookupFunction_error hcallee) (by simp)

/-- **Where jumps lead.** In an accepted program, every statement stands in a function. The
target of a `break` or a `continue` is the innermost loop around it, and there is one; the
function of a `return` is that of the definition it stands in. If checking fails because a
jump is outside of a loop, then the node it fails at is a jump, of the kind that the
diagnostic names, with no loop around it. -/
theorem typeCheck_links_jumps (withBuiltins : Bool) (p : Program) :
    (∀ p' r, typeCheck withBuiltins p = (.ok p', r) →
      p'.erase = p.erase ∧
      (∀ t, .stmt t ∈ p'.nodes → ∃ f around, .func f ∈ p'.items ∧ f.Nests around t) ∧
      ∀ f around t, .func f ∈ p'.items → f.Nests around t →
        (∀ target, t.kind = .leave target ∨ t.kind = .next target →
          ∃ w, around.find? Stmt.isLoop = some w ∧ target = some w.id) ∧
        ∀ value function, t.kind = .ret value function →
          ∃ g, f.function = some g ∧ function = some g) ∧
    (∀ d r keyword, typeCheck withBuiltins p = (.error (.diagnostic d), r) →
      d.cause = .outsideLoop keyword →
      ∃ f around t target, .func f ∈ p.items ∧ f.Nests around t ∧
        (keyword = "break" ∧ t.kind = .leave target ∨
          keyword = "continue" ∧ t.kind = .next target) ∧
        d = .ofNode (.outsideLoop keyword) t.id t.span ∧ ∀ u ∈ around, u.isLoop = false) := by
  refine ⟨?_, ?_⟩
  · intro p' r h
    refine ⟨typeCheck_erase h, ?_, ?_⟩
    · intro t ht
      rw [← p'.map_places] at ht
      obtain ⟨⟨place, _⟩, hplace, rfl⟩ := List.mem_map.mp ht
      obtain ⟨f, around, hf, hnests, _⟩ := Item.nests_of_mem hplace
      exact ⟨f, around, hf, hnests⟩
    · intro f around t hf hnests
      have hlinked := typeCheck_linked h hf hnests
      refine ⟨fun target ht => ?_, fun value function ht => ?_⟩
      · have hjump : ∃ loop, (Stmt.loops around).head? = some loop ∧ target = some loop := by
          rcases ht with ht | ht <;> rwa [ht] at hlinked
        obtain ⟨loop, hloop, rfl⟩ := hjump
        obtain ⟨outer, houter⟩ := List.head?_eq_some_iff.mp hloop
        obtain ⟨w, hw, rfl⟩ := Stmt.find?_isLoop houter
        exact ⟨w, hw, rfl⟩
      · rwa [ht] at hlinked
  · intro d r keyword h hcause
    obtain ⟨⟨place, n⟩, hn, s, hs, hfault⟩ := typeCheck_faults h
    -- a bad dimension has a cause of its own, so the node is blamed
    cases hfault with
    | dimension _ _ => exact absurd hcause (by simp [Diagnostic.ofNode])
    | @blame cause hblame =>
      obtain rfl : cause = Cause.outsideLoop keyword := hcause
      obtain ⟨hloops, t, target, rfl, hkind⟩ := hblame.outsideLoop hs
      obtain ⟨f, around, hf, hnests, haround⟩ := Item.nests_of_mem hn
      exact ⟨f, around, t, target, hf, hnests, hkind, rfl,
        Stmt.loops_eq_nil.mp (haround.symm.trans hloops)⟩

/-- What a jump of the tree has for its loop. -/
def jumpTarget? : Node → Option (Option NodeId)
  | .stmt ⟨_, .leave target, _, _⟩ => some target
  | .stmt ⟨_, .next target, _, _⟩ => some target
  | _ => none

/-- The targets of the jumps in the program that a source is read as, if it passes. -/
def sourceTargets? (source : String) : Option (List (Option NodeId)) :=
  match readSource? source with
  | none => none
  | some p =>
    match (typeCheck true p).1 with
    | .ok p' => some (p'.nodes.filterMap jumpTarget?)
    | .error _ => none

theorem typeCheck_of_sourceTargets? {source : String} {targets : List (Option NodeId)}
    (h : sourceTargets? source = some targets) :
    ∃ p p' r, readSource? source = some p ∧ typeCheck true p = (.ok p', r) ∧
      p'.nodes.filterMap jumpTarget? = targets := by
  unfold sourceTargets? at h
  split at h
  next => cases h
  next p hp =>
    rcases hrun : typeCheck true p with ⟨result, r⟩
    rw [hrun] at h
    cases result with
    | ok p' => exact ⟨p, p', r, hp, hrun, Option.some.inj h⟩
    | error e => cases h

/-- A loop in a loop, with jumps before, inside and after the inner one:

```
int f(bool c) { while (c) { if (c) { break; } while (c) continue; break; } return 1; }
```
-/
def nestedLoopsSource : String :=
  "int f(bool c) \x7b while (c) \x7b if (c) \x7b break; \x7d while (c) continue; break; \x7d " ++
  "return 1; \x7d"

/-- A jump after a loop:

```
void f(bool c) { while (c) { } continue; }
```
-/
def lateJumpSource : String :=
  "void f(bool c) \x7b while (c) \x7b \x7d continue; \x7d"

theorem typeCheck_links_jumps_sources :
    (∃ p p' r, readSource? nestedLoopsSource = some p ∧ typeCheck true p = (.ok p', r) ∧
      p'.nodes.filterMap jumpTarget? = [some ⟨17⟩, some ⟨13⟩, some ⟨17⟩] ∧
      ∀ f around t, .func f ∈ p'.items → f.Nests around t →
        ∀ target, t.kind = .leave target ∨ t.kind = .next target →
          ∃ w, around.find? Stmt.isLoop = some w ∧ target = some w.id) ∧
    (∃ p d r, readSource? lateJumpSource = some p ∧
      typeCheck true p = (.error (.diagnostic d), r) ∧ d.cause = .outsideLoop "continue" ∧
      ∃ f around t target, .func f ∈ p.items ∧ f.Nests around t ∧ t.kind = .next target ∧
        ∀ u ∈ around, u.isLoop = false) := by
  refine ⟨?_, ?_⟩
  · have htargets : sourceTargets? nestedLoopsSource = some [some ⟨17⟩, some ⟨13⟩, some ⟨17⟩] := by
      decide +kernel
    obtain ⟨p, p', r, hp, h, hjumps⟩ := typeCheck_of_sourceTargets? htargets
    obtain ⟨_, _, hlinks⟩ := (typeCheck_links_jumps true p).1 p' r h
    exact ⟨p, p', r, hp, h, hjumps, fun f around t hf hnests => (hlinks f around t hf hnests).1⟩
  · have hrejected : sourceCause? true lateJumpSource = some (.outsideLoop "continue") := by
      decide +kernel
    obtain ⟨p, d, r, hp, h, hcause⟩ := typeCheck_of_sourceCause? true lateJumpSource hrejected
    obtain ⟨f, around, t, target, hf, hnests, hkind, _, haround⟩ :=
      (typeCheck_links_jumps true p).2 d r "continue" h hcause
    refine ⟨p, d, r, hp, h, hcause, f, around, t, target, hf, hnests, ?_, haround⟩
    rcases hkind with ⟨hkeyword, _⟩ | ⟨_, hkind⟩
    · exact absurd hkeyword (by decide)
    · exact hkind

end Typing

end CactLang
