import CactLang.Proofs.Contents
import CactLang.Proofs.Effects
import CactLang.Proofs.Written

/-!
# The types in the registry

A check that fails leaves what it has declared so far. Whatever it was, each variable and each
parameter in the registry comes from a declaration of the tree, with the type written there.

> `Registry.From p r`: everything in `r` is declared in the program `p`, built-in functions apart.

No rule for types is checked when a name is declared. That no variable is `void` is a matter of
how declarations are read, that dimensions are positive one of how they are evaluated, and only a
parameter can be written with an open dimension.
-/

namespace CactLang

/-! ## Declared types -/

namespace Ty

/-- All dimensions are given. -/
def Sized (t : Ty) : Prop :=
  ∀ n ∈ t.dims, 1 ≤ n

/-- The outermost dimension is open, and all others are given. -/
def Open (t : Ty) : Prop :=
  ∃ inner, t.dims = 0 :: inner ∧ ∀ n ∈ inner, 1 ≤ n

end Ty

/-- An extent is at least one. -/
theorem Typing.one_le_extent? {dim : Dimension} {n : Nat} (h : extent? dim = some n) : 1 ≤ n := by
  unfold extent? at h
  split at h
  next value _ =>
    split at h
    next hvalue =>
      have hn : value.toNat = n := Option.some.inj h
      omega
    next => cases h
  next => cases h

theorem Typing.one_le_of_mapM_extent? :
    ∀ {dims : List Dimension} {ns : List Nat}, dims.mapM extent? = some ns → ∀ n ∈ ns, 1 ≤ n
  | [], ns, h => by
    obtain rfl : [] = ns := Option.some.inj h
    simp
  | dim :: dims, ns, h => by
    rw [List.mapM_cons] at h
    obtain ⟨n, hn, h⟩ := Option.bind_eq_some_iff.mp h
    obtain ⟨rest, hrest, h⟩ := Option.bind_eq_some_iff.mp h
    obtain rfl : n :: rest = ns := Option.some.inj h
    exact List.forall_mem_cons.mpr ⟨one_le_extent? hn, one_le_of_mapM_extent? hrest⟩

namespace Declaration

variable {d : Declaration} {ty : Ty}

/-- The type that is declared has the basic type that was written. -/
theorem ty?_basic (h : d.ty? = some ty) : ty.basic = d.basic := by
  obtain ⟨_, _, rfl⟩ := Option.map_eq_some_iff.mp h
  rfl

/-- A declared type is open where an open dimension is written. -/
theorem ty?_dims (h : d.ty? = some ty) : ty.Sized ∨ ty.Open ∧ d.isOpen = true := by
  obtain ⟨ns, hns, rfl⟩ := Option.map_eq_some_iff.mp h
  have hone := Typing.one_le_of_mapM_extent? hns
  cases hopen : d.isOpen with
  | false => exact .inl hone
  | true => exact .inr ⟨⟨ns, rfl, hone⟩, rfl⟩

/-- The variable has the type that was declared. -/
theorem toSymbol?_ty {y : Symbol} (h : d.toSymbol? = some y) : d.ty? = some y.ty := by
  obtain ⟨ty, hty, rfl⟩ := Option.map_eq_some_iff.mp h
  exact hty

end Declaration

/-! ## How declarations are written -/

/-- A well-formed declaration declares no variable of type `void`. -/
theorem Decl.declared_of_isWellFormed {d : Decl} (h : d.isWellFormed = true) :
    ∀ x ∈ d.contents.declarations, x.basic ≠ .void ∧ x.isOpen = false := by
  intro x hx
  obtain ⟨v, _, rfl⟩ := List.mem_map.mp hx
  simp only [Decl.isWellFormed, Bool.and_eq_true, bne_iff_ne] at h
  exact ⟨h.1.1, rfl⟩

mutual

/-- A well-formed statement declares no variable of type `void`. -/
theorem Stmt.declared_of_isWellFormed {parent : Option ScopeId} :
    ∀ {t : Stmt}, t.isWellFormed = true →
      ∀ x ∈ (t.contents parent).declarations, x.basic ≠ .void ∧ x.isOpen = false
  | ⟨_, .assign _ _, _, _⟩, _ => by
    rw [Stmt.contents]
    exact List.forall_mem_nil _
  | ⟨_, .expr _, _, _⟩, _ => by
    rw [Stmt.contents]
    exact List.forall_mem_nil _
  | ⟨_, .block _, _, _⟩, h => by
    rw [Stmt.contents]
    exact Block.declared_of_isWellFormed h
  | ⟨_, .cond _ _ none, _, _⟩, h => by
    rw [Stmt.isWellFormed, Bool.and_eq_true] at h
    rw [Stmt.contents]
    exact Stmt.declared_of_isWellFormed h.2
  | ⟨_, .cond _ _ (some _), _, _⟩, h => by
    simp only [Stmt.isWellFormed, Bool.and_eq_true] at h
    rw [Stmt.contents]
    exact List.forall_mem_append.mpr
      ⟨Stmt.declared_of_isWellFormed h.1.2, Stmt.declared_of_isWellFormed h.2⟩
  | ⟨_, .loop _ _, _, _⟩, h => by
    rw [Stmt.isWellFormed, Bool.and_eq_true] at h
    rw [Stmt.contents]
    exact Stmt.declared_of_isWellFormed h.2
  | ⟨_, .leave _, _, _⟩, _ => by
    rw [Stmt.contents]
    exact List.forall_mem_nil _
  | ⟨_, .next _, _, _⟩, _ => by
    rw [Stmt.contents]
    exact List.forall_mem_nil _
  | ⟨_, .ret _ _, _, _⟩, _ => by
    rw [Stmt.contents]
    exact List.forall_mem_nil _

theorem Block.declared_of_isWellFormed {parent : Option ScopeId} :
    ∀ {b : Block}, b.isWellFormed = true →
      ∀ x ∈ (b.contents parent).declarations, x.basic ≠ .void ∧ x.isOpen = false
  | ⟨_, _, _, _, _⟩, h => by
    rw [Block.contents]
    exact BlockItem.declared_of_areWellFormed h

theorem BlockItem.declared_of_areWellFormed {scope : Option ScopeId} :
    ∀ {items : List BlockItem}, BlockItem.areWellFormed items = true →
      ∀ x ∈ (BlockItem.allContents scope items).declarations,
        x.basic ≠ .void ∧ x.isOpen = false
  | [], _ => by
    rw [BlockItem.allContents]
    exact List.forall_mem_nil _
  | .decl _ :: _, h => by
    rw [BlockItem.areWellFormed, Bool.and_eq_true] at h
    rw [BlockItem.allContents]
    exact List.forall_mem_append.mpr
      ⟨Decl.declared_of_isWellFormed h.1, BlockItem.declared_of_areWellFormed h.2⟩
  | .stmt _ :: _, h => by
    rw [BlockItem.areWellFormed, Bool.and_eq_true] at h
    rw [BlockItem.allContents]
    exact List.forall_mem_append.mpr
      ⟨Stmt.declared_of_isWellFormed h.1, BlockItem.declared_of_areWellFormed h.2⟩

end

/-- What a program declares is not `void`, and with an open dimension it is a parameter. -/
theorem Item.declared_of_isWellFormed {global : Option ScopeId} {is : List Item}
    (h : ∀ i ∈ is, i.isWellFormed = true) :
    ∀ x ∈ (Item.allContents global is).declarations, x.basic ≠ .void ∧
      (x.isOpen = true → ∃ f a, .func f ∈ is ∧ a ∈ f.params ∧ x = a.declaration) := by
  induction is with
  | nil => exact List.forall_mem_nil _
  | cons i is ih =>
    obtain ⟨hi, his⟩ := List.forall_mem_cons.mp h
    have hrest : ∀ x ∈ (Item.allContents global is).declarations, x.basic ≠ .void ∧
        (x.isOpen = true → ∃ f a, .func f ∈ i :: is ∧ a ∈ f.params ∧ x = a.declaration) := by
      intro x hx
      obtain ⟨hbasic, hopen⟩ := ih his x hx
      refine ⟨hbasic, fun hx => ?_⟩
      obtain ⟨f, a, hf, ha⟩ := hopen hx
      exact ⟨f, a, List.mem_cons_of_mem _ hf, ha⟩
    cases i with
    | decl d =>
      refine List.forall_mem_append.mpr ⟨fun x hx => ?_, hrest⟩
      obtain ⟨hbasic, hclosed⟩ := Decl.declared_of_isWellFormed hi x hx
      exact ⟨hbasic, fun hopen => absurd (hclosed.symm.trans hopen) Bool.false_ne_true⟩
    | func f =>
      rw [Item.isWellFormed, FuncDef.isWellFormed, Bool.and_eq_true, List.all_eq_true] at hi
      refine List.forall_mem_append.mpr ⟨List.forall_mem_append.mpr ⟨fun x hx => ?_,
        fun x hx => ?_⟩, hrest⟩
      · obtain ⟨a, ha, rfl⟩ := List.mem_map.mp hx
        have hbasic : a.basic ≠ .void := bne_iff_ne.mp (hi.1 a ha)
        exact ⟨hbasic, fun _ => ⟨f, a, List.mem_cons_self, ha, rfl⟩⟩
      · obtain ⟨hbasic, hclosed⟩ := Block.declared_of_isWellFormed hi.2 x hx
        exact ⟨hbasic, fun hopen => absurd (hclosed.symm.trans hopen) Bool.false_ne_true⟩

/-! ## What checking leaves, passed or failed -/

/-- The function is that of the definition, with some of its parameters. -/
structure Signature.Of (f : FuncDef) (g : Signature) : Prop where
  name : g.name = f.name
  returns : g.returns = .scalar f.returns
  parameters : ∀ q ∈ g.parameters, ∃ a ∈ f.params, a.name = q.name ∧ a.declaration.ty? = some q.ty

/-- Every variable is declared in the program, and so is every function that is not built in. -/
structure Registry.From (p : Program) (r : Registry) : Prop where
  symbol : ∀ y ∈ r.symbols.toList, ∃ d ∈ p.contents.declarations, d.toSymbol? = some y
  function : ∀ g ∈ r.functions.toList, g ∈ builtins ∨ ∃ f, .func f ∈ p.items ∧ g.Of f

namespace Registry.From

variable {p : Program} {r : Registry}

/-- A variable of a declaration of the program is added. -/
theorem bound {c : ScopeId} {s : Scope} {name : String} {y : Symbol} {d : Declaration}
    (h : r.From p) (hd : d ∈ p.contents.declarations) (hy : d.toSymbol? = some y) :
    (r.bound c s name y).From p := by
  refine ⟨?_, h.function⟩
  rw [Registry.bound, Array.toList_push]
  exact List.forall_mem_append.mpr ⟨h.symbol, List.forall_mem_singleton.mpr ⟨d, hd, hy⟩⟩

/-- A function of a definition of the program is added. -/
theorem declared {f : FuncDef} {g : Signature} (h : r.From p) (hf : .func f ∈ p.items)
    (hg : g.Of f) : (r.declared g).From p := by
  refine ⟨h.symbol, ?_⟩
  rw [Registry.declared, withFunctions, Array.toList_push]
  exact List.forall_mem_append.mpr ⟨h.function, List.forall_mem_singleton.mpr (.inr ⟨f, hf, hg⟩)⟩

/-- The entry of a function stays that of its definition. -/
theorem updated {f : FuncDef} {g : Signature} {id : FunctionId} (h : r.From p)
    (hf : .func f ∈ p.items) (hg : g.Of f) : (r.updated id g).From p := by
  refine ⟨h.symbol, fun g' hg' => ?_⟩
  rw [Registry.updated, withFunctions, Array.toList_setIfInBounds] at hg'
  rcases List.mem_or_eq_of_mem_set hg' with hg' | rfl
  · exact h.function g' hg'
  · exact .inr ⟨f, hf, hg⟩

end Registry.From

namespace Typing

variable {p : Program}

/-- Everything that has been declared so far is in the program. -/
def State.From (p : Program) (s : State) : Prop :=
  s.registry.From p

/-- What is found by looking is there when the rest is checked. -/
theorem Maintains.look_bind {I : State → Prop} {α β : Type}
    {f : Registry → Context → Except Failure α} {m : α → Check β}
    (hm : ∀ {s : State} {a : α}, f s.registry s.context = .ok a → Maintains I (m a)) :
    Maintains I (Check.look f >>= m) := by
  intro s hs
  rw [Check.after_bind]
  unfold Check.look
  cases h : f s.registry s.context with
  | error e => exact hs
  | ok a => exact hm h s hs

/-- Binding what a declaration says keeps everything from the program. -/
theorem bindName_from {d : Declaration} {y : Symbol} (hd : d ∈ p.contents.declarations)
    (hy : d.toSymbol? = some y) (id : NodeId) (span : Span) (name : String) :
    Maintains (State.From p) (bindName id span name y) := by
  refine .declare fun hs hr => ?_
  obtain ⟨c, _, _, _, _, rfl⟩ := Registry.register_ok.mp (locateRefusal_ok.mp hr)
  exact Registry.From.bound hs hd hy

/-- A definition adds what it declares. -/
theorem varDef_from {isConstant : Bool} {basic : BasicType} {d : VarDef}
    (hd : d.declaration isConstant basic ∈ p.contents.declarations) :
    Maintains (State.From p) (varDef isConstant basic d) := by
  unfold varDef
  refine .look_bind fun {_ ty} hty => ?_
  have hty' : (d.declaration isConstant basic).ty? = some ty := ty?_of_typeOf hty
  have hy : (d.declaration isConstant basic).toSymbol? = some (declaredSymbol isConstant d ty) := by
    rw [Declaration.toSymbol?, hty', declaredSymbol_eq]
    rfl
  have hname : ∀ init, Maintains (State.From p) (do
      let symbol ← bindName d.id d.span d.name (declaredSymbol isConstant d ty)
      return { d with init, symbol := some symbol }) := fun _ =>
    .bind (bindName_from hd hy _ _ _) fun _ => .of_reads (.pure _)
  dsimp only
  cases d.init with
  | none => exact .bind (.of_reads (.pure none)) hname
  | some init => exact .bind (.of_reads ((Reads.look _).map some)) hname

theorem varDefs_from {isConstant : Bool} {basic : BasicType} :
    ∀ {ds : List VarDef}, (∀ d ∈ ds, d.declaration isConstant basic ∈ p.contents.declarations) →
      Maintains (State.From p) (varDefs isConstant basic ds)
  | [], _ => .of_reads (.pure _)
  | _ :: _, h => by
    obtain ⟨hd, hds⟩ := List.forall_mem_cons.mp h
    refine .bind (varDef_from hd) fun _ => ?_
    exact .bind (varDefs_from hds) fun _ => .of_reads (.pure _)

/-- A declaration adds what its definitions declare. -/
theorem decl_from {d : Decl} (h : d.contents.declarations ⊆ p.contents.declarations) :
    Maintains (State.From p) (decl d) :=
  .bind (varDefs_from fun _ hx => h (List.mem_map_of_mem hx)) fun _ => .of_reads (.pure _)

theorem inScope_from {α : Type} {part : Check α} (h : Maintains (State.From p) part) :
    Maintains (State.From p) (Check.inScope part) := by
  intro s hs
  rw [Check.after_inScope]
  exact h s.inScope ⟨hs.symbol, hs.function⟩

mutual

/-- A statement adds what is declared inside of it. -/
theorem stmt_from {parent : Option ScopeId} :
    ∀ {t : Stmt}, (t.contents parent).declarations ⊆ p.contents.declarations →
      Maintains (State.From p) (stmt t)
  | ⟨_, .assign target value, _, _⟩, _ => by
    rw [stmt]
    exact .bind (.of_reads (assignment_reads target value)) fun _ => .of_reads (.pure _)
  | ⟨_, .expr none, _, _⟩, _ => by
    rw [stmt]
    exact .of_reads (.pure _)
  | ⟨_, .expr (some _), _, _⟩, _ => by
    rw [stmt]
    exact .bind (.of_reads (.look _)) fun _ => .of_reads (.pure _)
  | ⟨_, .block _, _, _⟩, h => by
    rw [Stmt.contents] at h
    rw [stmt]
    exact .bind (block_from h) fun _ => .of_reads (.pure _)
  | ⟨_, .cond test _ none, _, _⟩, h => by
    rw [Stmt.contents] at h
    rw [stmt]
    refine .bind (.of_reads (condition_reads test)) fun _ => ?_
    exact .bind (stmt_from h) fun _ => .of_reads (.pure _)
  | ⟨_, .cond test _ (some _), _, _⟩, h => by
    rw [Stmt.contents] at h
    obtain ⟨hthen, helse⟩ := List.append_subset.mp h
    rw [stmt]
    refine .bind (.of_reads (condition_reads test)) fun _ => ?_
    refine .bind (stmt_from hthen) fun _ => ?_
    exact .bind (stmt_from helse) fun _ => .of_reads (.pure _)
  | ⟨_, .loop test _, _, _⟩, h => by
    rw [Stmt.contents] at h
    rw [stmt]
    refine .bind (.of_reads (condition_reads test)) fun _ => ?_
    -- the loop is noted in the context only, of which `State.From` does not speak
    refine .bind (.within (fun _ hs => hs) (fun _ _ _ hs => hs) (stmt_from h)) fun _ => ?_
    exact .of_reads (.pure _)
  | ⟨_, .leave _, _, _⟩, _ => by
    rw [stmt]
    exact .bind (.of_reads (.look _)) fun _ => .of_reads (.pure _)
  | ⟨_, .next _, _, _⟩, _ => by
    rw [stmt]
    exact .bind (.of_reads (.look _)) fun _ => .of_reads (.pure _)
  | ⟨id, .ret value _, span, _⟩, _ => by
    rw [stmt]
    exact .bind (.of_reads (returning_reads id span value)) fun _ => .of_reads (.pure _)

theorem block_from {parent : Option ScopeId} :
    ∀ {b : Block}, (b.contents parent).declarations ⊆ p.contents.declarations →
      Maintains (State.From p) (block b)
  | ⟨_, _, _, _, _⟩, h => by
    rw [Block.contents] at h
    rw [block]
    exact .bind (inScope_from (blockItems_from h)) fun _ => .of_reads (.pure _)

theorem blockItems_from {scope : Option ScopeId} :
    ∀ {items : List BlockItem},
      (BlockItem.allContents scope items).declarations ⊆ p.contents.declarations →
      Maintains (State.From p) (blockItems items)
  | [], _ => by
    rw [blockItems]
    exact .of_reads (.pure _)
  | .decl _ :: _, h => by
    rw [BlockItem.allContents] at h
    obtain ⟨hd, hrest⟩ := List.append_subset.mp h
    rw [blockItems]
    refine .bind (decl_from hd) fun _ => ?_
    exact .bind (blockItems_from hrest) fun _ => .of_reads (.pure _)
  | .stmt _ :: _, h => by
    rw [BlockItem.allContents] at h
    obtain ⟨ht, hrest⟩ := List.append_subset.mp h
    rw [blockItems]
    refine .bind (stmt_from ht) fun _ => ?_
    exact .bind (blockItems_from hrest) fun _ => .of_reads (.pure _)

end

/-! ### Function definitions -/

/-- The function `id`, whose parameters are being added, is that of the definition. -/
structure State.Adding (p : Program) (f : FuncDef) (id : FunctionId) (s : State) : Prop where
  registry : s.registry.From p
  function : ∀ g, s.registry.function? id = some g → g.Of f

/-- A new function has no parameters yet. -/
theorem State.Adding.new {f : FuncDef} {s : State} (hf : .func f ∈ p.items) (hs : s.From p) :
    State.Adding p f ⟨s.registry.functions.size⟩
      ⟨s.registry.declared { name := f.name, returns := .scalar f.returns }, s.context⟩ := by
  have hnew : Signature.Of f { name := f.name, returns := .scalar f.returns } :=
    ⟨rfl, rfl, List.forall_mem_nil _⟩
  refine ⟨Registry.From.declared hs hf hnew, fun g hg => ?_⟩
  rw [← Option.some.inj (Array.getElem?_push_size.symm.trans hg)]
  exact hnew

section

variable {f : FuncDef} {id : FunctionId}

/-- A parameter adds itself to its function and to the scope. -/
theorem param_adding {a : Param} (hf : .func f ∈ p.items) (ha : a ∈ f.params)
    (hd : a.declaration ∈ p.contents.declarations) :
    Maintains (State.Adding p f id) (param id a) := by
  unfold param
  refine .look_bind fun {_ ty} hty => ?_
  have hty' : a.declaration.ty? = some ty := ty?_of_typeOf hty
  have hy : a.declaration.toSymbol? = some (.ofParameter a.name ty) := by
    rw [Declaration.toSymbol?, hty']
    rfl
  refine .bind (.declare fun hs hr => ?_) fun _ => ?_
  · obtain ⟨g, hg, rfl⟩ :=
      Registry.addParameter_ok.mp (Registry.map_pair_ok.mp (locateRefusal_ok.mp hr))
    -- the parameter is added to the entry of this function; all other entries stay
    have hold := hs.function g hg
    have hnew : Signature.Of f { g with parameters := g.parameters ++ [⟨a.name, ty⟩] } :=
      ⟨hold.name, hold.returns, List.forall_mem_append.mpr
        ⟨hold.parameters, List.forall_mem_singleton.mpr ⟨a, ha, rfl, hty'⟩⟩⟩
    refine ⟨hs.registry.updated hf hnew, fun g' hg' => ?_⟩
    have hlt := (Array.getElem?_eq_some_iff.mp hg).1
    have hget : some g' = some _ := hg'.symm.trans (Array.getElem?_setIfInBounds_self_of_lt hlt)
    rw [Option.some.inj hget]
    exact hnew
  · refine .bind (.declare fun hs hr => ?_) fun _ => .of_reads (.pure _)
    obtain ⟨c, _, _, _, _, rfl⟩ := Registry.register_ok.mp (locateRefusal_ok.mp hr)
    exact ⟨hs.registry.bound hd hy, hs.function⟩

theorem params_adding (hf : .func f ∈ p.items) :
    ∀ {as : List Param}, as ⊆ f.params →
      as.map Param.declaration ⊆ p.contents.declarations →
      Maintains (State.Adding p f id) (params id as)
  | [], _, _ => .of_reads (.pure _)
  | _ :: _, has, hds => by
    obtain ⟨ha, has⟩ := List.cons_subset.mp has
    obtain ⟨hd, hds⟩ := List.cons_subset.mp hds
    refine .bind (param_adding hf ha hd) fun _ => ?_
    exact .bind (params_adding hf has hds) fun _ => .of_reads (.pure _)

/-- A block declares no function. -/
theorem block_adding {parent : Option ScopeId} {b : Block}
    (h : (b.contents parent).declarations ⊆ p.contents.declarations) :
    Maintains (State.Adding p f id) (block b) := by
  intro s hs
  refine ⟨block_from h s hs.registry, ?_⟩
  rw [Registry.function?, (block_keeps b s).2.functions]
  exact hs.function

end

/-- A function definition adds its function and what is declared inside of it. -/
theorem funcDef_from {parent : Option ScopeId} {f : FuncDef} (hf : .func f ∈ p.items)
    (h : (f.contents parent).declarations ⊆ p.contents.declarations) :
    Maintains (State.From p) (funcDef f) := by
  obtain ⟨hparams, hbody⟩ := List.append_subset.mp h
  unfold funcDef
  refine .bind (inScope_from fun s hs => ?_) fun _ => .of_reads (.pure _)
  rw [Check.after_bind]
  cases hdeclare : declareFunction f s with
  | error e s₁ =>
    obtain rfl := Unmoved.declare _ _ _ _ hdeclare
    exact hs
  | ok id s₁ =>
    -- from here on the function is there, and its parameters are added one by one
    obtain ⟨r, hr, rfl⟩ := Check.declare_ok.mp hdeclare
    obtain ⟨_, _, rfl, rfl⟩ := Registry.newFunction_ok.mp (locateRefusal_ok.mp hr)
    suffices hafter : State.Adding p f ⟨s.registry.functions.size⟩ _ from hafter.registry
    refine Maintains.bind (.within (fun _ hs => ⟨hs.registry, hs.function⟩)
      (fun _ _ _ hs => ⟨hs.registry, hs.function⟩) ?_) (fun _ => .of_reads (.pure _)) _ (.new hf hs)
    refine .bind (params_adding hf (List.Subset.refl _) hparams) fun ps => ?_
    exact .bind (block_adding hbody) fun body => .of_reads (.pure _)

/-- A program adds what its items declare. -/
theorem items_from {global : Option ScopeId} :
    ∀ {is : List Item}, is ⊆ p.items →
      (Item.allContents global is).declarations ⊆ p.contents.declarations →
      Maintains (State.From p) (items is)
  | [], _, _ => .of_reads (.pure _)
  | .decl _ :: _, his, h => by
    obtain ⟨hd, hrest⟩ := List.append_subset.mp h
    refine .bind (decl_from hd) fun _ => ?_
    exact .bind (items_from (List.cons_subset.mp his).2 hrest) fun _ => .of_reads (.pure _)
  | .func _ :: _, his, h => by
    obtain ⟨hf, his⟩ := List.cons_subset.mp his
    obtain ⟨hparts, hrest⟩ := List.append_subset.mp h
    refine .bind (funcDef_from hf hparts) fun _ => ?_
    exact .bind (items_from his hrest) fun _ => .of_reads (.pure _)

/-- Whatever checking leaves is declared in the program. -/
theorem typeCheck_from (withBuiltins : Bool) (p : Program) :
    (typeCheck withBuiltins p).2.From p := by
  have hstart : (start withBuiltins).From p := by
    unfold State.From
    rw [start_registry]
    refine ⟨List.forall_mem_nil _, fun g hg => .inl ?_⟩
    -- at the start there are no variables, and functions only if they are built-in
    cases withBuiltins with
    | false => exact absurd hg List.not_mem_nil
    | true => exact hg
  have hall : (Item.allContents (some ⟨0⟩) p.items).declarations ⊆ p.contents.declarations :=
    List.Subset.refl _
  have hafter := items_from (List.Subset.refl _) hall (start withBuiltins) hstart
  rw [typeCheck_eq]
  unfold Check.after at hafter
  -- success or failure, the registry is the one the items leave
  cases his : items p.items (start withBuiltins) with
  | ok is s =>
    rw [his] at hafter
    exact hafter
  | error e s =>
    rw [his] at hafter
    exact hafter

end Typing

/-! ## The types that are left -/

/-- The built-in functions take and give single values. -/
theorem Registry.builtins_scalar : ∀ g ∈ builtins, g.returns.dims = [] ∧
    ∀ q ∈ g.parameters, q.ty.basic ≠ .void ∧ q.ty.dims = [] := by
  decide

namespace Registry.From

variable {p : Program} {r : Registry}

/-- A variable is not `void`, and its dimensions are given but for the open one of a
parameter. -/
theorem symbol_ty (h : r.From p) (hp : p.isWellFormed = true) {y : Symbol}
    (hy : y ∈ r.symbols.toList) :
    y.ty.basic ≠ .void ∧ (y.ty.Sized ∨ y.ty.Open ∧ ∃ f a, .func f ∈ p.items ∧ a ∈ f.params ∧
      a.isOpen = true ∧ a.declaration.toSymbol? = some y) := by
  obtain ⟨d, hd, hentry⟩ := h.symbol y hy
  obtain ⟨hbasic, hopen⟩ := Item.declared_of_isWellFormed (List.all_eq_true.mp hp) d hd
  have hty := Declaration.toSymbol?_ty hentry
  refine ⟨by rw [Declaration.ty?_basic hty]; exact hbasic, ?_⟩
  refine (Declaration.ty?_dims hty).imp_right fun ⟨hdims, hisOpen⟩ => ⟨hdims, ?_⟩
  obtain ⟨f, a, hf, ha, rfl⟩ := hopen hisOpen
  exact ⟨f, a, hf, ha, hisOpen, hentry⟩

/-- A function gives a single value or nothing. -/
theorem returns_dims (h : r.From p) {g : Signature} (hg : g ∈ r.functions.toList) :
    g.returns.dims = [] := by
  obtain hg | ⟨f, _, hof⟩ := h.function g hg
  · exact (builtins_scalar g hg).1
  · rw [hof.returns]
    rfl

/-- The same holds of a parameter of a function, where an open dimension is written in the
definition of that function. -/
theorem parameter_ty (h : r.From p) (hp : p.isWellFormed = true) {g : Signature}
    (hg : g ∈ r.functions.toList) {q : Parameter} (hq : q ∈ g.parameters) :
    q.ty.basic ≠ .void ∧ (q.ty.Sized ∨ q.ty.Open ∧ ∃ f a, .func f ∈ p.items ∧
      f.name = g.name ∧ a ∈ f.params ∧ a.isOpen = true ∧ a.name = q.name ∧
        a.declaration.ty? = some q.ty) := by
  obtain hg | ⟨f, hf, hof⟩ := h.function g hg
  · obtain ⟨hbasic, hdims⟩ := (builtins_scalar g hg).2 q hq
    refine ⟨hbasic, .inl ?_⟩
    rw [Ty.Sized, hdims]
    exact List.forall_mem_nil _
  · obtain ⟨a, ha, hname, hty⟩ := hof.parameters q hq
    have hwell : f.isWellFormed = true := List.all_eq_true.mp hp _ hf
    rw [FuncDef.isWellFormed, Bool.and_eq_true, List.all_eq_true] at hwell
    have hbasic : a.basic ≠ .void := bne_iff_ne.mp (hwell.1 a ha)
    refine ⟨by rw [Declaration.ty?_basic hty]; exact hbasic, ?_⟩
    exact (Declaration.ty?_dims hty).imp_right fun ⟨hdims, hisOpen⟩ =>
      ⟨hdims, f, a, hf, hof.name.symm, ha, hisOpen, hname, hty⟩

end Registry.From

end CactLang
