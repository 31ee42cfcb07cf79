import CactLang.Proofs.Contract

/-!
# The shapes of initializers

An initializer is a tree of braces with expressions at its leaves. It fits an array in two
ways: nested like the dimensions, where only the innermost lists may leave elements out, or
as one list of expressions, as many as the outermost dimension says.

> `initializer_passes_iff`: checking takes these two shapes and no others, with leaves of
> the element type that refer to nothing.

Below the outermost braces there is only one way left, so what checking takes there is
found by induction on the dimensions that are still ahead (`takes_nested_iff`). The
flat list is an exception of the outermost braces alone.
-/

namespace CactLang

/-! ## Constants -/

/-- Whether the node is a variable or a call. -/
def Node.isReference : Node → Bool
  | .lvalue _ => true
  | .expr ⟨_, .call .., _, _⟩ => true
  | _ => false

/-- No variable and no call stands anywhere in the expression. -/
def Expr.IsConstant (e : Expr) : Prop :=
  ∀ n ∈ e.nodes, n.isReference = false

namespace Expr.IsConstant

variable {id : NodeId} {span : Span} {info : Option ExprInfo}

/-- An expression is constant if what stands in it is, and it is no call. -/
theorem mk_iff {kind : ExprKind} :
    IsConstant ⟨id, kind, span, info⟩ ↔
      (∀ n ∈ kind.nodes, n.isReference = false) ∧
        (Node.expr ⟨id, kind, span, info⟩).isReference = false := by
  rw [IsConstant, Expr.nodes, List.forall_mem_append, List.forall_mem_singleton]

theorem number (text : String) (kind : NumberKind) :
    IsConstant ⟨id, .number text kind, span, info⟩ := by
  rw [mk_iff, ExprKind.nodes]
  exact ⟨List.forall_mem_nil _, rfl⟩

theorem bool (value : Bool) : IsConstant ⟨id, .bool value, span, info⟩ := by
  rw [mk_iff, ExprKind.nodes]
  exact ⟨List.forall_mem_nil _, rfl⟩

theorem not_lvalue (l : LValue) : ¬IsConstant ⟨id, .lvalue l, span, info⟩ := by
  rw [mk_iff, ExprKind.nodes]
  intro h
  exact absurd (h.1 _ l.mem_nodes) (by simp [Node.isReference])

theorem not_call (callee : String) (arguments : List Expr) (function : Option FunctionId) :
    ¬IsConstant ⟨id, .call callee arguments function, span, info⟩ := by
  rw [mk_iff]
  intro h
  exact absurd h.2 (by simp [Node.isReference])

theorem paren_iff {inner : Expr} :
    IsConstant ⟨id, .paren inner, span, info⟩ ↔ inner.IsConstant := by
  rw [mk_iff, ExprKind.nodes]
  exact and_iff_left rfl

theorem unary_iff {op : Operator} {operand : Expr} :
    IsConstant ⟨id, .unary op operand, span, info⟩ ↔ operand.IsConstant := by
  rw [mk_iff, ExprKind.nodes]
  exact and_iff_left rfl

theorem binary_iff {op : Operator} {left right : Expr} :
    IsConstant ⟨id, .binary op left right, span, info⟩ ↔
      left.IsConstant ∧ right.IsConstant := by
  rw [mk_iff, ExprKind.nodes, List.forall_mem_append]
  exact and_iff_left rfl

end Expr.IsConstant

/-- What checking notes about constants is whether anything is referred to. -/
theorem Typing.checkExpr_isConstant {r : Registry} {scope : ScopeId} :
    ∀ {e e' : Expr} {negated : Bool} {i : ExprInfo}, checkExpr r scope negated e = .ok (e', i) →
      (i.isConstant = true ↔ e.IsConstant)
  | ⟨_, .number text kind, _, _⟩, _, _, _, h => by
    obtain ⟨_, rfl, _⟩ := checkExpr_number_ok.mp h
    exact iff_of_true rfl (.number text kind)
  | ⟨_, .bool value, _, _⟩, _, _, _, h => by
    obtain ⟨rfl, _⟩ := checkExpr_bool_ok.mp h
    exact iff_of_true rfl (.bool value)
  | ⟨_, .lvalue l, _, _⟩, _, _, _, h => by
    obtain ⟨_, _, _, rfl, _⟩ := checkExpr_lvalue_ok.mp h
    exact iff_of_false (by simp) (Expr.IsConstant.not_lvalue l)
  | ⟨_, .paren _, _, _⟩, _, _, _, h => by
    obtain ⟨_, i, hinner, rfl, _⟩ := checkExpr_paren_ok.mp h
    have hi := checkExpr_isConstant hinner
    rwa [Expr.IsConstant.paren_iff]
  | ⟨_, .unary _ _, _, _⟩, _, _, _, h => by
    obtain ⟨_, i, hoperand, _, rfl, _⟩ := checkExpr_unary_ok.mp h
    have hi := checkExpr_isConstant hoperand
    rwa [Expr.IsConstant.unary_iff]
  | ⟨_, .binary _ _ _, _, _⟩, _, _, _, h => by
    obtain ⟨_, _, _, _, hleft, hright, _, _, _, rfl, _⟩ := checkExpr_binary_ok.mp h
    rw [Expr.IsConstant.binary_iff, Bool.and_eq_true]
    exact and_congr (checkExpr_isConstant hleft) (checkExpr_isConstant hright)
  | ⟨_, .call callee arguments function, _, _⟩, _, _, _, h => by
    obtain ⟨_, _, _, _, _, _, _, rfl, _⟩ := checkExpr_call_ok.mp h
    exact iff_of_false (by simp) (Expr.IsConstant.not_call callee arguments function)

/-! ## Shapes -/

namespace Initializer

/-- The initializer is nested like the dimensions: one list for each, of exactly as many
items as the dimension says, and of at most as many if the dimension is the innermost. -/
def Nested : List Nat → Initializer → Prop
  | [], x => x.isScalar = true
  | _ :: _, .scalar .. => False
  | d :: ds, .list _ items _ =>
    (if ds = [] then items.length ≤ d else items.length = d) ∧ ∀ x ∈ items, Nested ds x

/-- The initializer is a list of expressions, as many as the outermost dimension says. -/
def Flat : List Nat → Initializer → Prop
  | d :: _, .list _ items _ => items.length = d ∧ ∀ x ∈ items, x.isScalar = true
  | _, _ => False

/-- The initializer has one of the two shapes. -/
def Fills (dims : List Nat) (x : Initializer) : Prop :=
  x.Nested dims ∨ x.Flat dims

theorem mem_allLeaves {e : Expr} {xs : List Initializer} :
    e ∈ allLeaves xs ↔ ∃ x ∈ xs, e ∈ x.leaves := by
  induction xs with
  | nil => simp [allLeaves]
  | cons x xs ih => simp [allLeaves, ih]

theorem forall_mem_leaves_list {P : Expr → Prop} {id : NodeId} {items : List Initializer}
    {span : Span} :
    (∀ e ∈ (list id items span).leaves, P e) ↔ ∀ x ∈ items, ∀ e ∈ x.leaves, P e := by
  simp only [leaves, mem_allLeaves]
  grind

theorem leaves_of_isScalar {x : Initializer} (h : x.isScalar = true) : x.leaves.length = 1 := by
  cases x with
  | scalar => rfl
  | list => cases h

/-- Items with at most `m` leaves each. -/
theorem length_allLeaves_le {m : Nat} :
    ∀ {xs : List Initializer}, (∀ x ∈ xs, x.leaves.length ≤ m) →
      (allLeaves xs).length ≤ xs.length * m
  | [], _ => by simp [allLeaves]
  | x :: xs, h => by
    obtain ⟨hx, hxs⟩ := List.forall_mem_cons.mp h
    have hrest := length_allLeaves_le hxs
    rw [allLeaves, List.length_append, List.length_cons, Nat.succ_mul]
    omega

end Initializer

/-- The number of elements of an array with these dimensions. -/
def elementCount (dims : List Nat) : Nat :=
  dims.foldr (· * ·) 1

theorem elementCount_pos {dims : List Nat} (h : ∀ d ∈ dims, 0 < d) : 0 < elementCount dims := by
  induction dims with
  | nil => exact Nat.one_pos
  | cons d ds ih =>
    obtain ⟨hd, hds⟩ := List.forall_mem_cons.mp h
    exact Nat.mul_pos hd (ih hds)

theorem Initializer.Nested.length_leaves_le :
    ∀ {dims : List Nat} {x : Initializer}, x.Nested dims → x.leaves.length ≤ elementCount dims
  | [], _, h => Nat.le_of_eq (leaves_of_isScalar h)
  | _ :: _, .scalar .., h => h.elim
  | d :: ds, .list _ items _, h => by
    obtain ⟨hcount, hitems⟩ := h
    have hle : items.length ≤ d := by
      split at hcount
      · exact hcount
      · exact Nat.le_of_eq hcount
    calc (allLeaves items).length
        ≤ items.length * elementCount ds :=
          length_allLeaves_le fun x hx => (hitems x hx).length_leaves_le
      _ ≤ d * elementCount ds := Nat.mul_le_mul_right _ hle

/-- An array with elements has room for what fills it. -/
theorem Initializer.Fills.length_leaves_le {dims : List Nat} {x : Initializer}
    (h : x.Fills dims) (hdims : ∀ d ∈ dims, 0 < d) : x.leaves.length ≤ elementCount dims := by
  rcases h with h | h
  · exact h.length_leaves_le
  · cases dims with
    | nil => exact h.elim
    | cons d ds =>
      cases x with
      | scalar => exact h.elim
      | list id items span =>
        obtain ⟨hcount, hitems⟩ := h
        -- in a flat list each item is one leaf, and an inner array has one element at least
        have hleaves : (allLeaves items).length ≤ items.length * 1 :=
          length_allLeaves_le fun x hx => Nat.le_of_eq (leaves_of_isScalar (hitems x hx))
        calc (allLeaves items).length
            ≤ d * 1 := by rw [← hcount]; exact hleaves
          _ ≤ d * elementCount ds :=
            Nat.mul_le_mul_left d (elementCount_pos (List.forall_mem_cons.mp hdims).2)

/-! ## What checking takes -/

namespace Typing

section

variable {r : Registry} {scope : ScopeId} {target : Ty}

/-- The expression passes with the element type, and refers to nothing. -/
def IsElement (r : Registry) (scope : ScopeId) (basic : BasicType) (e : Expr) : Prop :=
  (∃ e' i, checkExpr r scope false e = .ok (e', i) ∧ i.ty = .scalar basic) ∧ e.IsConstant

/-- Checking passes at this depth. -/
def Takes (r : Registry) (scope : ScopeId) (target : Ty) (depth : Nat) (x : Initializer) : Prop :=
  ∃ x', checkInitializer r scope target depth x = .ok x'

theorem takes_scalar_iff {depth : Nat} {id : NodeId} {value : Expr} {span : Span} :
    Takes r scope target depth (.scalar id value span) ↔
      depth = target.rank ∧ IsElement r scope target.basic value := by
  unfold Takes IsElement
  simp only [checkInitializer_scalar_ok]
  constructor
  · rintro ⟨_, value', i, hdepth, hvalue, hty, hconstant, _⟩
    exact ⟨hdepth, ⟨value', i, hvalue, hty⟩, (checkExpr_isConstant hvalue).mp hconstant⟩
  · rintro ⟨hdepth, ⟨value', i, hvalue, hty⟩, hconstant⟩
    exact ⟨_, value', i, hdepth, hvalue, hty, (checkExpr_isConstant hvalue).mpr hconstant, rfl⟩

theorem takes_items_iff {depth : Nat} {xs : List Initializer} :
    (∃ xs', checkInitializers r scope target depth xs = .ok xs') ↔
      ∀ x ∈ xs, Takes r scope target depth x := by
  induction xs with
  | nil => simp [checkInitializers_nil_ok]
  | cons x xs ih =>
    rw [List.forall_mem_cons, ← ih]
    simp only [checkInitializers_cons_ok, Takes]
    constructor
    · rintro ⟨_, y, ys, hy, hys, _⟩
      exact ⟨⟨y, hy⟩, ys, hys⟩
    · rintro ⟨⟨y, hy⟩, ys, hys⟩
      exact ⟨_, y, ys, hy, hys, rfl⟩

theorem takes_list_iff {depth extent : Nat} {id : NodeId} {items : List Initializer} {span : Span}
    (hextent : target.dims[depth]? = some extent) :
    Takes r scope target depth (.list id items span) ↔
      ∃ inner, itemDepth target depth extent items = .ok inner ∧
        ∀ x ∈ items, Takes r scope target inner x := by
  simp only [← takes_items_iff]
  unfold Takes
  simp only [checkInitializer_list_ok, hextent, Option.some.injEq]
  constructor
  · rintro ⟨_, _, inner, items', rfl, hinner, hitems, _⟩
    exact ⟨inner, hinner, items', hitems⟩
  · rintro ⟨inner, hinner, items', hitems⟩
    exact ⟨_, extent, inner, items', rfl, hinner, hitems, rfl⟩

/-- Past all dimensions an expression is taken, and nothing else. -/
theorem takes_rank_iff {x : Initializer} :
    Takes r scope target target.rank x ↔
      x.isScalar = true ∧ ∀ e ∈ x.leaves, IsElement r scope target.basic e := by
  cases x with
  | scalar id value span =>
    rw [takes_scalar_iff, Initializer.leaves, List.forall_mem_singleton]
    exact and_congr (iff_of_true rfl rfl) Iff.rfl
  | list id items span =>
    refine iff_of_false ?_ (fun h => absurd h.1 (by simp [Initializer.isScalar]))
    rintro ⟨_, hlist⟩
    obtain ⟨_, _, _, hextent, _⟩ := checkInitializer_list_ok.mp hlist
    rw [Ty.rank, List.getElem?_length] at hextent
    cases hextent

/-- Unless it is flat, a list has the size that its dimension asks for, and its items come
one dimension further in. -/
theorem takes_list_inner_iff {outer ds : List Nat} {d : Nat} {id : NodeId}
    {items : List Initializer} {span : Span} (hdims : target.dims = outer ++ d :: ds)
    (hflat : ¬(outer = [] ∧ items.length = d ∧ ∀ x ∈ items, x.isScalar = true)) :
    Takes r scope target outer.length (.list id items span) ↔
      (if ds = [] then items.length ≤ d else items.length = d) ∧
        ∀ x ∈ items, Takes r scope target (outer.length + 1) x := by
  have hrank : target.rank = outer.length + (ds.length + 1) := by
    rw [Ty.rank, hdims, List.length_append, List.length_cons]
  have hextent : target.dims[outer.length]? = some d := by
    rw [hdims, List.getElem?_append_right (Nat.le_refl _), Nat.sub_self]
    rfl
  -- outside of the flat form the next level is always one deeper
  have hdepth : ∀ inner, itemDepth target outer.length d items = .ok inner ↔
      (if ds = [] then items.length ≤ d else items.length = d) ∧ inner = outer.length + 1 := by
    intro inner
    rw [itemDepth_ok, List.length_eq_zero_iff, List.all_eq_true, hrank, or_iff_right
      (fun h => hflat ⟨h.1, h.2.1, h.2.2.1⟩), and_iff_right hflat, ← and_assoc]
    refine and_congr_left fun _ => ?_
    split
    next hds =>
      rw [hds, List.length_nil]
      exact and_iff_right fun hlt => by omega
    next hds =>
      have hpos := List.length_pos_of_ne_nil hds
      exact ⟨fun h => h.1 (by omega), fun h => ⟨fun _ => h, Nat.le_of_eq h⟩⟩
  rw [takes_list_iff hextent]
  constructor
  · rintro ⟨inner, hinner, hitems⟩
    obtain ⟨hcount, rfl⟩ := (hdepth inner).mp hinner
    exact ⟨hcount, hitems⟩
  · rintro ⟨hcount, hitems⟩
    exact ⟨_, (hdepth _).mpr ⟨hcount, rfl⟩, hitems⟩

/-- If the items that are taken are nested like the inner dimensions, so is the list. -/
theorem takes_list_nested_iff (outer : List Nat) {ds : List Nat} {d : Nat} {id : NodeId}
    {items : List Initializer} {span : Span} (hdims : target.dims = outer ++ d :: ds)
    (hflat : ¬(outer = [] ∧ items.length = d ∧ ∀ x ∈ items, x.isScalar = true))
    (hitems : ∀ x : Initializer, Takes r scope target (outer.length + 1) x ↔
      x.Nested ds ∧ ∀ e ∈ x.leaves, IsElement r scope target.basic e) :
    Takes r scope target outer.length (.list id items span) ↔
      (Initializer.list id items span).Nested (d :: ds) ∧
        ∀ e ∈ (Initializer.list id items span).leaves, IsElement r scope target.basic e := by
  rw [takes_list_inner_iff hdims hflat, Initializer.forall_mem_leaves_list, Initializer.Nested,
    and_assoc, ← forall₂_and]
  exact and_congr_right fun _ => forall₂_congr fun x _ => hitems x

/-- Inside of some braces, what is taken is nested like the dimensions ahead. -/
theorem takes_nested_iff {ds : List Nat} :
    ∀ outer : List Nat, target.dims = outer ++ ds → outer ≠ [] → ∀ x : Initializer,
      Takes r scope target outer.length x ↔
        x.Nested ds ∧ ∀ e ∈ x.leaves, IsElement r scope target.basic e := by
  induction ds with
  | nil =>
    intro outer hdims _ x
    have hrank : outer.length = target.rank := by rw [Ty.rank, hdims, List.append_nil]
    rw [hrank]
    exact takes_rank_iff
  | cons d ds ih =>
    intro outer hdims houter x
    cases x with
    | scalar id value span =>
      -- an expression is taken past all dimensions only, and `d` is left
      have hrank : outer.length ≠ target.rank := by
        rw [Ty.rank, hdims, List.length_append, List.length_cons]
        omega
      rw [takes_scalar_iff]
      exact iff_of_false (fun h => hrank h.1) And.left
    | list id items span =>
      refine takes_list_nested_iff outer hdims (fun h => houter h.1) fun x => ?_
      have hx := ih (outer ++ [d]) (by rw [hdims, List.append_assoc]; rfl) (by simp) x
      rwa [List.length_append] at hx

/-- From the outermost braces on, what is taken fills the array. -/
theorem takes_fills_iff {x : Initializer} :
    Takes r scope target 0 x ↔
      x.Fills target.dims ∧ ∀ e ∈ x.leaves, IsElement r scope target.basic e := by
  cases hdims : target.dims with
  | nil =>
    have hrank : target.rank = 0 := by rw [Ty.rank, hdims, List.length_nil]
    rw [← hrank, takes_rank_iff]
    exact and_congr_left fun _ => (or_iff_left (by cases x <;> exact id)).symm
  | cons d ds =>
    cases x with
    | scalar _ value _ =>
      rw [takes_scalar_iff, Ty.rank, hdims]
      exact iff_of_false (fun h => absurd h.1 (by simp)) (fun h => h.1.elim id id)
    | list node items span =>
      by_cases hflat : items.length = d ∧ ∀ x ∈ items, x.isScalar = true
      · -- the items stand past all dimensions, where expressions are taken
        have hextent : target.dims[0]? = some d := by rw [hdims]; rfl
        rw [takes_list_iff hextent, Initializer.forall_mem_leaves_list]
        constructor
        · rintro ⟨inner, hinner, hitems⟩
          rcases itemDepth_ok.mp hinner with ⟨_, _, _, rfl⟩ | ⟨hother, _⟩
          · exact ⟨.inr hflat, fun x hx => (takes_rank_iff.mp (hitems x hx)).2⟩
          · exact absurd ⟨rfl, hflat.1, List.all_eq_true.mpr hflat.2⟩ hother
        · rintro ⟨_, hleaves⟩
          refine ⟨target.rank, ?_, fun x hx => takes_rank_iff.mpr ⟨hflat.2 x hx, hleaves x hx⟩⟩
          exact itemDepth_ok.mpr (.inl ⟨rfl, hflat.1, List.all_eq_true.mpr hflat.2, rfl⟩)
      · have hfills : (Initializer.list node items span).Fills (d :: ds) ↔
            (Initializer.list node items span).Nested (d :: ds) := or_iff_left hflat
        rw [hfills]
        exact takes_list_nested_iff [] hdims (fun h => hflat h.2)
          (takes_nested_iff [d] hdims (by simp))

end

/-- **Initializers have one of two shapes.** From any state, checking an initializer against
a type passes exactly if every expression in it passes with the element type and refers to
nothing, and the whole is either a single expression where there are no dimensions or lists
that are nested like them, or one list of as many expressions as the outermost dimension says.
So it never has more expressions than an array with elements has elements. -/
theorem initializer_passes_iff (s : State) (target : Ty) (x : Initializer) :
    ((∃ x' s', initializer target 0 x s = .ok x' s') ↔
      (∀ e ∈ x.leaves,
        (∃ e' i s', expr e s = .ok (e', i) s' ∧ i.ty = .scalar target.basic) ∧ e.IsConstant) ∧
      (x.Nested target.dims ∨ x.Flat target.dims)) ∧
    ((∀ d ∈ target.dims, 0 < d) → (∃ x' s', initializer target 0 x s = .ok x' s') →
      x.leaves.length ≤ elementCount target.dims) := by
  have hpasses : (∃ x' s', initializer target 0 x s = .ok x' s') ↔
      Takes s.registry s.context.scope target 0 x := by
    simp [initializer_ok, Takes]
  have helement : ∀ e, IsElement s.registry s.context.scope target.basic e ↔
      (∃ e' i s', expr e s = .ok (e', i) s' ∧ i.ty = .scalar target.basic) ∧ e.IsConstant := by
    intro e
    simp [expr_ok, IsElement]
  simp only [hpasses, ← helement]
  refine ⟨takes_fills_iff.trans and_comm, fun hdims htakes => ?_⟩
  exact (takes_fills_iff.mp htakes).1.length_leaves_le hdims

/-- Two rows of three, the second with two elements left out, and two numbers alone:

```
{{1, 2, 3}, {-4}}
{1, 2}
```
-/
def raggedRows : Initializer × Initializer :=
  let number (text : String) : Expr := .plain default (.number text .integer) default
  let item (e : Expr) : Initializer := .scalar default e default
  let braces (items : List Initializer) : Initializer := .list default items default
  (braces [braces [item (number "1"), item (number "2"), item (number "3")],
      braces [item (.plain default (.unary .neg (number "4")) default)]],
    braces [item (number "1"), item (number "2")])

theorem initializer_passes_iff_raggedRows :
    (∃ x' s', initializer ⟨.int32, [2, 3]⟩ 0 raggedRows.1 ⟨{}, { scope := ⟨0⟩ }⟩ = .ok x' s') ∧
    (∃ x' s', initializer ⟨.int32, [2, 3]⟩ 0 raggedRows.2 ⟨{}, { scope := ⟨0⟩ }⟩ = .ok x' s') ∧
    raggedRows.1.leaves.length ≤ elementCount [2, 3] ∧
    raggedRows.2.leaves.length ≤ elementCount [2, 3] := by
  have hdims : ∀ d ∈ [2, 3], 0 < d := by decide
  have hnested : ∃ x' s', initializer ⟨.int32, [2, 3]⟩ 0 raggedRows.1
      ⟨{}, { scope := ⟨0⟩ }⟩ = .ok x' s' := ⟨_, _, rfl⟩
  have hflat : ∃ x' s', initializer ⟨.int32, [2, 3]⟩ 0 raggedRows.2
      ⟨{}, { scope := ⟨0⟩ }⟩ = .ok x' s' := ⟨_, _, rfl⟩
  exact ⟨hnested, hflat, (initializer_passes_iff _ _ _).2 hdims hnested,
    (initializer_passes_iff _ _ _).2 hdims hflat⟩

end Typing

end CactLang
