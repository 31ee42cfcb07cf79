import CactLang.Proofs.Pointing
import CactLang.Proofs.Rejected.Return
import CactLang.Proofs.SoundTypes
import CactLang.Proofs.TypeText

/-!
# A mismatch is between two types

A diagnostic about a mismatch has the texts of two types, the one that is asked for and the one
that is there. Types are told apart by their texts, so the texts differ where the types do.

> `typeCheck_names_two_types`: the two texts differ, but for a `return` of a call that gives
> nothing, in a function that gives nothing. There it is the value itself that is out of place,
> and both texts are `void`.
-/

namespace CactLang

/-- The texts of the type that is asked for and of the one that is there, if the cause is a
mismatch of the two. -/
def Cause.types? : Cause → Option (String × String)
  | .typeMismatch expected received => some (expected, received)
  | .argumentMismatch _ _ expected received => some (expected, received)
  | .returnMismatch expected received => some (expected, received)
  | _ => none

/-- The expression is a call of a function that gives nothing, in parentheses or not. -/
def Expr.CallsVoid (r : Registry) (e : Expr) : Prop :=
  ∃ callee arguments function f g, e.core.kind = .call callee arguments function ∧
    r.findFunction? callee = some f ∧ r.function? f = some g ∧ g.returns = .scalar .void

/-- The diagnostic is about a `return` in a `void` function of the program, and its value is a
call of a `void` function. -/
def Diagnostic.AtVoidReturn (d : Diagnostic) (p : Program) (r : Registry) : Prop :=
  ∃ f t value function, .func f ∈ p.items ∧ f.returns = .void ∧ .stmt t ∈ f.body.nodes ∧
    t.kind = .ret (some value) function ∧ value.CallsVoid r ∧ d.node = some value.id

/-- Nodes of two functions are told apart by their identities. -/
theorem Program.func_unique {p : Program} (hnodup : (p.nodes.map Node.id).Nodup)
    {f g : FuncDef} (hf : .func f ∈ p.items) (hg : .func g ∈ p.items) {m n : Node}
    (hm : m ∈ f.body.nodes) (hn : n ∈ g.body.nodes) (hid : m.id = n.id) : f = g ∧ m = n := by
  have hbody : ∀ {h : FuncDef} {x : Node}, x ∈ h.body.nodes → x ∈ (Item.func h).nodes :=
    fun hx => List.mem_append_right _ (List.mem_append_left _ hx)
  have hsame : m = n := List.inj_on_of_nodup_map hnodup
    (List.mem_flatMap.mpr ⟨_, hf, hbody hm⟩) (List.mem_flatMap.mpr ⟨_, hg, hbody hn⟩) hid
  refine ⟨?_, hsame⟩
  by_contra hne
  have hapart := (List.nodup_flatMap.mp hnodup.of_map).2
  have : Std.Symm (Function.onFun List.Disjoint Item.nodes) := ⟨fun _ _ h => h.symm⟩
  have hdisjoint := hapart.forall hf hg fun heq => hne (Item.func.inj heq)
  exact hdisjoint (hbody hm) (hsame ▸ hbody hn)

namespace Typing

/-! ## Values of type `void` -/

/-- Only a call has no value. -/
theorem checkExpr_void {r : Registry} {scope : ScopeId} (hr : r.Sound) :
    ∀ {e e' : Expr} {negated : Bool} {i : ExprInfo}, e.isWellFormed = true →
      checkExpr r scope negated e = .ok (e', i) → i.ty.basic = .void →
      i.ty = .scalar .void ∧ e.CallsVoid r
  | ⟨_, .number _ kind, _, _⟩, _, _, _, _, h, hvoid => by
    obtain ⟨_, rfl, _⟩ := checkExpr_number_ok.mp h
    cases kind <;> cases hvoid
  | ⟨_, .bool _, _, _⟩, _, _, _, _, h, hvoid => by
    obtain ⟨rfl, _⟩ := checkExpr_bool_ok.mp h
    cases hvoid
  | ⟨_, .lvalue ⟨_, _, _, _, _, _⟩, _, _⟩, _, _, _, _, h, hvoid => by
    obtain ⟨_, _, hl, rfl, _⟩ := checkExpr_lvalue_ok.mp h
    obtain ⟨_, _, _, _, hy, _, _, _, rfl⟩ := checkLValue_ok.mp hl
    exact absurd hvoid (hr.symbol hy)
  | ⟨_, .paren inner, _, _⟩, _, _, _, hwf, h, hvoid => by
    obtain ⟨_, _, hinner, rfl, _⟩ := checkExpr_paren_ok.mp h
    rw [Expr.isWellFormed] at hwf
    rw [Expr.CallsVoid, Expr.core]
    obtain ⟨hty, hcall⟩ := checkExpr_void hr hwf hinner hvoid
    exact ⟨hty, hcall⟩
  | ⟨_, .unary op _, _, _⟩, _, _, _, hwf, h, hvoid => by
    obtain ⟨_, _, _, htakes, rfl, _⟩ := checkExpr_unary_ok.mp h
    -- the operator is one that can be written, and these ask for a single value
    simp only [Expr.isWellFormed, Bool.and_eq_true] at hwf
    have hoperand := Operator.isOperand_of_takes hwf.1.1 htakes
    obtain ⟨_, hb, hty⟩ := isOperand_iff.mp (op.isOperand_resultType hoperand)
    exact absurd (hvoid.symm.trans (congrArg Ty.basic hty)).symm hb
  | ⟨_, .binary op _ _, _, _⟩, _, _, _, _, h, hvoid => by
    obtain ⟨_, _, _, _, _, _, hoperand, _, _, rfl, _⟩ := checkExpr_binary_ok.mp h
    obtain ⟨_, hb, hty⟩ := isOperand_iff.mp (op.isOperand_resultType hoperand)
    exact absurd (hvoid.symm.trans (congrArg Ty.basic hty)).symm hb
  | ⟨_, .call callee arguments function, _, _⟩, _, _, _, _, h, hvoid => by
    obtain ⟨f, g, _, hf, hg, _, _, rfl, _⟩ := checkExpr_call_ok.mp h
    have hreturns : g.returns = .scalar .void := congrArg₂ Ty.mk hvoid (hr.returns hg)
    exact ⟨hreturns, callee, arguments, function, f, g, rfl, hf, hg, hreturns⟩

/-- A call that gives nothing is of type `void`. -/
theorem checkExpr_callsVoid {r : Registry} {scope : ScopeId} :
    ∀ {e e' : Expr} {negated : Bool} {i : ExprInfo}, checkExpr r scope negated e = .ok (e', i) →
      e.CallsVoid r → i.ty = .scalar .void
  | ⟨_, .paren inner, _, _⟩, _, _, _, h, hcalls => by
    obtain ⟨_, _, hinner, rfl, _⟩ := checkExpr_paren_ok.mp h
    rw [Expr.CallsVoid, Expr.core] at hcalls
    have hty := checkExpr_callsVoid hinner hcalls
    exact hty
  | ⟨_, .call callee _ _, _, _⟩, _, _, _, h, ⟨_, _, _, f, g, hkind, hf, hg, hreturns⟩ => by
    obtain ⟨f', g', _, hf', hg', _, _, rfl, _⟩ := checkExpr_call_ok.mp h
    cases hkind
    obtain rfl := Option.some.inj (hf.symm.trans hf')
    obtain rfl := Option.some.inj (hg.symm.trans hg')
    exact hreturns
  | ⟨_, .number _ _, _, _⟩, _, _, _, _, ⟨_, _, _, _, _, hkind, _⟩ => by cases hkind
  | ⟨_, .bool _, _, _⟩, _, _, _, _, ⟨_, _, _, _, _, hkind, _⟩ => by cases hkind
  | ⟨_, .lvalue _, _, _⟩, _, _, _, _, ⟨_, _, _, _, _, hkind, _⟩ => by cases hkind
  | ⟨_, .unary _ _, _, _⟩, _, _, _, _, ⟨_, _, _, _, _, hkind, _⟩ => by cases hkind
  | ⟨_, .binary _ _ _, _, _⟩, _, _, _, _, ⟨_, _, _, _, _, hkind, _⟩ => by cases hkind

/-! ## Two types -/

theorem accepts_self (t : Ty) : t.accepts t = true := by
  unfold Ty.accepts
  rw [beq_self_eq_true, Bool.true_or]

/-- A node that is blamed for a mismatch is blamed for two types, unless it is returned. -/
theorem Blame.types_ne {r : Registry} {c : Context} {n : Node} {cause : Cause}
    {expected received : String} (h : Blame r c n cause)
    (htypes : cause.types? = some (expected, received)) :
    expected ≠ received ∨ cause = .returnMismatch expected received := by
  cases h with
  | @argument _ _ _ ty ty' haccepts =>
    cases htypes
    -- a type accepts itself, so equal types are not to blame
    refine .inl (Ty.text_ne fun heq => ?_)
    rw [heq, accepts_self] at haccepts
    cases haccepts
  | mismatch hne =>
    cases htypes
    exact .inl (Ty.text_ne hne.symm)
  | returnNothing =>
    cases htypes
    exact .inr rfl
  | returnValue =>
    cases htypes
    exact .inr rfl
  | name hlookup =>
    rcases lookupWithin_error _ _ hlookup with hcause | hcause
    · cases hcause
      cases htypes
    · cases hcause
  | operand hop =>
    obtain ⟨_, rfl⟩ := checkOperand_error hop
    cases htypes
  | operands hop =>
    obtain ⟨_, rfl⟩ := checkOperands_error hop
    cases htypes
  | callee hcallee =>
    cases lookupFunction_error hcallee
    cases htypes
  | _ => cases htypes

theorem Faults.types_ne {r : Registry} {c : Context} {n : Node} {d : Diagnostic}
    {expected received : String} (h : Faults r c n (.diagnostic d))
    (htypes : d.cause.types? = some (expected, received)) :
    expected ≠ received ∨ d.cause = .returnMismatch expected received := by
  cases h with
  | blame hblame => exact hblame.types_ne htypes
  | dimension => cases htypes

/-- A `return` is refused for two types, unless it is for a call that gives nothing. -/
theorem Refused.types_ne {r : Registry} {b : BasicType} {t : Stmt} {d : Diagnostic}
    {expected received : String} (h : Refused r (.scalar b) t d) (hr : r.Sound)
    (hcause : d.cause = .returnMismatch expected received) :
    expected ≠ received ∨ d.cause = .returnMismatch "void" "void" ∧ b = .void ∧
      ∃ value function, t.kind = .ret (some value) function ∧ value.CallsVoid r ∧
        d.node = some value.id := by
  cases h with
  | nothing _ hvoid =>
    cases hcause
    exact .inl (Ty.text_ne (u := .scalar .void) fun heq => hvoid (congrArg Ty.basic heq))
  | @value e _ function _ i hkind hwf hvalue hty =>
    cases hcause
    -- equal types are refused only where both are `void`
    by_cases heq : i.ty = .scalar b
    · obtain rfl : b = .void := by
        by_contra hvoid
        exact hty ⟨hvoid, heq⟩
      obtain ⟨_, hcalls⟩ := checkExpr_void hr hwf hvalue (congrArg Ty.basic heq)
      refine .inr ⟨?_, rfl, e, function, hkind, hcalls, rfl⟩
      rw [heq]
      rfl
    · exact .inl (Ty.text_ne (Ne.symm heq))

/-- At a `return` of a call that gives nothing, in a function that gives nothing, both texts are
`void`. -/
theorem typeCheck_void_of_atVoidReturn {tokens : List Token} {file : String} {p : Program}
    {c : Cursor} {withBuiltins : Bool} {d : Diagnostic} {r : Registry}
    {expected received : String} (hparse : parse tokens file = .ok p c)
    (hcheck : typeCheck withBuiltins p = (.error (.diagnostic d), r))
    (hcause : d.cause = .returnMismatch expected received) (hreturn : d.AtVoidReturn p r) :
    expected = "void" ∧ received = "void" := by
  have hp : p.isWellFormed = true := (parse_ok hparse).1.1
  have hnodup : (p.nodes.map Node.id).Nodup := (List.nodup_cons.mp (parse_nodup hparse)).2
  have hvalue : ∀ {f : FuncDef} {t : Stmt} {e : Expr} {function : Option FunctionId},
      .stmt t ∈ f.body.nodes → t.kind = .ret (some e) function → .expr e ∈ f.body.nodes := by
    intro f t e function ht hkind
    obtain ⟨id, kind, span, hasReturn⟩ := t
    obtain rfl := hkind
    refine f.body.nodes_subset ht ?_
    rw [Stmt.nodes, StmtKind.nodes]
    exact List.mem_append_left _ e.mem_nodes
  obtain ⟨f, t, value, function, hf, hvoid, ht, hkind, hcalls, hnode⟩ := hreturn
  obtain ⟨g, u, hg, hu, hrefused⟩ := typeCheck_refused hp hcheck hcause
  cases hrefused with
  | nothing _ _ =>
    -- the node that is blamed is an expression, and no statement
    obtain ⟨_, hsame⟩ := Program.func_unique hnodup hf hg (hvalue ht hkind) hu
      (Option.some.inj hnode).symm
    cases hsame
  | value hkind' _ hchecked _ =>
    obtain ⟨rfl, hsame⟩ := Program.func_unique hnodup hf hg (hvalue ht hkind) (hvalue hu hkind')
      (Option.some.inj hnode).symm
    cases hsame
    cases hcause
    rw [hvoid, checkExpr_callsVoid hchecked hcalls]
    exact ⟨rfl, rfl⟩

/-- **A mismatch names two types.** If checking a program that is read fails for a mismatch, the
type that is asked for and the one that is there have different texts. The one exception is a
`return` in a `void` function whose value is a call of a `void` function, in parentheses or not:
if that is what the return is refused for, both are `void`. -/
theorem typeCheck_names_two_types {tokens : List Token} {file : String} {p : Program} {c : Cursor}
    {withBuiltins : Bool} {d : Diagnostic} {r : Registry} {expected received : String}
    (hparse : parse tokens file = .ok p c)
    (hcheck : typeCheck withBuiltins p = (.error (.diagnostic d), r))
    (htypes : d.cause.types? = some (expected, received)) :
    (expected ≠ received ∨ d.cause = .returnMismatch "void" "void" ∧ d.AtVoidReturn p r) ∧
      (d.cause = .returnMismatch expected received → d.AtVoidReturn p r →
        expected = "void" ∧ received = "void") := by
  refine ⟨?_, typeCheck_void_of_atVoidReturn hparse hcheck⟩
  have hp : p.isWellFormed = true := (parse_ok hparse).1.1
  have hr : r.Sound := by
    have hfrom := typeCheck_from withBuiltins p
    rw [hcheck] at hfrom
    exact hfrom.sound hp
  obtain ⟨⟨_, n⟩, _, s, _, hfault⟩ := typeCheck_faults hcheck
  rcases hfault.types_ne htypes with hne | hcause
  · exact .inl hne
  · obtain ⟨f, t, hf, ht, hrefused⟩ := typeCheck_refused hp hcheck hcause
    rcases hrefused.types_ne hr hcause with hne | ⟨hvoid, hreturns, value, function, hvalue⟩
    · exact .inl hne
    · exact .inr ⟨hvoid, f, t, value, function, hf, hreturns, ht, hvalue⟩

/-- A matrix is passed whose rows are too long:

```
void f(int a[][2]) { }
int m[3][3];
void main() { f(m); }
```
-/
def longRowsSource : String :=
  "void f(int a[][2]) \x7b \x7d int m[3][3]; void main() \x7b f(m); \x7d"

/-- A `void` function is called for the value that a `void` function returns:

```
void f() { }
void g() { return (f()); }
```
-/
def voidReturnSource : String :=
  "void f() \x7b \x7d void g() \x7b return (f()); \x7d"

/-- Here both of the types are `void`. -/
theorem typeCheck_names_void_twice :
    ∃ tokens p c d r, parse tokens "shell" = .ok p c ∧
      typeCheck true p = (.error (.diagnostic d), r) ∧ d.cause.types? = some ("void", "void") := by
  have hrejected : sourceCause? true voidReturnSource = some (.returnMismatch "void" "void") := by
    decide +kernel
  obtain ⟨p, d, r, hp, hcheck, hcause⟩ := typeCheck_of_sourceCause? true voidReturnSource hrejected
  obtain ⟨tokens, c, hparse⟩ := parse_of_readSource? hp
  exact ⟨tokens, p, c, d, r, hparse, hcheck, by rw [hcause]; rfl⟩

theorem typeCheck_names_two_types_sources :
    (∃ p d r, readSource? longRowsSource = some p ∧
      typeCheck true p = (.error (.diagnostic d), r) ∧
      d.cause = .argumentMismatch "f" 0 "int32[][2]" "int32[3][3]" ∧
      ("int32[][2]" ≠ "int32[3][3]" ∨
        d.cause = .returnMismatch "void" "void" ∧ d.AtVoidReturn p r)) ∧
    ∃ p d r, readSource? voidReturnSource = some p ∧
      typeCheck true p = (.error (.diagnostic d), r) ∧ d.cause = .returnMismatch "void" "void" ∧
      d.AtVoidReturn p r := by
  have hsource : ∀ source cause expected received, sourceCause? true source = some cause →
      cause.types? = some (expected, received) →
      ∃ p d r, readSource? source = some p ∧ typeCheck true p = (.error (.diagnostic d), r) ∧
        d.cause = cause ∧ (expected ≠ received ∨
          d.cause = .returnMismatch "void" "void" ∧ d.AtVoidReturn p r) := by
    intro source cause expected received hrejected htypes
    obtain ⟨p, d, r, hp, hcheck, rfl⟩ := typeCheck_of_sourceCause? true source hrejected
    obtain ⟨tokens, c, hparse⟩ := parse_of_readSource? hp
    exact ⟨p, d, r, hp, hcheck, rfl, (typeCheck_names_two_types hparse hcheck htypes).1⟩
  refine ⟨hsource longRowsSource _ _ _ (by decide +kernel) rfl, ?_⟩
  obtain ⟨p, d, r, hp, hcheck, _, hne | ⟨hcause, hreturn⟩⟩ :=
    hsource voidReturnSource (.returnMismatch "void" "void") "void" "void" (by decide +kernel) rfl
  · exact absurd rfl hne
  · exact ⟨p, d, r, hp, hcheck, hcause, hreturn⟩

end Typing

end CactLang
