import CactLang.Proofs.RegistryRuns
import CactLang.Proofs.Rejected.Statement
import CactLang.Proofs.Written

/-!
# Which `return` a program is rejected for

A `return` is checked against the function around it, which is a matter of where it stands.
If a program is rejected for what is returned, that is read off the run: the statement is in
the body of some definition, and it was checked against the type of that definition.

> `typeCheck_refused`: a program that is rejected for what is returned has a `return` that is
> refused, in a function that gives the expected type.

`Ends P m Q E` says how a check passes and how it fails, and is closed under the ways in which
checks are put together. What only reads or declares fails for other things (`Apart`).
-/

namespace CactLang.Typing

/-! ## How checks end -/

/-- The check passed as `Q` says, or failed as `E` says, given the registry that it left. -/
def EndsIn {α : Type} (Q : α → State → Prop) (E : Failure → Registry → Prop) :
    EStateM.Result Failure State α → Prop
  | .ok a s => Q a s
  | .error failure s => E failure s.registry

/-- From every state of `P`, the check passes as `Q` says or fails as `E` says. -/
def Ends {α : Type} (P : State → Prop) (m : Check α) (Q : α → State → Prop)
    (E : Failure → Registry → Prop) : Prop :=
  ∀ s, P s → EndsIn Q E (m s)

namespace Ends

variable {α β : Type} {P P' : State → Prop} {Q Q' : α → State → Prop} {R : β → State → Prop}
  {E E' : Failure → Registry → Prop}

/-- What is said of a failure may be weakened. -/
theorem mono {m : Check α} (h : Ends P m Q E) (hE : ∀ failure r, E failure r → E' failure r) :
    Ends P m Q E' := by
  intro s hs
  have hend := h s hs
  cases hm : m s with
  | ok a s' =>
    rw [hm] at hend
    exact hend
  | error failure s' =>
    rw [hm] at hend
    exact hE _ _ hend

theorem pure {a : α} : Ends P (Pure.pure a) (fun _ => P) E :=
  fun _ hs => hs

/-- The second check starts from where the first one passes. -/
theorem bind {x : Check β} {f : β → Check α} (hx : Ends P x R E)
    (hf : ∀ b, Ends (R b) (f b) Q E) : Ends P (x >>= f) Q E := by
  intro s hs
  have hend := hx s hs
  simp only [Bind.bind, EStateM.bind]
  cases hxs : x s with
  | ok b s₁ =>
    rw [hxs] at hend
    exact hf b s₁ hend
  | error failure s₁ =>
    rw [hxs] at hend
    exact hend

theorem map {x : Check β} {f : β → α} (hx : Ends P x (fun b => Q (f b)) E) :
    Ends P (f <$> x) Q E := by
  intro s hs
  have hend := hx s hs
  simp only [Functor.map, EStateM.map]
  cases hxs : x s with
  | ok b s₁ =>
    rw [hxs] at hend
    exact hend
  | error failure s₁ =>
    rw [hxs] at hend
    exact hend

/-- A look ends as the registry says, and leaves it as it is. -/
theorem look {f : Registry → Context → Except Failure α}
    (hok : ∀ s a, P s → f s.registry s.context = .ok a → Q a s)
    (hfail : ∀ s failure, P s → f s.registry s.context = .error failure → E failure s.registry) :
    Ends P (Check.look f) Q E := by
  intro s hs
  unfold Check.look
  cases h : f s.registry s.context with
  | ok a => exact hok s a hs h
  | error failure => exact hfail s failure hs h

/-- A declaration passes with the new registry or fails with the old one. -/
theorem declare {f : Registry → Context → Except Failure (α × Registry)}
    (hok : ∀ s a r, P s → f s.registry s.context = .ok (a, r) → Q a ⟨r, s.context⟩)
    (hfail : ∀ s failure, P s → f s.registry s.context = .error failure → E failure s.registry) :
    Ends P (Check.declare f) Q E := by
  intro s hs
  unfold Check.declare
  cases h : f s.registry s.context with
  | ok x => exact hok s x.1 x.2 hs h
  | error failure => exact hfail s failure hs h

/-- A part is entered and left in another context. Its failures are those of the whole. -/
theorem within {enter : Context → Context} {leave : Context → Context → Context} {part : Check α}
    (hpart : Ends P' part Q' E) (henter : ∀ s, P s → P' ⟨s.registry, enter s.context⟩)
    (hleave : ∀ s a s', P s → Q' a s' → Q a ⟨s'.registry, leave s.context s'.context⟩) :
    Ends P (Check.within enter leave part) Q E := by
  intro s hs
  have hend := hpart _ (henter s hs)
  unfold Check.within
  cases h : part ⟨s.registry, enter s.context⟩ with
  | ok a s' =>
    rw [h] at hend
    exact hleave s a s' hs hend
  | error failure s' =>
    rw [h] at hend
    exact hend

end Ends

/-- The property is only about the functions that are declared and the one being checked. -/
def Steady (I : State → Prop) : Prop :=
  ∀ {s s' : State}, I s → s'.registry.functions = s.registry.functions →
    s'.context.function = s.context.function → I s'

section

variable {α : Type} {I : State → Prop} {E : Failure → Registry → Prop}

/-- A new scope does not change what is said about functions. -/
theorem Ends.inScope {part : Check α} (hI : Steady I) (hpart : Ends I part (fun _ => I) E) :
    Ends I (Check.inScope part) (fun _ => I) E := by
  unfold Check.inScope
  have hwithin (scope : ScopeId) : Ends I (Check.within ({ · with scope })
      (fun before after => { after with scope := before.scope }) part) (fun _ => I) E := by
    refine .within hpart (fun s hs => ?_) fun s a s' _ hs' => ?_
    · exact hI hs rfl rfl
    · exact hI hs' rfl rfl
  refine .bind (R := fun _ => I) (.declare (fun s a r hs hr => ?_) fun s failure _ h => ?_)
    fun scope => .bind (hwithin scope) fun _ => .pure
  · cases hr
    exact hI hs rfl rfl
  · cases h

/-- A loop does not change what is said about functions. -/
theorem Ends.inLoop {loop : NodeId} {part : Check α} (hI : Steady I)
    (hpart : Ends I part (fun _ => I) E) : Ends I (Check.inLoop loop part) (fun _ => I) E := by
  refine .within hpart (fun s hs => ?_) fun s a s' _ hs' => ?_
  · exact hI hs rfl rfl
  · exact hI hs' rfl rfl

end

/-! ## Failures about other things -/

/-- The failure is about a `return`. -/
def Failure.IsReturn : Failure → Prop
  | .diagnostic d => ∃ expected received, d.cause = .returnMismatch expected received
  | .dangling => False

/-- Outside of functions no node is blamed for what is returned. -/
theorem Blame.ne_returnMismatch {r : Registry} {c : Context} {n : Node} {cause : Cause}
    (h : Blame r c n cause) (hc : c.function = none) (expected received : String) :
    cause ≠ .returnMismatch expected received := by
  rintro rfl
  cases h with
  | name hlookup => exact absurd (lookupWithin_error _ _ hlookup) (by simp)
  | operand hop => exact absurd (checkOperand_error hop) (by simp)
  | operands hop => exact absurd (checkOperands_error hop) (by simp)
  | callee hcallee => exact absurd (lookupFunction_error hcallee) (by simp)
  | returnNothing hf _ => exact absurd (hc.symm.trans hf) (by simp)
  | returnValue hf _ => exact absurd (hc.symm.trans hf) (by simp)

/-- Outside of functions no node is at fault for what is returned. -/
theorem Faults.not_isReturn {r : Registry} {scope : ScopeId} {n : Node} {failure : Failure}
    (h : Faults r { scope } n failure) : ¬failure.IsReturn := by
  cases h with
  | blame hblame =>
    rintro ⟨expected, received, hcause⟩
    exact hblame.ne_returnMismatch rfl expected received hcause
  | dimension =>
    rintro ⟨_, _, hcause⟩
    cases hcause
  | dangling => exact id

theorem FaultIn.not_isReturn {r : Registry} {scope : ScopeId} {ns : List Node}
    {failure : Failure} (h : FaultIn r { scope } ns failure) : ¬failure.IsReturn := by
  obtain ⟨n, _, hn⟩ := h
  exact hn.not_isReturn

/-- Whatever becomes of the check, `I` is kept, and it does not fail for what is returned. -/
def Apart {α : Type} (I : State → Prop) (m : Check α) : Prop :=
  Ends I m (fun _ => I) fun failure _ => ¬failure.IsReturn

section

variable {I : State → Prop}

/-- A look fails for what it asks the registry. -/
theorem look_apart {α : Type} {f : Registry → Context → Except Failure α}
    (h : ∀ r c failure, f r c = .error failure → ¬failure.IsReturn) : Apart I (Check.look f) :=
  .look (fun _ _ hs _ => hs) fun s failure _ => h s.registry s.context failure

/-! Values are checked without a look at the function around them. So what a value fails for in
a function, it would fail for outside of functions too. -/

/-- An expression is never refused for what is returned. -/
theorem checkExpr_not_isReturn {r : Registry} {scope : ScopeId} {e : Expr} {failure : Failure}
    (h : checkExpr r scope false e = .error failure) : ¬failure.IsReturn :=
  (checkExpr_faults (c := { scope }) h).not_isReturn

theorem expr_apart (e : Expr) : Apart I (expr e) :=
  look_apart fun _ _ _ => checkExpr_not_isReturn

theorem lvalue_apart (l : LValue) : Apart I (lvalue l) :=
  look_apart fun _ c _ h => (checkLValue_faults (c := { scope := c.scope }) h).not_isReturn

theorem initializer_apart (target : Ty) (depth : Nat) (x : Initializer) :
    Apart I (initializer target depth x) :=
  look_apart fun _ c _ h => (checkInitializer_faults (c := { scope := c.scope }) h).not_isReturn

/-- A refusal is about a `return` only if its cause is. -/
theorem refuse_apart {α : Type} {cause : Cause} {id : NodeId} {span : Span}
    (hcause : ∀ expected received, cause ≠ .returnMismatch expected received) :
    Apart I (refuse cause id span : Check α) := by
  refine look_apart fun r c failure h => ?_
  rw [reject_error.mp h]
  rintro ⟨expected, received, h⟩
  exact hcause expected received h

/-- A condition is refused for its type. -/
theorem condition_apart (e : Expr) : Apart I (condition e) := by
  refine .bind (expr_apart e) fun x => ?_
  obtain ⟨e', info⟩ := x
  dsimp only
  split
  · exact .pure
  · exact refuse_apart (by simp)

/-- An assignment is refused for its target or its type. -/
theorem assignment_apart (target : LValue) (value : Expr) : Apart I (assignment target value) := by
  refine .bind (lvalue_apart target) fun x => ?_
  obtain ⟨target', ty⟩ := x
  dsimp only
  split
  · exact refuse_apart (by simp)
  · refine .bind (expr_apart value) fun y => ?_
    obtain ⟨value', info⟩ := y
    dsimp only
    split
    · exact .pure
    · exact refuse_apart (by simp)

/-- A jump is refused for the loop that it lacks. -/
theorem innermostLoop_apart (keyword : String) (id : NodeId) (span : Span) :
    Apart I (innermostLoop keyword id span) := by
  refine look_apart fun r c failure h => ?_
  obtain ⟨_, rfl⟩ := innermostLoop_fails (s := ⟨r, c⟩) (Fails.look.mpr h)
  rintro ⟨_, _, hcause⟩
  cases hcause

theorem typeOf_apart (n : Node) (basic : BasicType) (isOpen : Bool) :
    Apart I (.look fun _ _ => typeOf basic n.dims isOpen n.id) :=
  look_apart fun r c _ h => (typeOf_faults (r := r) (c := { scope := c.scope }) h).not_isReturn

/-- A name that cannot be declared is no matter of what is returned. -/
theorem refused_not_isReturn {α : Type} {n : Node} {name : String}
    {x : Except Registry.Refusal α} {failure : Failure} (hn : n.name? = some name)
    (hx : ∀ {refusal}, x = .error refusal → refusal = .cause (.duplicate name) ∨
      refusal = .dangling)
    (h : locateRefusal n.id n.span x = .error failure) : ¬failure.IsReturn :=
  (refused_faults (r := {}) (c := { scope := ⟨0⟩ }) hn hx h).not_isReturn

/-- A name is refused for being taken. -/
theorem bindName_apart (hI : Steady I) {n : Node} {name : String} (hn : n.name? = some name)
    (y : Symbol) : Apart I (bindName n.id n.span name y) := by
  refine .declare (fun s v r hs h => ?_) fun _ _ _ h => refused_not_isReturn hn register_error h
  obtain ⟨_, _, _, _, _, rfl⟩ := Registry.register_ok.mp (locateRefusal_ok.mp h)
  exact hI hs rfl rfl

/-- A definition is refused for its type, its initial value or its name. -/
theorem varDef_apart (hI : Steady I) (isConstant : Bool) (basic : BasicType) (d : VarDef) :
    Apart I (varDef isConstant basic d) := by
  unfold varDef
  refine .bind (typeOf_apart (.varDef d) basic false) fun ty => ?_
  have hname : ∀ init, Apart I (do
      let symbol ← bindName d.id d.span d.name (declaredSymbol isConstant d ty)
      return ({ d with init, symbol := some symbol } : VarDef)) := by
    intro init
    exact .bind (bindName_apart hI (n := .varDef d) rfl _) fun _ => .pure
  dsimp only
  cases d.init with
  | none => exact .bind .pure hname
  | some init => exact .bind (R := fun _ => I) (.map (initializer_apart ty 0 init)) hname

theorem varDefs_apart (hI : Steady I) (isConstant : Bool) (basic : BasicType) :
    ∀ ds : List VarDef, Apart I (varDefs isConstant basic ds)
  | [] => .pure
  | d :: ds => by
    refine .bind (varDef_apart hI isConstant basic d) fun x => ?_
    exact .bind (varDefs_apart hI isConstant basic ds) fun xs => .pure

theorem decl_apart (hI : Steady I) (d : Decl) : Apart I (decl d) :=
  .bind (varDefs_apart hI d.isConstant d.basic d.defs) fun _ => .pure

end

/-! ## Refused returns -/

/-- The statement is a `return` that is refused with the diagnostic, in a function that gives
the type. -/
inductive Refused (r : Registry) (ty : Ty) (t : Stmt) : Diagnostic → Prop where
  | nothing {function : Option FunctionId} : t.kind = .ret none function → ty.basic ≠ .void →
      Refused r ty t (.ofNode (.returnMismatch ty.text "void") t.id t.span)
  | value {e e' : Expr} {function : Option FunctionId} {scope : ScopeId} {i : ExprInfo} :
      t.kind = .ret (some e) function → e.isWellFormed = true →
      checkExpr r scope false e = .ok (e', i) → ¬(ty.basic ≠ .void ∧ i.ty = ty) →
      Refused r ty t (.ofNode (.returnMismatch ty.text i.ty.text) e.id e.span)

/-- If the failure is about a `return`, one of the nodes is that `return`. -/
def RefusedIn (ty : Ty) (ns : List Node) (failure : Failure) (r : Registry) : Prop :=
  failure.IsReturn → ∃ t d, .stmt t ∈ ns ∧ failure = .diagnostic d ∧ Refused r ty t d

/-- The function that is being checked gives the type. -/
def State.Gives (ty : Ty) (s : State) : Prop :=
  ∃ f g, s.context.function = some f ∧ s.registry.function? f = some g ∧ g.returns = ty

/-- What the function around a statement gives is a matter of the functions that are declared. -/
theorem State.Gives.steady (ty : Ty) : Steady (State.Gives ty) := by
  rintro s s' ⟨f, g, hf, hg, hty⟩ hfunctions hfunction
  refine ⟨f, g, hfunction.trans hf, ?_, hty⟩
  rw [Registry.function?, hfunctions]
  exact hg

section

variable {α : Type} {ty : Ty}

/-- In a function of the type, the check passes, or fails for a `return` among the nodes or for
something else. -/
def Returns (ty : Ty) (m : Check α) (ns : List Node) : Prop :=
  Ends (State.Gives ty) m (fun _ => State.Gives ty) (RefusedIn ty ns)

theorem Apart.returns {m : Check α} {ns : List Node} (h : Apart (State.Gives ty) m) :
    Returns ty m ns :=
  Ends.mono h fun _ _ hnot hreturn => absurd hreturn hnot

/-- The statement to blame is among more nodes too. -/
theorem Returns.subset {m : Check α} {ns ms : List Node} (h : Returns ty m ns) (hns : ns ⊆ ms) :
    Returns ty m ms := by
  refine Ends.mono h fun failure r hrefused hreturn => ?_
  obtain ⟨t, d, ht, hd⟩ := hrefused hreturn
  exact ⟨t, d, hns ht, hd⟩

end

section

variable {ty : Ty}

/-- In a function, the one around is found, and with it the type. -/
theorem enclosingFunction_returns (id : NodeId) (span : Span) {ns : List Node} :
    Ends (State.Gives ty) (enclosingFunction id span) (fun found s => found.2 = ty ∧ s.Gives ty)
      (RefusedIn ty ns) := by
  rintro s ⟨f, g, hf, hg, rfl⟩
  rw [enclosingFunction_ok.mpr ⟨g, hf, hg, rfl, rfl⟩]
  exact ⟨rfl, f, g, hf, hg, rfl⟩

/-- A `return` that is refused for what it returns is the statement to blame. -/
theorem returning_returns {t : Stmt} {value : Option Expr} {function : Option FunctionId}
    (ht : t.kind = .ret value function) (hwf : ∀ e, value = some e → e.isWellFormed = true) :
    Returns ty (returning t.id t.span value) [.stmt t] := by
  unfold returning
  refine .bind (enclosingFunction_returns t.id t.span) fun found => ?_
  obtain ⟨f, expected⟩ := found
  cases value with
  | none =>
    rintro s ⟨rfl, hs⟩
    dsimp only
    split
    next => exact hs
    next hvoid => exact fun _ => ⟨t, _, List.mem_cons_self, rfl, .nothing ht hvoid⟩
  | some e =>
    -- the registry that the value was checked in is the one that is left
    refine .bind (R := fun x s => (expected = ty ∧ s.Gives ty) ∧
        checkExpr s.registry s.context.scope false e = .ok x)
      (.look (fun _ _ hs h => ⟨hs, h⟩) fun _ _ _ h hreturn =>
        absurd hreturn (checkExpr_not_isReturn h)) fun x => ?_
    obtain ⟨e', info⟩ := x
    rintro s ⟨⟨rfl, hs⟩, hvalue⟩
    dsimp only
    split
    next => exact hs
    next hty =>
      exact fun _ => ⟨t, _, List.mem_cons_self, rfl, .value ht (hwf e rfl) hvalue hty⟩

mutual

/-- The `return` to blame is inside the statement, by recursion on the tree. -/
theorem stmt_returns : ∀ t : Stmt, t.isWellFormed = true → Returns ty (stmt t) t.nodes
  | ⟨id, .assign target value, span, hasReturn⟩, _ => by
    rw [stmt]
    exact .bind (assignment_apart target value).returns fun _ => .pure
  | ⟨id, .expr none, span, hasReturn⟩, _ => by
    rw [stmt]
    exact .pure
  | ⟨id, .expr (some value), span, hasReturn⟩, _ => by
    rw [stmt]
    exact .bind (expr_apart value).returns fun _ => .pure
  | ⟨id, .block b, span, hasReturn⟩, hwf => by
    rw [Stmt.isWellFormed] at hwf
    rw [stmt, Stmt.nodes, StmtKind.nodes]
    exact .bind ((block_returns b hwf).subset (List.subset_append_left _ _)) fun _ => .pure
  | ⟨id, .cond test thenBranch none, span, hasReturn⟩, hwf => by
    rw [Stmt.isWellFormed, Bool.and_eq_true] at hwf
    rw [stmt, Stmt.nodes, StmtKind.nodes]
    refine .bind (condition_apart test).returns fun test' => ?_
    exact .bind ((stmt_returns thenBranch hwf.2).subset (by simp)) fun _ => .pure
  | ⟨id, .cond test thenBranch (some elseBranch), span, hasReturn⟩, hwf => by
    simp only [Stmt.isWellFormed, Bool.and_eq_true] at hwf
    rw [stmt, Stmt.nodes, StmtKind.nodes]
    have helse : elseBranch.nodes ⊆ test.nodes ++ (thenBranch.nodes ++ elseBranch.nodes) :=
      List.subset_append_of_subset_right _ (List.subset_append_right _ _)
    refine .bind (condition_apart test).returns fun test' => ?_
    refine .bind ((stmt_returns thenBranch hwf.1.2).subset (by simp)) fun thenBranch' => ?_
    refine .bind ((stmt_returns elseBranch hwf.2).subset ?_) fun elseBranch' => .pure
    exact List.subset_append_of_subset_left _ helse
  | ⟨id, .loop test body, span, hasReturn⟩, hwf => by
    rw [Stmt.isWellFormed, Bool.and_eq_true] at hwf
    rw [stmt, Stmt.nodes, StmtKind.nodes]
    refine .bind (condition_apart test).returns fun test' => ?_
    -- the loop is added to the context, which does not change the function around it
    exact .bind (.inLoop (.steady ty) ((stmt_returns body hwf.2).subset (by simp))) fun _ => .pure
  | ⟨id, .leave _, span, hasReturn⟩, _ => by
    rw [stmt]
    exact .bind (innermostLoop_apart _ id span).returns fun _ => .pure
  | ⟨id, .next _, span, hasReturn⟩, _ => by
    rw [stmt]
    exact .bind (innermostLoop_apart _ id span).returns fun _ => .pure
  | ⟨id, .ret value function, span, hasReturn⟩, hwf => by
    rw [stmt, Stmt.nodes]
    -- the one statement that can be refused here is the last of its own nodes
    have hvalue : ∀ e, value = some e → e.isWellFormed = true := by
      rintro e rfl
      rwa [Stmt.isWellFormed] at hwf
    have hreturning : Returns ty (returning id span value)
        [.stmt ⟨id, .ret value function, span, hasReturn⟩] :=
      returning_returns (t := ⟨id, .ret value function, span, hasReturn⟩) rfl hvalue
    exact .bind (hreturning.subset (List.subset_append_right _ _)) fun _ => .pure

theorem block_returns : ∀ b : Block, b.isWellFormed = true → Returns ty (block b) b.nodes
  | ⟨id, items, span, scope, hasReturn⟩, hwf => by
    rw [Block.isWellFormed] at hwf
    rw [block, Block.nodes]
    refine .bind (.inScope (.steady ty) ((blockItems_returns items hwf).subset ?_)) fun _ => .pure
    exact List.subset_append_left _ _

theorem blockItems_returns : ∀ items : List BlockItem, BlockItem.areWellFormed items = true →
    Returns ty (blockItems items) (BlockItem.allNodes items)
  | [], _ => by
    rw [blockItems]
    exact .pure
  | .decl d :: rest, hwf => by
    rw [BlockItem.areWellFormed, Bool.and_eq_true] at hwf
    rw [blockItems, BlockItem.allNodes]
    refine .bind (decl_apart (.steady ty) d).returns fun d' => ?_
    refine .bind ((blockItems_returns rest hwf.2).subset ?_) fun rest' => .pure
    exact List.subset_append_right _ _
  | .stmt t :: rest, hwf => by
    rw [BlockItem.areWellFormed, Bool.and_eq_true] at hwf
    rw [blockItems, BlockItem.allNodes]
    refine .bind ((stmt_returns t hwf.1).subset (List.subset_append_left _ _)) fun t' => ?_
    refine .bind ((blockItems_returns rest hwf.2).subset ?_) fun rest' => .pure
    exact List.subset_append_right _ _

end

/-! ## Functions and programs -/

/-- A function gives what it gave before it had one more parameter. -/
theorem State.Gives.addParameter {s : State} {r : Registry} {function : FunctionId}
    {q : Parameter} (hs : s.Gives ty) (h : s.registry.addParameter function q = .ok r) :
    State.Gives ty ⟨r, s.context⟩ := by
  obtain ⟨f, g, hf, hg, rfl⟩ := hs
  obtain ⟨g', hg', rfl⟩ := Registry.addParameter_ok.mp h
  have hlt := (Array.getElem?_eq_some_iff.mp hg').1
  by_cases heq : function = f
  · subst heq
    obtain rfl : g' = g := Option.some.inj (hg'.symm.trans hg)
    exact ⟨function, _, hf, Array.getElem?_setIfInBounds_self_of_lt hlt, rfl⟩
  · refine ⟨f, g, hf, ?_, rfl⟩
    have hne : function.index ≠ f.index := fun he => heq (congrArg FunctionId.mk he)
    exact (Array.getElem?_setIfInBounds_ne hne).trans hg

/-- A parameter changes the parameters of its function, not what it gives. -/
theorem param_apart (function : FunctionId) (q : Param) :
    Apart (State.Gives ty) (param function q) := by
  unfold param
  refine .bind (typeOf_apart (.param q) q.basic q.isOpen) fun paramTy => ?_
  refine .bind (R := fun _ => State.Gives ty)
    (.declare (fun s _ r hs h => ?_) fun s failure _ h => ?_) fun _ => ?_
  · exact hs.addParameter (Registry.map_pair_ok.mp (locateRefusal_ok.mp h))
  · exact refused_not_isReturn (n := .param q) rfl
      (fun hrefusal => .inr (addParameter_error hrefusal)) h
  · exact .bind (bindName_apart (.steady ty) (n := .param q) rfl _) fun _ => .pure

theorem params_apart (function : FunctionId) :
    ∀ qs : List Param, Apart (State.Gives ty) (params function qs)
  | [] => .pure
  | q :: qs => by
    refine .bind (param_apart function q) fun x => ?_
    exact .bind (params_apart function qs) fun xs => .pure

end

/-- Nothing is said of the state. -/
def Anywhere (_ : State) : Prop :=
  True

theorem Anywhere.steady : Steady Anywhere :=
  fun hs _ _ => hs

/-- A function that was declared gives what its definition says. -/
theorem declareFunction_ends (f : FuncDef) {ns : List Node} :
    Ends Anywhere (declareFunction f)
      (fun id s => ∃ g, s.registry.function? id = some g ∧ g.returns = .scalar f.returns)
      (RefusedIn (.scalar f.returns) ns) := by
  refine .declare (fun s id r _ h => ?_) fun s failure _ h hreturn => ?_
  · obtain ⟨_, _, rfl, rfl⟩ := Registry.newFunction_ok.mp (locateRefusal_ok.mp h)
    exact ⟨_, Array.getElem?_push_size, rfl⟩
  · exact absurd hreturn (refused_not_isReturn (n := .func f) rfl newFunction_error h)

/-- In a function definition, the `return` to blame is in its body and is held against the type of
the definition. -/
theorem funcDef_ends {f : FuncDef} (hwf : f.isWellFormed = true) :
    Ends Anywhere (funcDef f) (fun _ => Anywhere)
      (RefusedIn (.scalar f.returns) f.body.nodes) := by
  rw [FuncDef.isWellFormed, Bool.and_eq_true] at hwf
  unfold funcDef
  refine .bind (.inScope Anywhere.steady ?_) fun _ => .pure
  refine .bind (declareFunction_ends f) fun function => ?_
  -- from here on the function is there, and its type is that of the definition
  have hparts : Returns (.scalar f.returns) (do
      let ps ← params function f.params
      let body ← block f.body
      return (ps, body)) f.body.nodes := by
    refine .bind (params_apart function f.params).returns fun ps => ?_
    exact .bind (block_returns f.body hwf.2) fun body => .pure
  refine .bind (.within hparts ?_ fun _ _ _ _ _ => trivial) fun _ => .pure
  rintro s ⟨g, hg, hreturns⟩
  exact ⟨function, g, rfl, hg, hreturns⟩

/-- If the failure is about a `return`, the body of one of the functions has it. -/
def RefusedAmong (is : List Item) (failure : Failure) (r : Registry) : Prop :=
  failure.IsReturn → ∃ f t d, .func f ∈ is ∧ .stmt t ∈ f.body.nodes ∧ failure = .diagnostic d ∧
    Refused r (.scalar f.returns) t d

theorem RefusedAmong.cons {i : Item} {is : List Item} {failure : Failure} {r : Registry}
    (h : RefusedAmong is failure r) : RefusedAmong (i :: is) failure r := by
  intro hreturn
  obtain ⟨f, t, d, hf, ht⟩ := h hreturn
  exact ⟨f, t, d, List.mem_cons_of_mem _ hf, ht⟩

/-- In a program, the `return` to blame is in the body of one of its definitions. -/
theorem items_ends : ∀ is : List Item, (∀ i ∈ is, i.isWellFormed = true) →
    Ends Anywhere (items is) (fun _ => Anywhere) (RefusedAmong is)
  | [], _ => .pure
  | .decl d :: rest, hwf => by
    have hrest := items_ends rest (List.forall_mem_cons.mp hwf).2
    refine .bind (.mono (decl_apart Anywhere.steady d) fun failure r hnot hreturn => ?_) fun _ => ?_
    · exact absurd hreturn hnot
    · exact .bind (.mono hrest fun _ _ h => h.cons) fun _ => .pure
  | .func f :: rest, hwf => by
    obtain ⟨hf, hrest⟩ := List.forall_mem_cons.mp hwf
    refine .bind (.mono (funcDef_ends hf) fun failure r h hreturn => ?_) fun _ => ?_
    · obtain ⟨t, d, ht, hd⟩ := h hreturn
      exact ⟨f, t, d, List.mem_cons_self, ht, hd⟩
    · exact .bind (.mono (items_ends rest hrest) fun _ _ h => h.cons) fun _ => .pure

/-- A program that is rejected for what is returned has a `return` that is refused. -/
theorem typeCheck_refused {withBuiltins : Bool} {p : Program} {d : Diagnostic} {r : Registry}
    (hp : p.isWellFormed = true) (hcheck : typeCheck withBuiltins p = (.error (.diagnostic d), r))
    {expected received : String} (hcause : d.cause = .returnMismatch expected received) :
    ∃ f t, .func f ∈ p.items ∧ .stmt t ∈ f.body.nodes ∧ Refused r (.scalar f.returns) t d := by
  obtain ⟨s, hs, rfl⟩ := typeCheck_error.mp hcheck
  have hend := items_ends p.items (List.all_eq_true.mp hp) (start withBuiltins) trivial
  rw [hs] at hend
  obtain ⟨f, t, d', hf, ht, hd, hrefused⟩ := hend ⟨expected, received, hcause⟩
  cases hd
  exact ⟨f, t, hf, ht, hrefused⟩

end CactLang.Typing
