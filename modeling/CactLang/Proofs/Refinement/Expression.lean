import CactLang.Proofs.Erasure
import CactLang.Proofs.View

/-!
# Checked expressions and the typing rules

Checking an expression or an initializer passes just when the typing rules derive it,
in the environment that the registry shows from the current scope.

Each part of the check has two lemmas. One is about a run that passes: the rules
derive both the tree that was checked and the tree that came back, and the second
carries what they derive (`_derives`). The other starts from a derivation and finds
the run (`_accepts`).
-/

namespace CactLang.Typing

open Rules

/-! ## The tables of the rules -/

/-- A good literal is one that denotes a value of its type. -/
theorem isLiteral_iff {kind : NumberKind} {negated : Bool} {text : String} :
    isLiteral kind negated text.toList = true ↔ Denotes negated kind text := by
  cases kind with
  | integer =>
    have hint : isLiteral .integer negated text.toList = true ↔
        ∃ value, Literal.integer? text.toList = some value ∧ value ≤ integerLimit negated := by
      unfold isLiteral
      cases Literal.integer? text.toList <;> simp
    rw [hint]
    constructor
    · intro h
      obtain ⟨value, hvalue, hle⟩ := h
      by_cases hlt : value < 2147483648
      · exact .integer hvalue hlt
      · -- only the limit after a minus sign is left
        cases negated with
        | false =>
          simp only [integerLimit, Bool.false_eq_true, if_false] at hle
          omega
        | true =>
          simp only [integerLimit, if_true] at hle
          obtain rfl : value = 2147483648 := by omega
          exact .lowest hvalue
    · intro h
      cases h with
      | @integer _ _ value hvalue hlt =>
        refine ⟨value, hvalue, ?_⟩
        unfold integerLimit
        split <;> omega
      | lowest hvalue => exact ⟨_, hvalue, by simp [integerLimit]⟩
  | float =>
    constructor
    · intro h
      exact .float h
    · intro h
      cases h with
      | float h => exact h
  | double =>
    constructor
    · intro h
      exact .double h
    · intro h
      cases h with
      | double h => exact h

/-- A dimension has an extent if it denotes one. -/
theorem extent?_iff {dim : Dimension} {n : Nat} : extent? dim = some n ↔ Extends dim n := by
  unfold extent? Extends
  cases Literal.integer? dim.text.toList with
  | none => simp
  | some value =>
    simp only [Option.ite_none_right_eq_some, Option.some.injEq]
    constructor
    · intro h
      obtain ⟨⟨hpos, hlt⟩, rfl⟩ := h
      omega
    · intro h
      obtain ⟨rfl, hpos, hlt⟩ := h
      omega

/-- A type has the extents that its dimensions denote. -/
theorem typeOf_iff {basic : BasicType} {dims : List Dimension} {isOpen : Bool} {id : NodeId}
    {ty : Ty} :
    typeOf basic dims isOpen id = .ok ty ↔
      ∃ extents, List.Forall₂ Extends dims extents ∧
        ty = ⟨basic, if isOpen then 0 :: extents else extents⟩ := by
  rw [typeOf_ok]
  simp only [extent?_iff]

/-- An operator takes an operand and gives a type as the rules say. -/
theorem takes_iff {op : Operator} {t t' : Ty} :
    op.takes t = true ∧ t' = op.resultType t ↔ Applies op t t' := by
  constructor
  · intro h
    obtain ⟨htakes, rfl⟩ := h
    cases op with
    | nop => exact .pass t
    | plus | neg =>
      obtain ⟨hoperand, hnumeric⟩ := Bool.and_eq_true_iff.mp htakes
      obtain ⟨b, _, rfl⟩ := isOperand_iff.mp hoperand
      exact .sign (by decide) hnumeric
    | not =>
      obtain ⟨hoperand, hbool⟩ := Bool.and_eq_true_iff.mp htakes
      obtain ⟨b, _, rfl⟩ := isOperand_iff.mp hoperand
      obtain rfl : b = .bool := by simpa [Ty.scalar] using hbool
      exact .not
    | _ => exact absurd htakes (by simp [Operator.takes])
  · intro h
    cases h with
    | pass t => exact ⟨rfl, rfl⟩
    | @sign _ b hop hb =>
      simp only [List.mem_cons, List.not_mem_nil, or_false] at hop
      have hoperand : (Ty.scalar b).isOperand = true :=
        isOperand_iff.mpr ⟨b, by intro hv; rw [hv] at hb; exact absurd hb (by decide), rfl⟩
      rcases hop with rfl | rfl <;> exact ⟨Bool.and_eq_true_iff.mpr ⟨hoperand, hb⟩, rfl⟩
    | not => decide

/-- An operator joins two operands and gives a type as the rules say. -/
theorem takesPair_iff {op : Operator} {b c : BasicType} :
    b ≠ .void ∧ op.takesPair b = true ∧ Ty.scalar c = op.resultType (.scalar b) ↔
      Joins op b c := by
  have hscalar : ∀ {b c : BasicType}, Ty.scalar c = Ty.scalar b ↔ c = b := by
    simp [Ty.scalar]
  constructor
  · intro h
    obtain ⟨hvoid, htakes, hresult⟩ := h
    cases op with
    | nop =>
      obtain rfl := hscalar.mp hresult
      exact .pass hvoid
    | add | sub | mul | div =>
      obtain rfl := hscalar.mp hresult
      exact .arithmetic (by decide) htakes
    | mod =>
      obtain rfl := hscalar.mp hresult
      obtain rfl : c = .int32 := by simpa [Operator.takesPair] using htakes
      exact .mod
    | less | lessEqual | greater | greaterEqual =>
      obtain rfl := hscalar.mp hresult
      exact .order (by decide) htakes
    | equal | notEqual =>
      obtain rfl := hscalar.mp hresult
      exact .equality (by decide) hvoid
    | and | or =>
      obtain rfl := hscalar.mp hresult
      obtain rfl : b = .bool := by simpa [Operator.takesPair] using htakes
      exact .logic (by decide)
    | plus | neg | not => exact absurd htakes (by simp [Operator.takesPair])
  · intro h
    -- `void` is no number, so the numeric rules need not exclude it
    have hnumeric : ∀ {b : BasicType}, b.isNumeric = true → b ≠ .void := by
      intro b hb hvoid
      rw [hvoid] at hb
      exact absurd hb (by decide)
    cases h with
    | pass hvoid => exact ⟨hvoid, rfl, rfl⟩
    | arithmetic hop hb =>
      simp only [List.mem_cons, List.not_mem_nil, or_false] at hop
      rcases hop with rfl | rfl | rfl | rfl <;> exact ⟨hnumeric hb, hb, rfl⟩
    | mod => decide
    | order hop hb =>
      simp only [List.mem_cons, List.not_mem_nil, or_false] at hop
      rcases hop with rfl | rfl | rfl | rfl <;> exact ⟨hnumeric hb, hb, rfl⟩
    | equality hop hvoid =>
      simp only [List.mem_cons, List.not_mem_nil, or_false] at hop
      rcases hop with rfl | rfl <;> exact ⟨hvoid, rfl, rfl⟩
    | logic hop =>
      simp only [List.mem_cons, List.not_mem_nil, or_false] at hop
      rcases hop with rfl | rfl <;> decide

/-- A parameter takes what the rules say. -/
theorem accepts_iff {parameter argument : Ty} :
    parameter.accepts argument = true ↔ Takes parameter argument := by
  obtain ⟨b, dims⟩ := parameter
  obtain ⟨b', dims'⟩ := argument
  constructor
  · intro h
    -- the same type, or an open one with the same inner dimensions
    rcases Bool.or_eq_true_iff.mp h with heq | hopen
    · obtain ⟨rfl, rfl⟩ := Ty.mk.injEq .. ▸ eq_of_beq heq
      exact .same _
    · dsimp only at hopen
      split at hopen
      next inner extent inner' =>
        obtain ⟨hb, hinner⟩ := Bool.and_eq_true_iff.mp hopen
        obtain rfl := eq_of_beq hb
        obtain rfl := eq_of_beq hinner
        exact .unsized b extent inner
      next => exact absurd hopen (by simp)
  · intro h
    cases h with
    | same => simp [Ty.accepts]
    | unsized => simp [Ty.accepts]

/-! ## Expressions -/

section

variable {r : Registry} {c : ScopeId} {Γ : Env}

/-- A form that is derived with and without notes makes an expression that is, if what
is derived is noted on it. -/
theorem hasType_both {F : Table} {negated : Bool} {e : Expr} {i : ExprInfo} {id : NodeId}
    {kind' : ExprKind} {span : Span} (h : FormHasType Unread F Γ negated e.kind i)
    (h' : FormHasType Noted F Γ negated kind' i) :
    HasType Unread F Γ negated e i ∧ HasType Noted F Γ negated ⟨id, kind', span, some i⟩ i :=
  ⟨.intro h trivial, .intro h' rfl⟩

mutual

/-- An expression that passes is derived, by recursion on the tree. What comes back is derived
with its types noted. -/
theorem checkExpr_derives (hΓ : Sees r c Γ) :
    ∀ {e : Expr} {negated : Bool} {e' : Expr} {i : ExprInfo},
      checkExpr r c negated e = .ok (e', i) →
      HasType Unread (table r) Γ negated e i ∧ HasType Noted (table r) Γ negated e' i
  | ⟨_, .number _ _, _, _⟩, _, _, _, h => by
    obtain ⟨hlit, rfl, rfl⟩ := checkExpr_number_ok.mp h
    have hdenotes := isLiteral_iff.mp hlit
    exact hasType_both (.number hdenotes) (.number hdenotes)
  | ⟨_, .bool _, _, _⟩, _, _, _, h => by
    obtain ⟨rfl, rfl⟩ := checkExpr_bool_ok.mp h
    exact hasType_both .bool .bool
  | ⟨_, .lvalue _, _, _⟩, _, _, _, h => by
    obtain ⟨l', ty, hl, rfl, rfl⟩ := checkExpr_lvalue_ok.mp h
    obtain ⟨x, hx, hx', hassign⟩ := checkLValue_derives hΓ hl
    rw [hassign]
    exact hasType_both (.lvalue hx) (.lvalue hx')
  | ⟨_, .paren _, _, _⟩, _, _, _, h => by
    obtain ⟨inner', i, hinner, rfl, rfl⟩ := checkExpr_paren_ok.mp h
    obtain ⟨hi, hi'⟩ := checkExpr_derives hΓ hinner
    exact hasType_both (.paren hi) (.paren hi')
  | ⟨_, .unary _ _, _, _⟩, _, _, _, h => by
    obtain ⟨operand', i, hoperand, htakes, rfl, rfl⟩ := checkExpr_unary_ok.mp h
    obtain ⟨hi, hi'⟩ := checkExpr_derives hΓ hoperand
    have happlies := takes_iff.mp ⟨htakes, rfl⟩
    exact hasType_both (.unary hi happlies) (.unary hi' happlies)
  | ⟨_, .binary op _ _, _, _⟩, _, _, _, h => by
    obtain ⟨left', i, right', j, hleft, hright, hoperand, hsame, htakes, rfl, rfl⟩ :=
      checkExpr_binary_ok.mp h
    obtain ⟨hi, hi'⟩ := checkExpr_derives hΓ hleft
    obtain ⟨hj, hj'⟩ := checkExpr_derives hΓ hright
    obtain ⟨b, hvoid, hb⟩ := isOperand_iff.mp hoperand
    -- whatever the operator, two scalars give a scalar
    obtain ⟨k, hk⟩ : ∃ k, Ty.scalar k = op.resultType i.ty := by
      rw [hb]
      cases op <;> exact ⟨_, rfl⟩
    have hjoins : Joins op b k :=
      takesPair_iff.mp ⟨hvoid, by rw [hb] at htakes; exact htakes, by rw [hk, hb]⟩
    rw [← hk]
    exact hasType_both (.binary hi hj hb (hsame.trans hb) hjoins)
      (.binary hi' hj' hb (hsame.trans hb) hjoins)
  | ⟨_, .call _ _ _, _, _⟩, _, _, _, h => by
    obtain ⟨f, signature, arguments', hf, hsignature, hlength, hargs, rfl, rfl⟩ :=
      checkExpr_call_ok.mp h
    obtain ⟨ha, ha'⟩ := checkArguments_derives hΓ hlength hargs
    have hlookup := (table_lookup hΓ.functions).mpr ⟨f, signature, hf, hsignature, rfl⟩
    exact hasType_both (.call hlookup ha) (.call hlookup ha')
termination_by structural e => e

/-- A variable that passes is derived, with the entry that its name stands for. -/
theorem checkLValue_derives (hΓ : Sees r c Γ) :
    ∀ {l l' : LValue} {ty : Ty}, checkLValue r c l = .ok (l', ty) →
      ∃ x, LValueHasType Unread (table r) Γ l x ty ∧ LValueHasType Noted (table r) Γ l' x ty ∧
        l'.assignable = !x.isConstant
  | ⟨_, _, _, _, _, _⟩, _, _, h => by
    obtain ⟨v, y, indices', hv, hy, hrank, hindices, rfl, rfl⟩ := checkLValue_ok.mp h
    obtain ⟨hi, hi'⟩ := checkIndices_derives hΓ hindices
    have hx := hΓ.lookup.mpr ⟨v, y, hv, hy, rfl⟩
    refine ⟨⟨y.ty, y.isConstant⟩, .intro hx hrank hi, ?_, rfl⟩
    rw [← checkIndices_length hindices] at hrank ⊢
    exact .intro hx hrank hi'
termination_by structural l => l

theorem checkIndices_derives (hΓ : Sees r c Γ) :
    ∀ {es es' : List Expr}, checkIndices r c es = .ok es' →
      IndicesTyped Unread (table r) Γ es ∧ IndicesTyped Noted (table r) Γ es'
  | [], _, h => by
    rw [checkIndices_nil_ok.mp h]
    exact ⟨.nil, .nil⟩
  | _ :: _, _, h => by
    obtain ⟨_, i, _, he, hindex, hes, rfl⟩ := checkIndices_cons_ok.mp h
    obtain ⟨hi, hi'⟩ := checkExpr_derives hΓ he
    obtain ⟨hrest, hrest'⟩ := checkIndices_derives hΓ hes
    exact ⟨.cons hi (isIndex_iff.mp hindex) hrest, .cons hi' (isIndex_iff.mp hindex) hrest'⟩
termination_by structural es => es

theorem checkArguments_derives (hΓ : Sees r c Γ) :
    ∀ {es es' : List Expr} {callee : String} {index : Nat} {ps : List Parameter},
      es.length = ps.length → checkArguments r c callee index ps es = .ok es' →
      ArgumentsTaken Unread (table r) Γ es (ps.map (·.ty)) ∧
        ArgumentsTaken Noted (table r) Γ es' (ps.map (·.ty))
  | [], _, _, _, [], _, h => by
    rw [checkArguments_nil_ok.mp h]
    exact ⟨.nil, .nil⟩
  | _ :: _, _, _, _, _ :: _, hlength, h => by
    obtain ⟨_, i, _, he, haccepts, hes, rfl⟩ := checkArguments_cons_ok.mp h
    obtain ⟨hi, hi'⟩ := checkExpr_derives hΓ he
    obtain ⟨hrest, hrest'⟩ := checkArguments_derives hΓ (Nat.succ.inj hlength) hes
    have htakes := accepts_iff.mp haccepts
    exact ⟨.cons hi htakes hrest, .cons hi' htakes hrest'⟩
termination_by structural es => es

end

variable {note : Expr → ExprInfo → Prop}

mutual

/-- An expression that is derived passes, by recursion on the tree. -/
theorem checkExpr_accepts (hΓ : Sees r c Γ) :
    ∀ {e : Expr} {negated : Bool} {i : ExprInfo}, HasType note (table r) Γ negated e i →
      ∃ e', checkExpr r c negated e = .ok (e', i)
  | ⟨_, .number _ _, _, _⟩, _, _, h => by
    obtain ⟨hform, _⟩ := h
    cases hform with
    | number hdenotes =>
      exact ⟨_, checkExpr_number_ok.mpr ⟨isLiteral_iff.mpr hdenotes, rfl, rfl⟩⟩
  | ⟨_, .bool _, _, _⟩, _, _, h => by
    obtain ⟨hform, _⟩ := h
    cases hform with
    | bool => exact ⟨_, checkExpr_bool_ok.mpr ⟨rfl, rfl⟩⟩
  | ⟨_, .lvalue _, _, _⟩, _, _, h => by
    obtain ⟨hform, _⟩ := h
    cases hform with
    | lvalue hl =>
      obtain ⟨l', hl', hassign⟩ := checkLValue_accepts hΓ hl
      exact ⟨_, checkExpr_lvalue_ok.mpr ⟨l', _, hl', by rw [hassign], rfl⟩⟩
  | ⟨_, .paren _, _, _⟩, _, _, h => by
    obtain ⟨hform, _⟩ := h
    cases hform with
    | paren hi =>
      obtain ⟨inner', hinner⟩ := checkExpr_accepts hΓ hi
      exact ⟨_, checkExpr_paren_ok.mpr ⟨inner', _, hinner, rfl, rfl⟩⟩
  | ⟨_, .unary _ _, _, _⟩, _, _, h => by
    obtain ⟨hform, _⟩ := h
    cases hform with
    | unary hi happlies =>
      obtain ⟨operand', hoperand⟩ := checkExpr_accepts hΓ hi
      obtain ⟨htakes, rfl⟩ := takes_iff.mpr happlies
      exact ⟨_, checkExpr_unary_ok.mpr ⟨operand', _, hoperand, htakes, rfl, rfl⟩⟩
  | ⟨_, .binary _ _ _, _, _⟩, _, _, h => by
    obtain ⟨hform, _⟩ := h
    cases hform with
    | binary hi hj hleft hright hjoins =>
      obtain ⟨left', hl⟩ := checkExpr_accepts hΓ hi
      obtain ⟨right', hr⟩ := checkExpr_accepts hΓ hj
      -- the rule names one scalar type for both sides, which the checker finds by comparing them
      obtain ⟨hvoid, htakes, hresult⟩ := takesPair_iff.mpr hjoins
      exact ⟨_, checkExpr_binary_ok.mpr ⟨left', _, right', _, hl, hr,
        isOperand_iff.mpr ⟨_, hvoid, hleft⟩, hright.trans hleft.symm, by rw [hleft]; exact htakes,
        by rw [hleft, hresult], rfl⟩⟩
  | ⟨_, .call _ _ _, _, _⟩, _, _, h => by
    obtain ⟨hform, _⟩ := h
    cases hform with
    | call hf hargs =>
      obtain ⟨f, signature, hfind, hsignature, rfl⟩ := (table_lookup hΓ.functions).mp hf
      obtain ⟨hlength, arguments', hargs'⟩ := checkArguments_accepts hΓ _ 0 hargs
      exact ⟨_, checkExpr_call_ok.mpr
        ⟨f, signature, arguments', hfind, hsignature, hlength, hargs', rfl, rfl⟩⟩
termination_by structural e => e

/-- A variable that is derived passes. -/
theorem checkLValue_accepts (hΓ : Sees r c Γ) :
    ∀ {l : LValue} {x : Variable} {ty : Ty}, LValueHasType note (table r) Γ l x ty →
      ∃ l', checkLValue r c l = .ok (l', ty) ∧ l'.assignable = !x.isConstant
  | ⟨_, _, _, _, _, _⟩, _, _, h => by
    cases h with
    | intro hx hrank hindices =>
      obtain ⟨v, y, hv, hy, rfl⟩ := hΓ.lookup.mp hx
      obtain ⟨indices', hindices'⟩ := checkIndices_accepts hΓ hindices
      exact ⟨_, checkLValue_ok.mpr ⟨v, y, indices', hv, hy, hrank, hindices', rfl, rfl⟩, rfl⟩
termination_by structural l => l

theorem checkIndices_accepts (hΓ : Sees r c Γ) :
    ∀ {es : List Expr}, IndicesTyped note (table r) Γ es → ∃ es', checkIndices r c es = .ok es'
  | [], _ => ⟨[], checkIndices_nil_ok.mpr rfl⟩
  | _ :: _, h => by
    cases h with
    | cons hi hint hrest =>
      obtain ⟨d, hd⟩ := checkExpr_accepts hΓ hi
      obtain ⟨ds, hds⟩ := checkIndices_accepts hΓ hrest
      exact ⟨_, checkIndices_cons_ok.mpr ⟨d, _, ds, hd, isIndex_iff.mpr hint, hds, rfl⟩⟩
termination_by structural es => es

/-- Arguments that are taken pass, whatever place they are counted from. -/
theorem checkArguments_accepts (hΓ : Sees r c Γ) (callee : String) :
    ∀ {es : List Expr} (index : Nat) {ps : List Parameter},
      ArgumentsTaken note (table r) Γ es (ps.map (·.ty)) →
      es.length = ps.length ∧ ∃ es', checkArguments r c callee index ps es = .ok es'
  | [], _, ps, h => by
    cases ps with
    | nil => exact ⟨rfl, [], checkArguments_nil_ok.mpr rfl⟩
    | cons p ps => cases h
  | _ :: _, index, ps, h => by
    cases ps with
    | nil => cases h
    | cons p ps =>
      cases h with
      | cons hi htakes hrest =>
        obtain ⟨d, hd⟩ := checkExpr_accepts hΓ hi
        obtain ⟨hlength, ds, hds⟩ := checkArguments_accepts hΓ callee (index + 1) hrest
        exact ⟨congrArg (· + 1) hlength, _,
          checkArguments_cons_ok.mpr ⟨d, _, ds, hd, accepts_iff.mpr htakes, hds, rfl⟩⟩
termination_by structural es => es

end

/-! ## Initializers -/

variable {target : Ty}

/-- Checking leaves the items of a list as many and in their forms. -/
theorem checkInitializers_forms {depth : Nat} :
    ∀ {xs xs' : List Initializer}, checkInitializers r c target depth xs = .ok xs' →
      xs'.map Initializer.isScalar = xs.map Initializer.isScalar
  | [], _, h => by
    rw [checkInitializers_nil_ok.mp h]
  | x :: _, _, h => by
    obtain ⟨y, _, hy, hys, rfl⟩ := checkInitializers_cons_ok.mp h
    have hform : y.isScalar = x.isScalar := by
      cases x with
      | scalar =>
        obtain ⟨_, _, _, _, _, _, rfl⟩ := checkInitializer_scalar_ok.mp hy
        rfl
      | list =>
        obtain ⟨_, _, _, _, _, _, rfl⟩ := checkInitializer_list_ok.mp hy
        rfl
    rw [List.map_cons, List.map_cons, hform, checkInitializers_forms hys]

theorem checkInitializers_length {depth : Nat} {xs xs' : List Initializer}
    (h : checkInitializers r c target depth xs = .ok xs') : xs'.length = xs.length := by
  rw [← List.length_map Initializer.isScalar, checkInitializers_forms h, List.length_map]

theorem checkInitializers_all_isScalar {depth : Nat} {xs xs' : List Initializer}
    (h : checkInitializers r c target depth xs = .ok xs') :
    xs'.all Initializer.isScalar = xs.all Initializer.isScalar := by
  have hmap : ∀ ys : List Initializer,
      ys.all Initializer.isScalar = (ys.map Initializer.isScalar).all id := by simp
  rw [hmap, hmap, checkInitializers_forms h]

mutual

/-- Initial values that pass fit, by recursion on the tree. -/
theorem checkInitializer_derives (hΓ : Sees r c Γ) :
    ∀ {x : Initializer} {depth : Nat} {x' : Initializer},
      checkInitializer r c target depth x = .ok x' →
      Fits Unread (table r) Γ target depth x ∧ Fits Noted (table r) Γ target depth x'
  | .scalar _ _ _, _, _, h => by
    obtain ⟨value', i, rfl, hvalue, hty, hconst, rfl⟩ := checkInitializer_scalar_ok.mp h
    obtain ⟨hi, hi'⟩ := checkExpr_derives hΓ hvalue
    exact ⟨.scalar hi hty hconst, .scalar hi' hty hconst⟩
  | .list _ items _, depth, _, h => by
    obtain ⟨extent, inner, items', hdim, hdepth, hitems, rfl⟩ := checkInitializer_list_ok.mp h
    obtain ⟨hfits, hfits'⟩ := checkInitializers_derives hΓ hitems
    have hlength := checkInitializers_length hitems
    rcases itemDepth_ok.mp hdepth with ⟨rfl, rfl, hall, rfl⟩ | ⟨_, hexact, hle, rfl⟩
    · have hall' := (checkInitializers_all_isScalar hitems).trans hall
      exact ⟨.flat hdim hall hfits, .flat (by rw [hlength]; exact hdim) hall' hfits'⟩
    · have hrank : depth < target.rank := (List.getElem?_eq_some_iff.mp hdim).1
      -- which rule applies depends on whether this is the innermost dimension
      by_cases hin : depth + 1 < target.rank
      · rw [← hexact hin] at hdim
        exact ⟨.nested hin hdim hfits, .nested hin (by rw [hlength]; exact hdim) hfits'⟩
      · have hlast : depth + 1 = target.rank := by omega
        exact ⟨.innermost hlast hdim hle hfits,
          .innermost hlast hdim (by rw [hlength]; exact hle) hfits'⟩
termination_by structural x => x

theorem checkInitializers_derives (hΓ : Sees r c Γ) :
    ∀ {xs : List Initializer} {depth : Nat} {xs' : List Initializer},
      checkInitializers r c target depth xs = .ok xs' →
      (∀ x ∈ xs, Fits Unread (table r) Γ target depth x) ∧
        ∀ x ∈ xs', Fits Noted (table r) Γ target depth x
  | [], _, _, h => by
    rw [checkInitializers_nil_ok.mp h]
    exact ⟨by simp, by simp⟩
  | x :: xs, _, _, h => by
    obtain ⟨y, ys, hy, hys, rfl⟩ := checkInitializers_cons_ok.mp h
    obtain ⟨hx, hx'⟩ := checkInitializer_derives hΓ hy
    obtain ⟨hxs, hxs'⟩ := checkInitializers_derives hΓ hys
    exact ⟨List.forall_mem_cons.mpr ⟨hx, hxs⟩, List.forall_mem_cons.mpr ⟨hx', hxs'⟩⟩
termination_by structural xs => xs

end

/-- The items of a list that fits are of the right number and fit one dimension further
in, or the list is flat. -/
theorem fits_list {F : Table} {depth : Nat} {id : NodeId} {items : List Initializer} {span : Span}
    (h : Fits note F Γ target depth (.list id items span)) :
    ∃ extent inner, target.dims[depth]? = some extent ∧
      itemDepth target depth extent items = .ok inner ∧
      ∀ x ∈ items, Fits note F Γ target inner x := by
  -- a scalar fits past all dimensions only
  have hscalar : ∀ {x : Initializer} {d : Nat}, x.isScalar = true →
      Fits note F Γ target d x → d = target.rank := by
    intro x d hx hfit
    cases hfit with
    | scalar => rfl
    | _ => exact absurd hx (by simp [Initializer.isScalar])
  -- so where the flat reading of a list takes precedence, it fits all the same
  have hread : ∀ {extent : Nat}, target.dims[depth]? = some extent →
      (depth + 1 < target.rank → items.length = extent) → items.length ≤ extent →
      (∀ x ∈ items, Fits note F Γ target (depth + 1) x) →
      ∃ extent inner, target.dims[depth]? = some extent ∧
        itemDepth target depth extent items = .ok inner ∧
        ∀ x ∈ items, Fits note F Γ target inner x := by
    intro extent hdim hexact hle hfits
    by_cases hflat : depth = 0 ∧ items.length = extent ∧ items.all Initializer.isScalar = true
    · refine ⟨extent, target.rank, hdim, itemDepth_ok.mpr (Or.inl ⟨hflat.1, hflat.2.1, hflat.2.2,
        rfl⟩), ?_⟩
      intro x hx
      rw [← hscalar (List.all_eq_true.mp hflat.2.2 x hx) (hfits x hx)]
      exact hfits x hx
    · exact ⟨extent, depth + 1, hdim, itemDepth_ok.mpr (Or.inr ⟨hflat, hexact, hle, rfl⟩), hfits⟩
  cases h with
  | nested hin hdim hfits => exact hread hdim (fun _ => rfl) (Nat.le_refl _) hfits
  | innermost hlast hdim hle hfits => exact hread hdim (fun hin => by omega) hle hfits
  | flat hdim hall hfits =>
    exact ⟨_, target.rank, hdim, itemDepth_ok.mpr (Or.inl ⟨rfl, rfl, hall, rfl⟩), hfits⟩

mutual

/-- Initial values that fit pass, by recursion on the tree. -/
theorem checkInitializer_accepts (hΓ : Sees r c Γ) :
    ∀ {x : Initializer} {depth : Nat}, Fits note (table r) Γ target depth x →
      ∃ x', checkInitializer r c target depth x = .ok x'
  | .scalar _ _ _, _, h => by
    cases h with
    | scalar hi hty hconst =>
      obtain ⟨value', hvalue⟩ := checkExpr_accepts hΓ hi
      exact ⟨_, checkInitializer_scalar_ok.mpr ⟨value', _, rfl, hvalue, hty, hconst, rfl⟩⟩
  | .list _ items _, _, h => by
    obtain ⟨extent, inner, hdim, hdepth, hfits⟩ := fits_list h
    obtain ⟨items', hitems⟩ := checkInitializers_accepts hΓ hfits
    exact ⟨_, checkInitializer_list_ok.mpr ⟨extent, inner, items', hdim, hdepth, hitems, rfl⟩⟩
termination_by structural x => x

theorem checkInitializers_accepts (hΓ : Sees r c Γ) :
    ∀ {xs : List Initializer} {depth : Nat},
      (∀ x ∈ xs, Fits note (table r) Γ target depth x) →
      ∃ xs', checkInitializers r c target depth xs = .ok xs'
  | [], _, _ => ⟨[], checkInitializers_nil_ok.mpr rfl⟩
  | x :: xs, _, h => by
    obtain ⟨hx, hxs⟩ := List.forall_mem_cons.mp h
    obtain ⟨y, hy⟩ := checkInitializer_accepts hΓ hx
    obtain ⟨ys, hys⟩ := checkInitializers_accepts hΓ hxs
    exact ⟨_, checkInitializers_cons_ok.mpr ⟨y, ys, hy, hys, rfl⟩⟩
termination_by structural xs => xs

end

end

end CactLang.Typing
