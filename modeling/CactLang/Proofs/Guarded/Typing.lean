import CactLang.Proofs.Accepted.Expression
import CactLang.Proofs.Extents
import CactLang.Proofs.Guarded.ByIndex

/-!
# Trees whose checking stays in range

> `Node.Guarded n`: checking by index does at the node what checking does, whatever is declared.

So no index is out of range there and no number outgrows its word. A tree that was read is
guarded: its literals have no sign, so the value of one can be negated, and its lists are no
longer than the input.
-/

/-! ## What is read -/

namespace CactLang

/-- A number has no sign in it, and a dimension none but in front. -/
def Part.Plain : Part → Prop
  | .word w => w.kind = .integerLiteral → '-' ∉ w.text.toList
  | .dimension text => '-' ∉ text.toList.tail

/-- A text that is not too long, with numbers in it that have no sign. -/
structure Ordinary (ps : List Part) : Prop where
  size : ps.length < 2 ^ 64
  plain : ∀ part ∈ ps, part.Plain

/-- Fewer parts have nothing out of range either. -/
theorem Ordinary.mono {ps qs : List Part} (h : Ordinary ps) (hqs : qs.Sublist ps) : Ordinary qs :=
  ⟨Nat.lt_of_le_of_lt hqs.length_le h.size, fun part hpart => h.plain part (hqs.subset hpart)⟩

/-- A part of a list with commas stands in it. -/
theorem sublist_commas {ps : List Part} {pss : List (List Part)} (h : ps ∈ pss) :
    ps.Sublist (commas pss) := by
  cases pss with
  | nil => exact absurd h List.not_mem_nil
  | cons first rest =>
    rw [commas]
    rcases List.mem_cons.mp h with rfl | h
    · exact List.sublist_append_left _ _
    · have hrest : (Part.plain .comma :: ps).Sublist (rest.flatMap (Part.plain .comma :: ·)) :=
        List.sublist_flatten_of_mem (List.mem_map_of_mem h)
      exact ((List.sublist_cons_self _ _).trans hrest).trans (List.sublist_append_right _ _)

/-- A part in brackets stands among all of them. -/
theorem sublist_brackets {ps : List Part} {pss : List (List Part)} (h : ps ∈ pss) :
    ps.Sublist (pss.flatMap bracket) := by
  have hinner : ps.Sublist (bracket ps) := (List.sublist_append_left _ _).cons _
  exact hinner.trans (List.sublist_flatten_of_mem (List.mem_map_of_mem h))

/-- A list with commas has at least as many parts as items. -/
theorem length_le_commas {pss : List (List Part)} (h : ∀ ps ∈ pss, ps ≠ []) :
    pss.length ≤ (commas pss).length := by
  cases pss with
  | nil => exact Nat.zero_le _
  | cons first rest =>
    have hfirst : 0 < first.length := List.length_pos_iff.mpr (h first (.head _))
    have hrest : rest.length ≤ (rest.flatMap (Part.plain .comma :: ·)).length := by
      clear h
      induction rest with
      | nil => exact Nat.zero_le _
      | cons ps rest ih =>
        rw [List.flatMap_cons, List.length_append, List.length_cons, List.length_cons]
        omega
    rw [commas, List.length_cons, List.length_append]
    omega

theorem Expr.length_allParts (es : List Expr) : (allParts es).length = es.length := by
  rw [allParts_eq_map, List.length_map]

theorem Expr.ne_nil_of_mem_allParts {es : List Expr} {ps : List Part} (h : ps ∈ allParts es) :
    ps ≠ [] := by
  rw [allParts_eq_map] at h
  obtain ⟨e, _, rfl⟩ := List.mem_map.mp h
  exact e.parts_ne_nil

/-- Every dimension has parts of its own. -/
theorem Dimension.length_le_allParts (dims : List Dimension) :
    dims.length ≤ (allParts dims).length := by
  induction dims with
  | nil => exact Nat.zero_le _
  | cons dim dims ih =>
    unfold allParts at ih ⊢
    rw [List.flatMap_cons, List.length_append, bracket, List.length_cons, List.length_cons]
    omega

theorem mem_allParts {dims : List Dimension} {dim : Dimension} (h : dim ∈ dims) :
    .dimension dim.text ∈ Dimension.allParts dims :=
  List.mem_flatMap.mpr ⟨dim, h, .tail _ (.head _)⟩

namespace Typing.ByIndex

/-- Two parts that are the same are the same in a row. -/
theorem bind_congr {α β : Type} {x y : Except Failure α} {f g : α → Except Failure β}
    (hx : x = y) (hf : ∀ a, f a = g a) : (x >>= f) = (y >>= g) := by
  rw [hx, funext hf]

variable {r : Registry} {scope : ScopeId}

mutual

/-- Nothing in an expression is out of range, by recursion on the tree. -/
theorem checkExpr_eq : ∀ (e : Expr) (negated : Bool), Ordinary e.parts →
    checkExpr r scope negated e = Typing.checkExpr r scope negated e
  | ⟨_, .number text kind, _, _⟩, negated, h => by
    have htext : kind = .integer → '-' ∉ text.toList.tail := by
      rintro rfl hmem
      exact h.plain _ (List.mem_singleton_self _) rfl (List.mem_of_mem_tail hmem)
    rw [checkExpr, Typing.checkExpr, isLiteral_eq negated htext]
    rfl
  | ⟨_, .bool _, _, _⟩, _, _ => by
    rw [checkExpr, Typing.checkExpr]
  | ⟨_, .lvalue l, _, _⟩, _, h => by
    rw [checkExpr, Typing.checkExpr]
    exact bind_congr (checkLValue_eq l h) fun _ => rfl
  | ⟨_, .paren inner, _, _⟩, _, h => by
    have hinner : Ordinary inner.parts := h.mono ((List.sublist_append_left _ _).cons _)
    rw [checkExpr, Typing.checkExpr]
    exact bind_congr (checkExpr_eq inner false hinner) fun _ => rfl
  | ⟨_, .unary op operand, _, _⟩, _, h => by
    have hoperand : Ordinary operand.parts := h.mono (List.sublist_append_right _ _)
    rw [checkExpr, Typing.checkExpr]
    exact bind_congr (checkExpr_eq operand _ hoperand) fun _ => rfl
  | ⟨_, .binary op left right, _, _⟩, _, h => by
    have hleft : Ordinary left.parts := h.mono (List.sublist_append_left _ _)
    have hright : Ordinary right.parts :=
      h.mono ((List.sublist_append_right _ _).trans (List.sublist_append_right _ _))
    rw [checkExpr, Typing.checkExpr]
    refine bind_congr (checkExpr_eq left false hleft) fun _ => ?_
    exact bind_congr (checkExpr_eq right false hright) fun _ => rfl
  | ⟨_, .call callee arguments _, _, _⟩, _, h => by
    have hlist : Ordinary (commas (Expr.allParts arguments)) :=
      h.mono (((List.sublist_append_left _ _).cons _).cons _)
    have hcount : 0 + arguments.length < 2 ^ 64 := by
      rw [Nat.zero_add, ← Expr.length_allParts]
      exact Nat.lt_of_le_of_lt (length_le_commas fun _ => Expr.ne_nil_of_mem_allParts) hlist.size
    rw [checkExpr, Typing.checkExpr]
    refine bind_congr rfl fun _ => bind_congr rfl fun signature => ?_
    dsimp only
    -- An argument too many is found by lengths on one side, and by what is left on the other.
    cases hdrop : arguments.drop signature.parameters.length with
    | nil =>
      have hle := List.drop_eq_nil_iff.mp hdrop
      rw [if_neg (Nat.not_lt.mpr hle), checkArguments_eq arguments 0 _ hcount fun _ hps =>
        hlist.mono (sublist_commas hps)]
    | cons extra rest =>
      have hextra : arguments[signature.parameters.length]? = some extra := by
        rw [← List.head?_drop, hdrop, List.head?_cons]
      rw [if_pos (List.getElem?_eq_some_iff.mp hextra).1, itemAt, hextra]
      rfl
  termination_by structural e => e

theorem checkLValue_eq : ∀ l : LValue, Ordinary l.parts →
    checkLValue r scope l = Typing.checkLValue r scope l
  | ⟨_, _, indices, _, _, _⟩, h => by
    have hindices : ∀ ps ∈ Expr.allParts indices, Ordinary ps :=
      fun ps hps => h.mono ((sublist_brackets hps).cons _)
    rw [checkLValue, Typing.checkLValue]
    refine bind_congr rfl fun _ => bind_congr rfl fun symbol => ?_
    split
    next => rfl
    next =>
      refine bind_congr (checkIndices_eq indices hindices) fun _ => ?_
      rw [indexed_eq]
      rfl
  termination_by structural l => l

theorem checkIndices_eq : ∀ es : List Expr, (∀ ps ∈ Expr.allParts es, Ordinary ps) →
    checkIndices r scope es = Typing.checkIndices r scope es
  | [], _ => by
    rw [checkIndices, Typing.checkIndices]
  | e :: es, h => by
    rw [Expr.allParts, List.forall_mem_cons] at h
    rw [checkIndices, Typing.checkIndices]
    refine bind_congr (checkExpr_eq e false h.1) fun _ => ?_
    rw [checkIndices_eq es h.2]
  termination_by structural es => es

/-- The places of arguments are in range, as there are not more of them than tokens. -/
theorem checkArguments_eq {callee : String} : ∀ (es : List Expr) (index : Nat)
    (ps : List Parameter), index + es.length < 2 ^ 64 → (∀ ps ∈ Expr.allParts es, Ordinary ps) →
    checkArguments r scope callee index ps es = Typing.checkArguments r scope callee index ps es
  | [], _, ps, _, _ => by
    cases ps <;> rfl
  | e :: es, index, ps, hcount, h => by
    cases ps with
    | nil => rfl
    | cons p ps =>
      rw [Expr.allParts, List.forall_mem_cons] at h
      rw [List.length_cons] at hcount
      rw [checkArguments, Typing.checkArguments]
      refine bind_congr (checkExpr_eq e false h.1) fun a => ?_
      rw [sum64?_of_lt (by omega), accepts_eq]
      show (if _ then _ else _) = _
      rw [checkArguments_eq es (index + 1) ps (by omega) h.2]
  termination_by structural es => es

end

/-- The depth of an item is in range if the rank of the target is. -/
theorem itemDepth_eq {target : Ty} {depth extent : Nat} {items : List Initializer}
    (h : depth + 1 < 2 ^ 64) :
    itemDepth target depth extent items = .ok (Typing.itemDepth target depth extent items) := by
  unfold itemDepth Typing.itemDepth
  dsimp only
  split
  next => rfl
  next =>
    have houter : (!decide (depth + 1 ≥ target.rank) && decide (items.length ≠ extent)) = true ↔
        depth + 1 < target.rank ∧ items.length ≠ extent := by
      simp
    rw [sum64?_of_lt h]
    simp only [houter]
    show (if _ then _ else _ : Except Failure (Except Cause Nat)) = _
    split
    next => rfl
    next => split <;> rfl

mutual

/-- Initial values are not nested deeper than the target has dimensions. -/
theorem checkInitializer_eq {target : Ty} (htarget : target.rank < 2 ^ 64) :
    ∀ (x : Initializer) (depth : Nat), Ordinary x.parts →
    checkInitializer r scope target depth x = Typing.checkInitializer r scope target depth x
  | .scalar _ value _, depth, h => by
    rw [checkInitializer, Typing.checkInitializer]
    split
    next => rfl
    next => exact bind_congr (checkExpr_eq value false h) fun _ => rfl
  | .list _ items _, depth, h => by
    have hitems : ∀ ps ∈ Initializer.allParts items, Ordinary ps :=
      fun ps hps => h.mono (((sublist_commas hps).trans (List.sublist_append_left _ _)).cons _)
    rw [checkInitializer, Typing.checkInitializer]
    -- Below the rank there is an extent, and one more than the depth is at most the rank.
    by_cases hdepth : target.rank ≤ depth
    · rw [if_pos hdepth, List.getElem?_eq_none hdepth]
    · have hlt : depth < target.dims.length := Nat.not_le.mp hdepth
      rw [if_neg hdepth, itemAt, List.getElem?_eq_getElem hlt]
      show (itemDepth target depth _ items >>= _) = (locate _ _ _ >>= _)
      rw [itemDepth_eq (Nat.lt_of_le_of_lt hlt htarget)]
      show (locate _ _ _ >>= _) = (locate _ _ _ >>= _)
      refine bind_congr rfl fun inner => ?_
      exact bind_congr (checkInitializers_eq htarget items inner hitems) fun _ => rfl

theorem checkInitializers_eq {target : Ty} (htarget : target.rank < 2 ^ 64) :
    ∀ (xs : List Initializer) (depth : Nat),
    (∀ ps ∈ Initializer.allParts xs, Ordinary ps) →
    checkInitializers r scope target depth xs = Typing.checkInitializers r scope target depth xs
  | [], _, _ => rfl
  | x :: xs, depth, h => by
    rw [Initializer.allParts, List.forall_mem_cons] at h
    rw [checkInitializers, Typing.checkInitializers]
    refine bind_congr (checkInitializer_eq htarget x depth h.1) fun _ => ?_
    exact bind_congr (checkInitializers_eq htarget xs depth h.2) fun _ => rfl

end

/-! ## Declarations -/

/-- A dimension is read in range, as a dash can only stand in front of it. -/
theorem checkDimension_eq (id : NodeId) {dim : Dimension} (h : '-' ∉ dim.text.toList.tail) :
    checkDimension id dim = (Typing.checkDimension id dim).mapError .diagnostic := by
  rw [checkDimension, integer_eq h, Typing.checkDimension, extent?]
  cases Literal.integer? dim.text.toList with
  | none => rfl
  | some value =>
    show Option.elim (if _ then _ else _) _ _ = _
    dsimp only
    split <;> rfl

/-- The first dimension that fails is the same. -/
theorem mapM_checkDimension_eq (id : NodeId) {dims : List Dimension}
    (h : ∀ dim ∈ dims, '-' ∉ dim.text.toList.tail) :
    dims.mapM (checkDimension id) = (checkDimensions id dims).mapError .diagnostic := by
  induction dims with
  | nil => rfl
  | cons dim dims ih =>
    rw [List.forall_mem_cons] at h
    rw [List.mapM_cons, checkDimension_eq id h.1, ih h.2, checkDimensions]
    cases Typing.checkDimension id dim with
    | error d => rfl
    | ok extent => cases checkDimensions id dims <;> rfl

/-- Types are put together in range. -/
theorem typeOf_eq (basic : BasicType) {dims : List Dimension} (isOpen : Bool) (id : NodeId)
    (h : ∀ dim ∈ dims, '-' ∉ dim.text.toList.tail) :
    typeOf basic dims isOpen id = Typing.typeOf basic dims isOpen id := by
  rw [typeOf, mapM_checkDimension_eq id h, Typing.typeOf, declaredType]
  cases checkDimensions id dims <;> rfl

/-- A type has as many dimensions as were written. -/
theorem rank_typeOf {basic : BasicType} {dims : List Dimension} {id : NodeId} {ty : Ty}
    (h : Typing.typeOf basic dims false id = .ok ty) : ty.rank = dims.length := by
  obtain ⟨ns, hns, rfl⟩ := typeOf_ok.mp h
  exact hns.length_eq.symm

/-- Two ways to go on from a value are the same if they are for every value there is. -/
theorem look_bind_congr {α β : Type} {x : Except Failure α} {f g : α → Check β}
    (h : ∀ a, x = .ok a → f a = g a) :
    (Check.look (fun _ _ => x) >>= f) = (Check.look (fun _ _ => x) >>= g) := by
  funext s
  cases x with
  | error e => rfl
  | ok a => exact congrFun (h a rfl) s

theorem initializer_eq {target : Ty} (htarget : target.rank < 2 ^ 64) {x : Initializer}
    (h : Ordinary x.parts) :
    (.look fun r context => checkInitializer r context.scope target 0 x) =
      initializer target 0 x := by
  unfold initializer
  simp only [checkInitializer_eq htarget x 0 h]

/-- A definition is checked in range. -/
theorem varDef_eq (isConstant : Bool) (basic : BasicType) {d : VarDef}
    (h : Ordinary d.parts) :
    varDef isConstant basic d = Typing.varDef isConstant basic d := by
  have hdims : Ordinary (Dimension.allParts d.dims) :=
    h.mono ((List.sublist_append_left _ _).cons _)
  have hcount := Nat.lt_of_le_of_lt (Dimension.length_le_allParts d.dims) hdims.size
  unfold varDef Typing.varDef
  rw [typeOf_eq basic false d.id fun dim hdim => hdims.plain _ (mem_allParts hdim)]
  refine look_bind_congr fun ty hty => ?_
  cases hinit : d.init with
  | none => rfl
  | some init =>
    have hinner : Ordinary init.parts := by
      rw [VarDef.parts, hinit] at h
      exact h.mono (((List.sublist_cons_self _ _).trans (List.sublist_append_right _ _)).cons _)
    rw [Option.mapM_some, initializer_eq (by rwa [rank_typeOf hty]) hinner]

/-- A parameter is checked in range. -/
theorem param_eq (function : FunctionId) {p : Param} (h : Ordinary p.parts) :
    param function p = Typing.param function p := by
  have hdims : Ordinary (Dimension.allParts p.dims) :=
    h.mono (((List.sublist_append_right _ _).cons _).cons _)
  unfold param Typing.param
  rw [typeOf_eq p.basic p.isOpen p.id fun dim hdim => hdims.plain _ (mem_allParts hdim)]

end Typing.ByIndex

/-! ## Trees that were read -/

/-- Whatever is declared, checking by index does at the node what checking does. Nothing is
done by index at the nodes of other kinds. -/
def Node.Guarded : Node → Prop
  | .expr e => ∀ r scope negated,
    Typing.ByIndex.checkExpr r scope negated e = Typing.checkExpr r scope negated e
  | .lvalue l => ∀ r scope, Typing.ByIndex.checkLValue r scope l = Typing.checkLValue r scope l
  | .varDef d => ∀ isConstant basic,
    Typing.ByIndex.varDef isConstant basic d = Typing.varDef isConstant basic d
  | .param p => ∀ function, Typing.ByIndex.param function p = Typing.param function p
  | _ => True

/-- No number has a sign in it. -/
def Token.Unsigned (ts : List Token) : Prop :=
  ∀ t ∈ ts, t.kind = .integerLiteral → '-' ∉ t.text.toList

/-- Fewer tokens have no dash in their numbers either. -/
theorem Token.Unsigned.mono {ts us : List Token} (h : Unsigned ts) (hus : us ⊆ ts) : Unsigned us :=
  fun t ht => h t (hus ht)

/-- In what unsigned tokens spell, a dash can only stand in front of a dimension. -/
theorem Part.Spells.plain {part : Part} {ts : List Token} (h : part.Spells (ts.map Token.word))
    (hts : Token.Unsigned ts) : part.Plain := by
  -- the words are those of tokens, and no number among the tokens has a sign
  have hnumber : ∀ {t : Token} {text : String}, t ∈ ts → t.word = .number .integer text →
      '-' ∉ text.toList := by
    intro t text ht hword
    have htext : t.text = text := Token.text_eq hword rfl
    rw [← htext]
    exact hts t ht (congrArg Word.kind hword)
  have hmem : ∀ {w : Word}, w ∈ ts.map Token.word → ∃ t ∈ ts, t.word = w := List.mem_map.mp
  cases part with
  | word w =>
    have hws : ts.map Token.word = [w] := h
    obtain ⟨t, ht, hword⟩ := hmem (hws ▸ List.mem_singleton_self w)
    intro hk
    rw [← Token.text_eq hword (by rw [hk]; rfl)]
    exact hts t ht ((congrArg Word.kind hword).trans hk)
  | dimension text =>
    rcases h with hws | ⟨digits, rfl, hws⟩
    · obtain ⟨t, ht, hword⟩ := hmem (hws ▸ List.mem_singleton_self _)
      exact fun htail => hnumber ht hword (List.mem_of_mem_tail htail)
    · obtain ⟨t, ht, hword⟩ := hmem (hws ▸ List.mem_cons_of_mem _ (List.mem_singleton_self _))
      have htail : ("-" ++ digits).toList.tail = digits.toList := by
        rw [String.toList_append]
        rfl
      rw [Part.Plain, htail]
      exact hnumber ht hword

/-- Unsigned tokens spell parts without a dash inside. -/
theorem Spelled.allPlain {ps : List Part} {ts : List Token} (h : Spelled ps (ts.map Token.word))
    (hts : Token.Unsigned ts) : ∀ part ∈ ps, part.Plain := by
  induction ps generalizing ts with
  | nil => exact fun _ hpart => absurd hpart List.not_mem_nil
  | cons p ps ih =>
    obtain ⟨u, v, hwords, hp, hps⟩ := h
    obtain ⟨us, vs, rfl, rfl, rfl⟩ := List.map_eq_append_iff.mp hwords
    refine List.forall_mem_cons.mpr ⟨hp.plain ?_, ih hps ?_⟩
    · exact hts.mono (List.subset_append_left us vs)
    · exact hts.mono (List.subset_append_right us vs)

/-- Every part has a word at least. -/
theorem Spelled.length_le {ps : List Part} {ws : List Word} (h : Spelled ps ws) :
    ps.length ≤ ws.length := by
  induction ps generalizing ws with
  | nil => exact Nat.zero_le _
  | cons p ps ih =>
    obtain ⟨u, v, rfl, hp, hps⟩ := h
    have hpos : 0 < u.length := List.length_pos_iff.mpr (Part.ne_nil_of_spells hp)
    have hle := ih hps
    rw [List.length_cons, List.length_append]
    omega

open Typing.ByIndex in
/-- A node that was read has nothing out of range, as its tokens are in the source. -/
theorem Node.Placed.guarded {n : Node} {ts : List Token} (h : n.Placed ts)
    (hsize : ts.length < 2 ^ 64) (hts : Token.Unsigned ts) : n.Guarded := by
  obtain ⟨us, hus, hcovers, _⟩ := h
  have hcount : n.parts.length ≤ us.length := by
    rw [← List.length_map Token.word]
    exact hcovers.spelled.length_le
  have hparts : Ordinary n.parts :=
    { size := Nat.lt_of_le_of_lt (Nat.le_trans hcount hus.length_le) hsize
      plain := hcovers.spelled.allPlain (hts.mono hus.subset) }
  cases n with
  | expr e => exact fun r scope negated => checkExpr_eq e negated hparts
  | lvalue l => exact fun r scope => checkLValue_eq l hparts
  | varDef d => exact fun isConstant basic => varDef_eq isConstant basic hparts
  | param p => exact fun function => param_eq function hparts
  | _ => trivial

/-- **Nothing is out of range at a node that was read.** -/
theorem parse_guarded {tokens : List Token} {file : String} {p : Program} {c : Cursor}
    (h : parse tokens file = .ok p c) (hsize : tokens.length < 2 ^ 64)
    (htokens : Token.Unsigned tokens) : ∀ n ∈ p.nodes, n.Guarded := by
  have hcontent : (Token.content tokens).length ≤ tokens.length :=
    (List.takeWhile_sublist _).length_le
  intro n hn
  refine ((parse_lays h).2 n hn).guarded (Nat.lt_of_le_of_lt hcontent hsize) ?_
  exact htokens.mono (List.takeWhile_sublist _).subset

/-! ## The numbers of a source -/

theorem Pattern.digits_over : Over (· ≠ '-') digits := by
  have hdigit : ∀ c : Char, c.isDigit = true → c ≠ '-' := by
    rintro c hc rfl
    cases hc
  exact .mul (.one hdigit) (.many hdigit)

theorem Pattern.hexadecimal_over : Over (· ≠ '-') hexadecimal := by
  have hmark : ∀ c : Char, isHexMark c = true → c ≠ '-' := by
    rintro c hc rfl
    cases hc
  have hdigit : ∀ c : Char, Claim.isHexDigit c = true → c ≠ '-' := by
    rintro c hc rfl
    cases hc
  have hzero : Over (· ≠ '-') (literal "0") := .literal (by simp)
  exact hzero.mul (.mul (.one hmark) (.mul (.one hdigit) (.many hdigit)))

/-- An integer literal is a hexadecimal number or a run of digits. -/
theorem Pattern.mem_integer {pattern : Pattern} (hpattern : pattern ∈ all) {w : List Char}
    (hw : w ∈ pattern.language) (hkind : pattern.cls.kind w = some .integerLiteral) :
    w ∈ hexadecimal + digits := by
  unfold all at hpattern
  rcases List.mem_append.mp hpattern with hpattern | hpattern
  · simp only [List.mem_cons, List.not_mem_nil, or_false] at hpattern
    rcases hpattern with rfl | rfl | rfl | rfl | rfl | rfl | rfl | rfl
    · exact absurd (Option.some.inj hkind) (TokenKind.ofWord_ne _).2
    · cases hkind
    · cases hkind
    · exact .inl hw
    · exact .inr hw
    · cases hkind
    · cases hkind
    · cases hkind
  · obtain ⟨row, hrow, rfl⟩ := List.mem_map.mp hpattern
    have hall : ∀ row ∈ symbols, row.kind ≠ .integerLiteral := by decide
    exact absurd (Option.some.inj hkind) (hall row.1 ((List.mem_attachWith _ _).mp hrow))

/-- The text of an integer literal is that of a number. -/
theorem tokenize_integer {source file : String} {tokens : List Token}
    (h : tokenize source file = .ok tokens) {t : Token} (ht : t ∈ tokens)
    (hkind : t.kind = .integerLiteral) :
    t.text.toList ∈ Pattern.hexadecimal + Pattern.digits := by
  have hne : t.kind ≠ .eof := by
    rw [hkind]
    decide
  obtain ⟨pattern, hpattern, hmatch, hk⟩ := tokenize_matched h ht hne
  exact Pattern.mem_integer hpattern hmatch (hk.trans (congrArg some hkind))

/-- No number of a source has a sign in it. -/
theorem tokenize_unsigned {source file : String} {tokens : List Token}
    (h : tokenize source file = .ok tokens) : Token.Unsigned tokens := by
  intro t ht hkind hminus
  have hover := Pattern.hexadecimal_over.add Pattern.digits_over
  exact hover _ (tokenize_integer h ht hkind) _ hminus rfl

end CactLang
