import CactLang.Proofs.Extents
import CactLang.Proofs.Guarded.Handles
import CactLang.Proofs.Identities
import CactLang.Proofs.Rescanning

/-!
# Where a rejected program is pointed at

A diagnostic of the type checker has a node and a position, and the two are chosen apart
from each other. The node is always one of the tree, and as no identity is handed out
twice, it is clear which one. The position is where that node starts, or where one of the
dimensions written at it does.

> `typeCheck_points_into`: a rejected program is pointed at inside of the node that it is
> rejected for, at the start of a token.

Offsets and identities are kept as words of 32 bits. In a source of `2 ^ 32` bytes or more the
offsets start again from zero, and a diagnostic may point at an offset outside of the span of its
node (`typeCheck_points_outside`).
-/

namespace CactLang

open Text (isBlank width)

/-! ## Identities -/

/-- The identity as a word of 32 bits. -/
def NodeId.word (id : NodeId) : Nat :=
  id.index % 2 ^ 32

/-- No two nodes of what is parsed have the same identity, and none has that of the
program. -/
theorem parse_nodup {tokens : List Token} {file : String} {p : Program} {c : Cursor}
    (h : parse tokens file = .ok p c) : (p.id :: p.nodes.map Node.id).Nodup := by
  obtain ⟨hsublist, _, _⟩ := parse_numbers h
  have hroot : p.id = ⟨0⟩ := (parse_builds h).1
  refine List.Nodup.of_map NodeId.index ?_
  rw [List.map_cons, List.map_map, List.nodup_cons]
  refine ⟨fun hmem => ?_, hsublist.nodup (List.nodup_range' _)⟩
  -- the numbers of the nodes start at one
  have hone := (List.mem_range'_1.mp (hsublist.subset hmem)).1
  rw [hroot] at hone
  exact absurd hone (by decide)

/-- As long as no more identities are handed out than there are words, they differ as words. -/
theorem parse_nodup_words {tokens : List Token} {file : String} {p : Program} {c : Cursor}
    (h : parse tokens file = .ok p c) (hcount : c.nodeCount ≤ 2 ^ 32) :
    ((p.id :: p.nodes.map Node.id).map NodeId.word).Nodup := by
  obtain ⟨hsublist, _, hone⟩ := parse_numbers h
  have hroot : p.id = ⟨0⟩ := (parse_builds h).1
  have hsmall : ∀ id ∈ p.id :: p.nodes.map Node.id, id.index < 2 ^ 32 := by
    intro id hid
    rcases List.mem_cons.mp hid with rfl | hid
    · rw [hroot]
      decide
    · obtain ⟨n, hn, rfl⟩ := List.mem_map.mp hid
      have hmem : n.id.index ∈ p.nodes.map (·.id.index) := List.mem_map_of_mem hn
      have hbounds := List.mem_range'_1.mp (hsublist.subset hmem)
      omega
  -- no index is too large for a word, so none is changed
  refine (parse_nodup h).map_on ?_
  intro a ha b hb hab
  unfold NodeId.word at hab
  rw [Nat.mod_eq_of_lt (hsmall a ha), Nat.mod_eq_of_lt (hsmall b hb)] at hab
  cases a
  cases b
  exact congrArg NodeId.mk hab

/-! ## Places of nodes and dimensions -/

/-- A piece starts where the first of its tokens does. -/
theorem Piece.Covers.exists_start {x : Piece} {us : List Token} (h : x.Covers us) :
    ∃ t ∈ us, x.span.start = t.span.start := by
  obtain ⟨first, _, hfirst, _, hspan⟩ := h.span
  exact ⟨first, List.mem_of_head? hfirst, by rw [hspan]⟩

/-- A token that a piece covers has its span inside of that of the piece. -/
theorem Piece.Covers.token_inside {x : Piece} {us : List Token} {t : Token} (h : x.Covers us)
    (hus : Token.Ordered us) (ht : t ∈ us) : t.span.Inside x.span := by
  obtain ⟨first, last, hfirst, hlast, hspan⟩ := h.span
  rw [hspan]
  exact ⟨hus.start_le hfirst ht, hus.le_stop hlast ht⟩

/-- A dimension at a node starts with one of the tokens of the node. -/
theorem Piece.Row.exists_dimStart {n : Node} {us : List Token} {dim : Dimension}
    (h : Row n.inner us) (hdim : dim ∈ n.dims) : ∃ t ∈ us, dim.span.start = t.span.start := by
  obtain ⟨vs, hvs, hcovers⟩ := h.covers _ (Node.dim_mem_inner hdim)
  obtain ⟨t, ht, hstart⟩ := hcovers.exists_start
  exact ⟨t, hvs.subset ht, hstart⟩

/-- The tokens of a source that is not too long follow each other. -/
theorem tokenize_ordered {source file : String} {before : List Token} {last : Token}
    (hsize : source.utf8ByteSize < 2 ^ 32) (h : tokenize source file = .ok (before ++ [last])) :
    Token.Ordered before := by
  rw [Text.utf8ByteSize_eq_width] at hsize
  have hscanned : Scanned file source.toList 0 (tokenize source file) :=
    scan_scanned hsize 0 source.toList [] rfl rfl
  rw [h] at hscanned
  obtain ⟨before', hbefore, hpartition⟩ := hscanned
  rw [(List.append_inj_left' hbefore rfl)]
  exact hpartition.tokens_ordered

/-! ## Diagnostics -/

/-- The dimension is written at the definition of a variable or at a parameter. -/
def Node.DeclaresDim (n : Node) (dim : Dimension) : Prop :=
  (∃ d, n = .varDef d ∧ dim ∈ d.dims) ∨ ∃ q, n = .param q ∧ dim ∈ q.dims

theorem Node.declaresDim {n : Node} {dim : Dimension} (h : dim ∈ n.dims) : n.DeclaresDim dim := by
  cases n with
  | varDef d => exact .inl ⟨d, rfl, h⟩
  | param q => exact .inr ⟨q, rfl, h⟩
  | _ => exact absurd h List.not_mem_nil

/-- The diagnostic is about the node and points at the start of the token. That is where
the node starts, unless the cause is a dimension: then it is where a dimension of that text
starts, written at the node. -/
structure Diagnostic.PointsAt (d : Diagnostic) (n : Node) (t : Token) : Prop where
  node : d.node = some n.id
  token : d.position = t.span.start
  start : (∀ text, d.cause ≠ .badDimension text) → d.position = n.span.start
  dimension : ∀ text, d.cause = .badDimension text →
    ∃ dim, n.DeclaresDim dim ∧ dim.text = text ∧ d.position = dim.span.start

/-- The diagnostic is about exactly one node of the tree, and points at the start of one of
the tokens that this node is made of. Where no more than `2 ^ 32` identities have been handed
out, exactly one node has the same identity as a word of 32 bits. In a source shorter than
`2 ^ 32` bytes, where offsets do not start again from zero, the token has its span inside of the
span of the node. -/
def Diagnostic.PointsInto (d : Diagnostic) (source : String) (tokens : List Token)
    (p : Program) (nodeCount : Nat) : Prop :=
  ∃ n ∈ p.nodes, (p.id :: p.nodes.map Node.id).count n.id = 1 ∧
    (nodeCount ≤ 2 ^ 32 →
      ((p.id :: p.nodes.map Node.id).map NodeId.word).count n.id.word = 1) ∧
    ∃ us t, us <:+: tokens ∧ (Piece.node n).Covers us ∧ t ∈ us ∧ d.PointsAt n t ∧
      (source.utf8ByteSize < 2 ^ 32 → t.span.Inside n.span)

namespace Typing

/-- A node is blamed for other causes than a dimension. -/
theorem Blame.ne_badDimension {r : Registry} {c : Context} {n : Node} {cause : Cause}
    (h : Blame r c n cause) (text : String) : cause ≠ .badDimension text := by
  rintro rfl
  cases h with
  | name hlookup => exact absurd (lookupWithin_error _ _ hlookup) (by simp)
  | operand hop => exact absurd (checkOperand_error hop) (by simp)
  | operands hop => exact absurd (checkOperands_error hop) (by simp)
  | callee hcallee => exact absurd (lookupFunction_error hcallee) (by simp)

/-- What a node can be the reason for points at one of its tokens. -/
theorem Faults.pointsAt {r : Registry} {c : Context} {n : Node} {d : Diagnostic}
    {us : List Token} (h : Faults r c n (.diagnostic d)) (hcovers : (Piece.node n).Covers us)
    (hrow : Piece.Row n.inner us) :
    ∃ t ∈ us, d.PointsAt n t := by
  cases h with
  | blame hblame =>
    obtain ⟨t, ht, hstart⟩ := hcovers.exists_start
    have hcause := hblame.ne_badDimension
    exact ⟨t, ht, rfl, hstart, fun _ => rfl, fun text htext => absurd htext (hcause text)⟩
  | @dimension dim hdim _ =>
    obtain ⟨t, ht, hstart⟩ := hrow.exists_dimStart hdim
    refine ⟨t, ht, rfl, hstart, fun hcause => absurd rfl (hcause dim.text), ?_⟩
    intro text htext
    exact ⟨dim, Node.declaresDim hdim, Cause.badDimension.inj htext, rfl⟩

/-- A rejected program is pointed at in a node of its tree, at one of the tokens of this node. -/
theorem typeCheck_pointsAt {tokens : List Token} {file : String} {p : Program} {c : Cursor}
    {withBuiltins : Bool} {d : Diagnostic} {r : Registry} (hparse : parse tokens file = .ok p c)
    (hcheck : typeCheck withBuiltins p = (.error (.diagnostic d), r)) :
    ∃ n ∈ p.nodes, ∃ us t, us <:+: Token.content tokens ∧ (Piece.node n).Covers us ∧ t ∈ us ∧
      d.PointsAt n t := by
  obtain ⟨⟨place, n⟩, hplace, s, _, hfault⟩ := typeCheck_faults hcheck
  have hn : n ∈ p.nodes := by
    rw [← p.map_places]
    exact List.mem_map_of_mem hplace
  obtain ⟨us, hus, hcovers, hrow⟩ := (parse_lays hparse).2 n hn
  obtain ⟨t, ht, hpoints⟩ := hfault.pointsAt hcovers hrow
  exact ⟨n, hn, us, t, hus, hcovers, ht, hpoints⟩

/-- **A rejected program is pointed at inside of a node.** Of a source that is read as a
program, checking fails with a diagnostic that points into the tree: at where a node starts, or
if a dimension is to blame, at where that dimension of the node does. -/
theorem typeCheck_points_into {source file file' : String} {tokens : List Token} {p : Program}
    {c : Cursor} {withBuiltins : Bool} {failure : Failure} {r : Registry}
    (hscan : tokenize source file = .ok tokens) (hparse : parse tokens file' = .ok p c)
    (hcheck : typeCheck withBuiltins p = (.error failure, r)) :
    ∃ d, failure = .diagnostic d ∧ d.PointsInto source tokens p c.nodeCount := by
  obtain ⟨d, rfl⟩ : ∃ d, failure = .diagnostic d := by
    cases failure with
    | diagnostic d => exact ⟨d, rfl⟩
    | dangling => exact absurd (congrArg Prod.fst hcheck) (typeCheck_named withBuiltins p)
  obtain ⟨n, hn, us, t, hus, hcovers, ht, hpoints⟩ := typeCheck_pointsAt hparse hcheck
  obtain ⟨before, last, rfl, hlast, hlexical⟩ := tokenize_ok hscan
  rw [Token.content_eq (fun t ht => (hlexical t ht).1) hlast] at hus
  have hid : n.id ∈ p.id :: p.nodes.map Node.id :=
    List.mem_cons_of_mem _ (List.mem_map_of_mem hn)
  refine ⟨d, rfl, n, hn, ?_, fun hcount => ?_, us, t,
    hus.trans (List.prefix_append _ _).isInfix, hcovers, ht, hpoints, fun hsize => ?_⟩
  · exact List.count_eq_one_of_mem (parse_nodup hparse) hid
  · exact List.count_eq_one_of_mem (parse_nodup_words hparse hcount) (List.mem_map_of_mem hid)
  · exact hcovers.token_inside ((tokenize_ordered hsize hscan).mono hus) ht

/-- The second dimension of a variable is negative:

```
bool b; int a[2][-3];
```
-/
def badExtentSource : String :=
  "bool b; int a[2][-3];"

/-- A constant is assigned to:

```
const int n = 1; void f() { n = 2; }
```
-/
def constantTargetSource : String :=
  "const int n = 1; void f() \x7b n = 2; \x7d"

theorem typeCheck_points_into_sources :
    (∃ tokens p c d r, tokenize badExtentSource = .ok tokens ∧ parse tokens "shell" = .ok p c ∧
      typeCheck true p = (.error (.diagnostic d), r) ∧ d.cause = .badDimension "-3" ∧
      d.PointsInto badExtentSource tokens p c.nodeCount) ∧
    ∃ tokens p c d r, tokenize constantTargetSource = .ok tokens ∧
      parse tokens "shell" = .ok p c ∧ typeCheck true p = (.error (.diagnostic d), r) ∧
      d.cause = .notAssignable "n" ∧ d.PointsInto constantTargetSource tokens p c.nodeCount := by
  have hsource : ∀ source cause, sourceCause? true source = some cause →
      ∃ tokens p c d r, tokenize source = .ok tokens ∧ parse tokens "shell" = .ok p c ∧
        typeCheck true p = (.error (.diagnostic d), r) ∧ d.cause = cause ∧
        d.PointsInto source tokens p c.nodeCount := by
    intro source cause hrejected
    obtain ⟨p, d, r, hp, hcheck, hcause⟩ := typeCheck_of_sourceCause? true source hrejected
    obtain ⟨tokens, c, hscan, hparse⟩ := exists_of_readSource? hp
    obtain ⟨d', hd, hpoints⟩ := typeCheck_points_into hscan hparse hcheck
    obtain rfl := Failure.diagnostic.inj hd
    exact ⟨tokens, p, c, d, r, hscan, hparse, hcheck, hcause, hpoints⟩
  exact ⟨hsource badExtentSource _ (by decide +kernel),
    hsource constantTargetSource _ (by decide +kernel)⟩

/-! ### Offsets that start again from zero -/

/-- The text with so many blanks in front of it. -/
def indented (blanks : Nat) (text : String) : String :=
  String.ofList (List.replicate blanks ' ') ++ text

theorem width_replicate_blank (n : Nat) : width (List.replicate n ' ') = n := by
  induction n with
  | zero => rfl
  | succ n ih =>
    rw [List.replicate_succ, Text.width_cons, ih]
    exact Nat.add_comm 1 n

/-- Blanks in front only move what is scanned. -/
theorem tokenize_indented {blanks : Nat} {text : String} (hblanks : blanks ≠ 0)
    (htext : ∀ c, text.toList.head? = some c → isBlank c = false) (file : String) :
    tokenize (indented blanks text) file = Token.scan file blanks text.toList := by
  have hgap : List.replicate blanks ' ' ≠ [] := by
    rw [ne_eq, List.replicate_eq_nil_iff]
    exact hblanks
  have hblank : ∀ c ∈ List.replicate blanks ' ', isBlank c = true := by
    intro c hc
    rw [List.eq_of_mem_replicate hc]
    decide
  unfold tokenize indented
  rw [String.toList_append, String.toList_ofList, Token.scan_blanks hgap hblank htext,
    width_replicate_blank, Nat.zero_add]

/-- A span of the file `shell`. -/
def shellSpan (start stop : Nat) : Span :=
  ⟨⟨start, "shell"⟩, ⟨stop, "shell"⟩⟩

/-- The tokens of `int a[0];` behind 4294967290 blanks. The number starts at byte `2 ^ 32`, so
from there on offsets are counted from zero again. -/
def farTokens : List Token :=
  [⟨.kwInt32, "int", shellSpan 4294967290 4294967293⟩,
    ⟨.identifier, "a", shellSpan 4294967294 4294967295⟩,
    ⟨.openBracket, "[", shellSpan 4294967295 0⟩,
    ⟨.integerLiteral, "0", shellSpan 0 1⟩,
    ⟨.closeBracket, "]", shellSpan 1 2⟩,
    ⟨.semicolon, ";", shellSpan 2 3⟩,
    .endOfInput ⟨3, "shell"⟩]

/-- What is read from these tokens. -/
def farProgram : Program :=
  ⟨⟨0⟩, [.decl ⟨⟨2⟩, false, .int32,
    [⟨⟨1⟩, "a", [⟨"0", shellSpan 0 1⟩], none, shellSpan 4294967294 2, none⟩],
    shellSpan 4294967290 3⟩], shellSpan 4294967290 3⟩

instance (s t : Span) : Decidable (s.Inside t) :=
  inferInstanceAs (Decidable (t.start.offset ≤ s.start.offset ∧ s.stop.offset ≤ t.stop.offset))

/-- In a source of more than `2 ^ 32` bytes, a diagnostic may point at no token inside of the node
that it is about: here it points at the offset zero, for a definition that starts at 4294967294. -/
theorem typeCheck_points_outside :
    tokenize (indented 4294967290 "int a[0];") = .ok farTokens ∧
    (∃ c, parse farTokens "shell" = .ok farProgram c) ∧
    ∃ d r, typeCheck true farProgram = (.error (.diagnostic d), r) ∧
      d.cause = .badDimension "0" ∧ d.position.offset = 0 ∧
      (∃ n ∈ farProgram.nodes, d.node = some n.id ∧ n.span.start.offset = 4294967294) ∧
      ¬∃ n ∈ farProgram.nodes, d.node = some n.id ∧
        ∃ t ∈ farTokens, d.position = t.span.start ∧ t.span.Inside n.span := by
  refine ⟨?_, ?_, ?_⟩
  · have hhead : ∀ c, "int a[0];".toList.head? = some c → isBlank c = false := by
      intro c hc
      obtain rfl : 'i' = c := Option.some.inj hc
      decide
    rw [tokenize_indented (by decide) hhead]
    decide +kernel
  · exact ⟨_, rfl⟩
  · have hrejection : rejection? true farProgram =
        some ⟨.badDimension "0", ⟨0, "shell"⟩, some ⟨1⟩⟩ := by decide +kernel
    obtain ⟨r, hcheck⟩ := typeCheck_of_rejection? hrejection
    exact ⟨_, r, hcheck, rfl, rfl, by decide +kernel, by decide +kernel⟩

end Typing

end CactLang
