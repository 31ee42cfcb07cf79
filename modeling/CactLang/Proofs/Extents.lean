import CactLang.Proofs.Building
import CactLang.Proofs.Partition
import CactLang.Proofs.RoundTrip

/-!
# Where the pieces of a tree stand

A piece covers tokens if its span goes from the start of the first to the end of the last of
them, and they are the piece written out. Pieces stand in a row if each covers tokens of its
own, one after the other.

> What is parsed stands in a row, and what stands in a node does so in the tokens that the
> node covers.

The tokens of a source come one after the other as well, so spans nest as the nodes do: what
stands in a node has a span inside of the span of the node, and neighbours do not overlap.
-/

namespace CactLang

/-! ## Spans -/

namespace Span

/-- The span has a byte in it. -/
def IsNonempty (s : Span) : Prop :=
  s.start.offset < s.stop.offset

/-- Every byte of the first span is one of the second. -/
def Inside (s t : Span) : Prop :=
  t.start.offset ≤ s.start.offset ∧ s.stop.offset ≤ t.stop.offset

/-- The second span starts where the first one ends, or later. -/
def Before (s t : Span) : Prop :=
  s.stop.offset ≤ t.start.offset

end Span

/-- The tokens have spans that are not empty and follow each other. -/
structure Token.Ordered (ts : List Token) : Prop where
  nonempty : ∀ t ∈ ts, t.span.IsNonempty
  pairwise : ts.Pairwise fun t u => t.span.Before u.span

namespace Token.Ordered

variable {ts us : List Token} {t first last : Token}

theorem mono (h : Ordered ts) (hus : us <:+: ts) : Ordered us :=
  ⟨fun t ht => h.nonempty t (hus.subset ht), h.pairwise.sublist hus.sublist⟩

theorem start_le (h : Ordered ts) (hfirst : ts.head? = some first) (ht : t ∈ ts) :
    first.span.start.offset ≤ t.span.start.offset := by
  obtain ⟨rest, rfl⟩ := List.head?_eq_some_iff.mp hfirst
  rcases List.mem_cons.mp ht with rfl | ht
  · exact Nat.le_refl _
  · have hbefore : first.span.Before t.span := (List.pairwise_cons.mp h.pairwise).1 t ht
    exact Nat.le_trans (Nat.le_of_lt (h.nonempty first List.mem_cons_self)) hbefore

theorem le_stop (h : Ordered ts) (hlast : ts.getLast? = some last) (ht : t ∈ ts) :
    t.span.stop.offset ≤ last.span.stop.offset := by
  obtain ⟨rest, rfl⟩ := List.getLast?_eq_some_iff.mp hlast
  rcases List.mem_append.mp ht with ht | ht
  · have hbefore : t.span.Before last.span :=
      (List.pairwise_append.mp h.pairwise).2.2 t ht last List.mem_cons_self
    have hnonempty := h.nonempty last (List.mem_append_right _ List.mem_cons_self)
    exact Nat.le_trans hbefore (Nat.le_of_lt hnonempty)
  · rw [List.mem_singleton.mp ht]

end Token.Ordered

/-! ## Pieces in tokens -/

namespace Piece

/-- The piece is made up of the tokens: its span goes from the first to the last of them, and
they are what it is written as. -/
structure Covers (x : Piece) (ts : List Token) : Prop where
  span : ∃ first last, ts.head? = some first ∧ ts.getLast? = some last ∧
    x.span = ⟨first.span.start, last.span.stop⟩
  spelled : Spelled x.parts (ts.map Token.word)

/-- The pieces cover tokens of their own, in this order, with others between them. -/
inductive Row : List Piece → List Token → Prop
  | nil (gap : List Token) : Row [] gap
  | cons {x : Piece} {xs : List Piece} {us rest : List Token} (gap : List Token)
      (hx : x.Covers us) (hxs : Row xs rest) : Row (x :: xs) (gap ++ (us ++ rest))

variable {x : Piece} {xs ys : List Piece} {ts us : List Token}

namespace Covers

theorem isNonempty (h : x.Covers ts) (hts : Token.Ordered ts) : x.span.IsNonempty := by
  obtain ⟨first, last, hfirst, hlast, hspan⟩ := h.span
  have hmem := List.mem_of_head? hfirst
  rw [hspan]
  exact Nat.lt_of_lt_of_le (hts.nonempty first hmem) (hts.le_stop hlast hmem)

/-- What covers some of the tokens stands inside of what covers them all. -/
theorem inside {y : Piece} (h : x.Covers ts) (hy : y.Covers us) (hus : us <:+: ts)
    (hts : Token.Ordered ts) : y.span.Inside x.span := by
  obtain ⟨first, last, hfirst, hlast, hspan⟩ := h.span
  obtain ⟨first', last', hfirst', hlast', hspan'⟩ := hy.span
  rw [hspan, hspan']
  exact ⟨hts.start_le hfirst (hus.subset (List.mem_of_head? hfirst')),
    hts.le_stop hlast (hus.subset (List.mem_of_getLast? hlast'))⟩

end Covers

namespace Row

/-- More tokens in front make the first gap longer. -/
theorem append_left (gap : List Token) (h : Row xs ts) : Row xs (gap ++ ts) := by
  cases h with
  | nil => exact .nil _
  | cons gap' hx hxs =>
    rw [← List.append_assoc]
    exact .cons (gap ++ gap') hx hxs

theorem append (hx : Row xs ts) (hy : Row ys us) : Row (xs ++ ys) (ts ++ us) := by
  induction hx with
  | nil gap => exact hy.append_left gap
  | cons gap hx _ ih =>
    rw [List.append_assoc, List.append_assoc, List.cons_append]
    exact .cons gap hx ih

theorem single (h : x.Covers ts) : Row [x] ts := by
  have hrow := Row.cons [] h (.nil [])
  rw [List.nil_append, List.append_nil] at hrow
  exact hrow

/-- Each piece of a row covers some of the tokens. -/
theorem covers (h : Row xs ts) : ∀ x ∈ xs, ∃ us, us <:+: ts ∧ x.Covers us := by
  -- the tokens of a piece lie within those of the row, after a gap and before the rest
  induction h with
  | nil => exact fun _ hx => absurd hx List.not_mem_nil
  | @cons x xs us rest gap hx _ ih =>
    intro y hy
    rcases List.mem_cons.mp hy with rfl | hy
    · exact ⟨us, ⟨gap, rest, by rw [List.append_assoc]⟩, hx⟩
    · obtain ⟨vs, hvs, hcovers⟩ := ih y hy
      refine ⟨vs, hvs.trans ?_, hcovers⟩
      exact ((List.suffix_append us rest).trans (List.suffix_append gap _)).isInfix

/-- The pieces of a row stand one before the other. -/
theorem pairwise (h : Row xs ts) (hts : Token.Ordered ts) :
    xs.Pairwise fun x y => x.span.Before y.span := by
  induction h with
  | nil => exact .nil
  | @cons x xs us rest gap hx hxs ih =>
    have htail : Token.Ordered (us ++ rest) := hts.mono (List.suffix_append gap _).isInfix
    have hrest : Token.Ordered rest := htail.mono (List.suffix_append us rest).isInfix
    refine .cons (fun y hy => ?_) (ih hrest)
    obtain ⟨vs, hvs, hcovers⟩ := hxs.covers y hy
    obtain ⟨_, last, _, hlast, hspan⟩ := hx.span
    obtain ⟨first, _, hfirst, _, hspan'⟩ := hcovers.span
    rw [hspan, hspan']
    exact (List.pairwise_append.mp htail.pairwise).2.2 last (List.mem_of_getLast? hlast)
      first (hvs.subset (List.mem_of_head? hfirst))

end Row

end Piece

/-- The node covers some of the tokens, and in them what stands in the node stands in a
row. -/
def Node.Placed (n : Node) (ts : List Token) : Prop :=
  ∃ us, us <:+: ts ∧ (Piece.node n).Covers us ∧ Piece.Row n.inner us

theorem Node.Placed.mono {n : Node} {ts us : List Token} (h : n.Placed us)
    (hus : us <:+: ts) : n.Placed ts := by
  obtain ⟨vs, hvs, hcovers, hrow⟩ := h
  exact ⟨vs, hvs.trans hus, hcovers, hrow⟩

/-- A dimension written at a node is one of the pieces of the node. -/
theorem Node.dim_mem_inner {n : Node} {dim : Dimension} (h : dim ∈ n.dims) :
    .dim dim ∈ n.inner := by
  cases n with
  | varDef d => exact List.mem_append_left _ (List.mem_map_of_mem h)
  | param p => exact List.mem_map_of_mem h
  | _ => exact absurd h List.not_mem_nil

/-- Spans nest as the nodes do, and neighbours do not overlap. -/
theorem Node.Placed.nests {n : Node} {ts : List Token} (h : n.Placed ts)
    (hts : Token.Ordered ts) :
    n.span.IsNonempty ∧ (∀ x ∈ n.inner, x.span.IsNonempty ∧ x.span.Inside n.span) ∧
      n.inner.Pairwise fun x y => x.span.Before y.span := by
  obtain ⟨us, hus, hcovers, hrow⟩ := h
  have hordered := hts.mono hus
  refine ⟨hcovers.isNonempty hordered, fun x hx => ?_, hrow.pairwise hordered⟩
  obtain ⟨vs, hvs, hx⟩ := hrow.covers x hx
  exact ⟨hx.isNonempty (hordered.mono hvs), hcovers.inside hx hvs hordered⟩

/-! ## Building in tokens -/

namespace Cursor

/-- The tokens were taken from `c` to `d`, the pieces stand in them in a row, and so does
every node of the pieces. -/
structure Lays (c : Cursor) (ts : List Token) (xs : List Piece) (d : Cursor) : Prop where
  takes : c.Takes ts d
  behind : d.behind = (ts.getLast?.map (·.span.stop)).getD c.behind
  row : Piece.Row xs ts
  nodes : ∀ n ∈ xs.flatMap Piece.nodes, n.Placed ts

variable {c d e : Cursor} {ts us : List Token} {xs ys : List Piece} {x : Piece}

namespace Lays

theorem append (hx : c.Lays ts xs d) (hy : d.Lays us ys e) : c.Lays (ts ++ us) (xs ++ ys) e := by
  refine ⟨hx.takes.trans hy.takes, ?_, hx.row.append hy.row, ?_⟩
  · rw [hy.behind, hx.behind, List.getLast?_append]
    cases us.getLast? <;> rfl
  · intro n hn
    rw [List.flatMap_append] at hn
    rcases List.mem_append.mp hn with hn | hn
    · exact (hx.nodes n hn).mono (List.prefix_append ts us).isInfix
    · exact (hy.nodes n hn).mono (List.suffix_append ts us).isInfix

/-- A piece that is made of all that was built covers all tokens that were taken. -/
theorem covers (h : c.Lays ts x.inner d) (hends : x.Ends c d) : x.Covers ts := by
  obtain ⟨ts', htakes, hspelled⟩ := hends.spelled
  have hsame : ts' ++ d.tokens = ts ++ d.tokens := htakes.tokens.symm.trans h.takes.tokens
  obtain rfl : ts' = ts := List.append_cancel_right hsame
  refine ⟨?_, hspelled⟩
  cases hts : ts' with
  | nil =>
    rw [hts] at hspelled
    exact absurd rfl (Piece.ne_nil_of_spelled hspelled)
  | cons first rest =>
    have htokens := h.takes.tokens
    rw [hts] at htokens
    have hfirst : c.current = first := (List.cons.inj htokens).1
    refine ⟨first, (first :: rest).getLast (List.cons_ne_nil _ _), rfl,
      List.getLast?_eq_some_getLast _, ?_⟩
    rw [hends.span, spanFrom, h.behind, hts, List.getLast?_eq_some_getLast (List.cons_ne_nil _ _),
      hfirst]
    rfl

theorem piece (h : c.Lays ts x.inner d) (hends : x.Ends c d) : c.Lays ts [x] (d.skip x) := by
  have hcovers := h.covers hends
  refine ⟨⟨h.takes.tokens, h.takes.inner⟩, h.behind, .single hcovers, ?_⟩
  intro n hn
  rw [List.flatMap_singleton, Piece.nodes_eq] at hn
  rcases List.mem_append.mp hn with hn | hn
  · exact h.nodes n hn
  · cases x with
    | node m =>
      obtain rfl : n = m := List.mem_singleton.mp hn
      exact ⟨ts, List.infix_rfl, hcovers, h.row⟩
    | dim => exact absurd hn List.not_mem_nil
    | target => exact absurd hn List.not_mem_nil

end Lays

/-- What is built stands in the tokens that were taken. -/
theorem Builds.lays (h : c.Builds xs d) (hc : c.Closed) : ∃ ts, c.Lays ts xs d := by
  induction h with
  | none c => exact ⟨[], .none rfl, rfl, .nil [], fun _ hn => absurd hn List.not_mem_nil⟩
  | token hk =>
    exact ⟨_, takes_advance hc hk, behind_advance hc hk, .nil _,
      fun _ hn => absurd hn List.not_mem_nil⟩
  | piece _ hends ih =>
    obtain ⟨ts, hts⟩ := ih hc
    exact ⟨ts, hts.piece hends⟩
  | append hxs _ ihx ihy =>
    obtain ⟨ts, hts⟩ := ihx hc
    obtain ⟨us, hus⟩ := ihy (hxs.closed hc)
    exact ⟨ts ++ us, hts.append hus⟩

end Cursor

/-! ## Programs -/

theorem Token.Stands.stop_le {file : String} {source : List Char} {t : Token}
    (h : t.Stands file source) : t.span.stop.offset ≤ Text.width source := by
  obtain ⟨after, before, hsource, hstart, hstop⟩ := h.slice
  rw [hsource, Text.width_append, Text.width_append, ← hstop, hstart]
  omega

namespace Partition

variable {file : String} {source : List Char} {start stop : Nat} {tokens us : List Token}

theorem tokens_ordered (h : Partition file source start tokens stop) : Token.Ordered tokens :=
  ⟨fun t ht => (h.token t ht).1.nonempty, h.ordered⟩

/-- What covers tokens of a source ends in the source. -/
theorem stop_le {x : Piece} (h : Partition file source start tokens stop) (hx : x.Covers us)
    (hus : us <:+: tokens) : x.span.stop.offset ≤ Text.width source := by
  obtain ⟨_, last, _, hlast, hspan⟩ := hx.span
  rw [hspan]
  exact (h.token last (hus.subset (List.mem_of_getLast? hlast))).1.stop_le

end Partition

/-- What is parsed stands in a row in front of the end of the input. -/
theorem parse_lays {tokens : List Token} {file : String} {p : Program} {c : Cursor}
    (h : parse tokens file = .ok p c) :
    Piece.Row (p.items.map Item.piece) (Token.content tokens) ∧
      ∀ n ∈ p.nodes, n.Placed (Token.content tokens) := by
  obtain ⟨_, hbuilds, _⟩ := parse_builds h
  obtain ⟨_, htokens, _⟩ := parse_ok h
  obtain ⟨ts, hlays⟩ := hbuilds.lays (Cursor.ofTokens_closed tokens file)
  have hsame : ts ++ c.tokens = Token.content tokens ++ c.tokens :=
    hlays.takes.tokens.symm.trans htokens
  obtain rfl := List.append_cancel_right hsame
  rw [p.nodes_eq]
  exact ⟨hlays.row, hlays.nodes⟩

/-- The span of a program goes from the first token to the end of the input. -/
theorem parse_span {before : List Token} {last : Token} {file : String} {p : Program} {c : Cursor}
    (h : parse (before ++ [last]) file = .ok p c) (hbefore : ∀ t ∈ before, t.kind ≠ .eof)
    (hlast : last.kind = .eof) :
    ∀ first ∈ (before ++ [last]).head?, p.span = ⟨first.span.start, last.span.start⟩ := by
  obtain ⟨_, _, hspan⟩ := parse_builds h
  obtain ⟨_, htokens, _⟩ := parse_ok h
  have hcurrent :
      (before ++ [last]).head? = some (Cursor.ofTokens (before ++ [last]) file).current :=
    congrArg List.head? (Cursor.ofTokens_ended hlast).symm
  rw [Token.content_eq hbefore hlast, Cursor.ofTokens_ended hlast] at htokens
  have hend : last = c.current := (List.cons.inj (List.append_cancel_left htokens)).1
  intro first hfirst
  obtain rfl := Option.some.inj (hcurrent.symm.trans hfirst)
  rw [hspan, hend]

/-- **Spans are exact.** What is parsed from a source shorter than `2 ^ 32` bytes stands in a
row, each node covers its tokens, and what stands in a node stands in a row in them. So spans
are not empty and end in the source, what stands in a node has its span inside of that of the
node, and of neighbours one ends before the next one starts. The span of the program goes from
the first token to the end of the input. -/
theorem parse_spans_exact {source file file' : String} {tokens : List Token} {p : Program}
    {c : Cursor} (hsize : source.utf8ByteSize < 2 ^ 32)
    (hscan : tokenize source file = .ok tokens) (hparse : parse tokens file' = .ok p c) :
    ∃ before last, tokens = before ++ [last] ∧ last.kind = .eof ∧
      (∀ first ∈ tokens.head?, p.span = ⟨first.span.start, last.span.start⟩) ∧
      Piece.Row (p.items.map Item.piece) before ∧
      (∀ x ∈ p.items.map Item.piece, x.span.Inside p.span) ∧
      (p.items.map Item.piece).Pairwise (fun x y => x.span.Before y.span) ∧
      ∀ n ∈ p.nodes, n.Placed before ∧
        n.span.IsNonempty ∧ n.span.stop.offset ≤ source.utf8ByteSize ∧
        (∀ x ∈ n.inner, x.span.IsNonempty ∧ x.span.Inside n.span) ∧
        n.inner.Pairwise fun x y => x.span.Before y.span := by
  rw [Text.utf8ByteSize_eq_width] at hsize ⊢
  have hscanned : Scanned file source.toList 0 (tokenize source file) :=
    scan_scanned hsize 0 source.toList [] rfl rfl
  rw [hscan] at hscanned
  obtain ⟨before, rfl, hpartition⟩ := hscanned
  have hordered := hpartition.tokens_ordered
  -- the scanner puts one end of the input behind all tokens, so the others are the content
  have hcontent :
      Token.content (before ++ [.endOfInput ⟨Text.width source.toList, file⟩]) = before :=
    Token.content_eq (fun t ht => (hpartition.token t ht).1.notEnd) rfl
  obtain ⟨hrow, hnodes⟩ := parse_lays hparse
  rw [hcontent] at hrow hnodes
  have hspan := parse_span hparse (fun t ht => (hpartition.token t ht).1.notEnd) rfl
  refine ⟨before, _, rfl, rfl, hspan, hrow, ?_, hrow.pairwise hordered, fun n hn => ?_⟩
  · intro x hx
    -- an item covers tokens, so the program has a first one, at which it starts
    obtain ⟨us, hus, hcovers⟩ := hrow.covers x hx
    obtain ⟨first, _, hfirst, _, hxspan⟩ := hcovers.span
    have hmem := hus.subset (List.mem_of_head? hfirst)
    obtain ⟨t, ht⟩ := Option.isSome_iff_exists.mp
      (List.isSome_head?.mpr (List.ne_nil_of_mem hmem))
    rw [hspan t (by rw [List.head?_append, ht]; rfl)]
    refine ⟨?_, hpartition.stop_le hcovers hus⟩
    rw [hxspan]
    exact hordered.start_le ht hmem
  · obtain ⟨hnonempty, hinner, hpairwise⟩ := (hnodes n hn).nests hordered
    obtain ⟨us, hus, hcovers, _⟩ := hnodes n hn
    exact ⟨hnodes n hn, hnonempty, hpartition.stop_le hcovers hus, hinner, hpairwise⟩

theorem parse_spans_exact_commentedSource :
    commentedSource.utf8ByteSize = 114 ∧ ∃ tokens p c,
      tokenize commentedSource = .ok tokens ∧ parse tokens "shell" = .ok p c ∧
      ∃ before last, tokens = before ++ [last] ∧ last.kind = .eof ∧
        (∀ first ∈ tokens.head?, p.span = ⟨first.span.start, last.span.start⟩) ∧
        Piece.Row (p.items.map Item.piece) before ∧
        (∀ x ∈ p.items.map Item.piece, x.span.Inside p.span) ∧
        (p.items.map Item.piece).Pairwise (fun x y => x.span.Before y.span) ∧
        ∀ n ∈ p.nodes, n.Placed before ∧
          n.span.IsNonempty ∧ n.span.stop.offset ≤ commentedSource.utf8ByteSize ∧
          (∀ x ∈ n.inner, x.span.IsNonempty ∧ x.span.Inside n.span) ∧
          n.inner.Pairwise fun x y => x.span.Before y.span := by
  have hbytes : commentedSource.utf8ByteSize = 114 := by decide +kernel
  obtain ⟨tokens, p, c, hscan, hparse⟩ :=
    exists_of_readsSource commentedSource (by decide +kernel)
  exact ⟨hbytes, tokens, p, c, hscan, hparse,
    parse_spans_exact (by rw [hbytes]; decide) hscan hparse⟩

end CactLang
