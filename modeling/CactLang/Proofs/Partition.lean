import CactLang.Proofs.Patterns

/-!
# Tokens and layout make up the source

Scanning cuts a source into lexemes from left to right and drops the layout. What is left
over between the tokens is therefore layout and nothing else, and every token has the text
that stands at its span.

> `Partition file source start tokens stop`: between the bytes `start` and `stop`, the
> source consists of the tokens and of layout around them.

Scanning gives a partition of the whole source, or of what stands before a character that
starts no lexeme (`tokenize_partitions`). Spans are 32-bit words, so this is said of sources
that are short enough.
-/

namespace CactLang

open Text (width)

/-! ## Places in a text -/

namespace Text

theorem width_eq_zero {text : List Char} (h : width text = 0) : text = [] := by
  cases text with
  | nil => rfl
  | cons c text =>
    have hc := c.utf8Size_pos
    rw [width_cons] at h
    omega

/-- A text is split at a byte in one way only. -/
theorem split_unique {a b a' b' : List Char} (h : a ++ b = a' ++ b')
    (hwidth : width a = width a') : b = b' := by
  induction a generalizing a' with
  | nil =>
    obtain rfl := width_eq_zero hwidth.symm
    exact h
  | cons c a ih =>
    cases a' with
    | nil => cases width_eq_zero hwidth
    | cons c' a' =>
      obtain ⟨rfl, htail⟩ := List.cons.inj h
      rw [width_cons, width_cons] at hwidth
      exact ih htail (Nat.add_left_cancel hwidth)

theorem utf8ByteSize_ofList (text : List Char) :
    (String.ofList text).utf8ByteSize = width text := by
  induction text with
  | nil => rfl
  | cons c text ih =>
    rw [String.ofList_cons, String.utf8ByteSize_append, String.utf8ByteSize_singleton, ih,
      width_cons]

theorem utf8ByteSize_eq_width (source : String) : source.utf8ByteSize = width source.toList := by
  rw [← utf8ByteSize_ofList, String.ofList_toList]

end Text

/-- From byte `a` to byte `b` a source has a text, and `after` follows. -/
def Slice (source : List Char) (a b : Nat) (text after : List Char) : Prop :=
  ∃ before, source = before ++ (text ++ after) ∧ width before = a ∧ a + width text = b

/-! ## Layout -/

/-- Blanks, comments up to a newline or the end, and closed comments, in front of `after`. -/
inductive Layout (after : List Char) : List Char → Prop where
  | nil : Layout after []
  | blanks {run gap : List Char} : run ∈ Pattern.blanks → Layout after gap →
      Layout after (run ++ gap)
  | line {comment gap : List Char} : comment ∈ Pattern.lineComment →
      (∀ c, (gap ++ after).head? = some c → c = '\n') → Layout after gap →
      Layout after (comment ++ gap)
  | block {body gap : List Char} : ¬"*/".toList <:+: body → Layout after gap →
      Layout after ("/*".toList ++ body ++ "*/".toList ++ gap)

/-- A lexeme that is no token is layout in front of what follows it. -/
theorem Lexeme.layout {text : List Char} {l : Lexeme} (h : first? text = some l)
    (hkind : l.kind = none) {gap after : List Char} (hrest : l.rest = gap ++ after)
    (hgap : Layout after gap) : Layout after (l.text ++ gap) := by
  obtain ⟨cls, hcls, hclaim, htext, hk⟩ := exists_class h
  have hcut : ∀ {w rest : List Char}, text = w ++ rest → w.length = cls.claim text →
      l.text = w ∧ rest = gap ++ after := by
    intro w rest hsplit hlength
    have hw : l.text = w := by rw [htext, ← hlength, hsplit, List.take_left]
    have happend := text_append_rest h
    rw [hw, hsplit] at happend
    exact ⟨hw, (List.append_cancel_left happend).symm.trans hrest⟩
  rw [hkind] at hk
  unfold LexemeClass.all at hcls
  rcases List.mem_append.mp hcls with hcls | hcls
  · simp only [List.mem_cons, List.not_mem_nil, or_false] at hcls
    rcases hcls with rfl | rfl | rfl | rfl | rfl | rfl | rfl | rfl
    -- words and numbers are tokens
    iterate 5 cases hk
    · obtain ⟨w, hw, rest, hsplit, hlength⟩ := (Claim.run_munches Text.isBlank).taken text hclaim
      rw [(hcut hsplit hlength).1]
      exact .blanks hw hgap
    · obtain ⟨w, hw, rest, hsplit, hlength, hhead⟩ := Claim.lineComment_taken text hclaim
      obtain ⟨htaken, rfl⟩ := hcut hsplit hlength
      rw [htaken]
      exact .line hw hhead hgap
    · obtain ⟨body, rest, hsplit, hlength, hbody⟩ := Claim.blockComment_taken text hclaim
      rw [(hcut hsplit hlength).1]
      exact .block hbody hgap
  · obtain ⟨row, _, rfl⟩ := List.mem_map.mp hcls
    cases hk

/-! ## Partitions -/

/-- A token has the text of its span, which is not empty and matches a pattern of its kind. -/
structure Token.Stands (file : String) (source : List Char) (t : Token) : Prop where
  file : t.span.start.file = file ∧ t.span.stop.file = file
  nonempty : t.span.start.offset < t.span.stop.offset
  slice : ∃ after, Slice source t.span.start.offset t.span.stop.offset t.text.toList after
  notEnd : t.kind ≠ .eof
  matched : ∃ pattern ∈ Pattern.all, t.text.toList ∈ pattern.language ∧
    pattern.cls.kind t.text.toList = some t.kind

/-- What is not in the tokens: from `start` to the first of them, from the end of each to the
next, and from the last of them to `stop`. -/
def gaps (start : Nat) : List Token → Nat → List (Nat × Nat)
  | [], stop => [(start, stop)]
  | t :: ts, stop => (start, t.span.start.offset) :: gaps t.span.stop.offset ts stop

/-- From `start` to `stop` a source has the tokens, one after the other, and layout in the
gaps. -/
structure Partition (file : String) (source : List Char) (start : Nat) (tokens : List Token)
    (stop : Nat) : Prop where
  token : ∀ t ∈ tokens, t.Stands file source ∧ start ≤ t.span.start.offset
  ordered : tokens.Pairwise fun t u => t.span.stop.offset ≤ u.span.start.offset
  gap : ∀ g ∈ gaps start tokens stop,
    ∃ text after, Slice source g.1 g.2 text after ∧ Layout after text

namespace Partition

variable {file : String} {source : List Char} {start middle stop : Nat} {tokens : List Token}

/-- Where nothing is left, there is an empty gap. -/
theorem nil {before after : List Char} (hsource : source = before ++ after)
    (hstart : width before = start) : Partition file source start [] start where
  token := List.forall_mem_nil _
  ordered := .nil
  gap := by
    rw [gaps, List.forall_mem_singleton]
    exact ⟨[], after, ⟨before, hsource, hstart, rfl⟩, .nil⟩

/-- Only the first gap depends on the start. -/
theorem gaps_eq_cons (tokens : List Token) (stop : Nat) :
    ∃ b others, ∀ start, gaps start tokens stop = (start, b) :: others := by
  cases tokens with
  | nil => exact ⟨stop, [], fun _ => rfl⟩
  | cons t ts => exact ⟨_, _, fun _ => rfl⟩

/-- Layout in front makes the first gap longer. -/
theorem layout {before : List Char} {text : List Char} {l : Lexeme}
    (h : Partition file source (start + width l.text) tokens stop)
    (hsource : source = before ++ text) (hstart : width before = start)
    (hl : Lexeme.first? text = some l) (hkind : l.kind = none) :
    Partition file source start tokens stop := by
  refine ⟨fun t ht => ⟨(h.token t ht).1, ?_⟩, h.ordered, ?_⟩
  · have hle := (h.token t ht).2
    omega
  · obtain ⟨b, others, hgaps⟩ := gaps_eq_cons tokens stop
    have hgap := h.gap
    rw [hgaps, List.forall_mem_cons] at hgap ⊢
    obtain ⟨⟨gap, after, ⟨front, hfront, hwidth, hb⟩, hlayout⟩, hothers⟩ := hgap
    have happend := Lexeme.text_append_rest hl
    -- the gap starts where the lexeme ends
    have hsplit : before ++ l.text ++ l.rest = front ++ (gap ++ after) := by
      rw [List.append_assoc, happend, ← hsource, hfront]
    have hrest : l.rest = gap ++ after :=
      Text.split_unique hsplit (by rw [Text.width_append, hstart, hwidth])
    refine ⟨⟨l.text ++ gap, after, ⟨before, ?_, hstart, ?_⟩,
      Lexeme.layout hl hkind hrest hlayout⟩, hothers⟩
    · rw [hsource, ← happend, hrest, List.append_assoc]
    · rw [Text.width_append, ← hb, Nat.add_assoc]

/-- A token in front starts where the partition does. -/
theorem cons {t : Token} (h : Partition file source t.span.stop.offset tokens stop)
    (ht : t.Stands file source) :
    Partition file source t.span.start.offset (t :: tokens) stop := by
  refine ⟨?_, ?_, ?_⟩
  · refine List.forall_mem_cons.mpr ⟨⟨ht, Nat.le_refl _⟩, fun u hu => ⟨(h.token u hu).1, ?_⟩⟩
    exact Nat.le_trans (Nat.le_of_lt ht.nonempty) (h.token u hu).2
  · exact .cons (fun u hu => (h.token u hu).2) h.ordered
  · rw [gaps, List.forall_mem_cons]
    obtain ⟨after, before, hsource, hwidth, _⟩ := ht.slice
    exact ⟨⟨[], t.text.toList ++ after, ⟨before, hsource, hwidth, rfl⟩, .nil⟩, h.gap⟩

end Partition

/-! ## Scanning -/

/-- An offset that fits a word is kept. -/
theorem Position.ofBytes_eq {file : String} {offset : Nat} (h : offset < 2 ^ 32) :
    Position.ofBytes file offset = ⟨offset, file⟩ := by
  have hmod : offset % Nat.pow 2 32 = offset := Nat.mod_eq_of_lt h
  rw [Position.ofBytes, hmod]

section

variable {file : String} {source before text : List Char} {c : Char} {l : Lexeme} {offset : Nat}

theorem Lexeme.text_ne_nil (hl : first? (c :: text) = some l) : l.text ≠ [] := by
  intro hnil
  have happend := text_append_rest hl
  have hlt := length_rest_lt hl
  rw [hnil, List.nil_append] at happend
  rw [happend] at hlt
  exact Nat.lt_irrefl _ hlt

/-- A lexeme that is a token stands where it was cut off. -/
theorem Lexeme.stands {t : Token} (hsize : width source < 2 ^ 32)
    (hsource : source = before ++ c :: text) (hoffset : width before = offset)
    (hl : first? (c :: text) = some l) (ht : Token.ofLexeme? file offset l = some t) :
    t.Stands file source ∧ t.span.start.offset = offset ∧
      t.span.stop.offset = offset + width l.text := by
  obtain ⟨kind, hkind, rfl⟩ := Option.map_eq_some_iff.mp ht
  have happend := text_append_rest hl
  obtain ⟨pattern, hpattern, hmatch, hk⟩ := exists_pattern hl
  have hpos : 0 < width l.text :=
    Nat.pos_of_ne_zero fun hzero => text_ne_nil hl (Text.width_eq_zero hzero)
  -- the lexeme ends inside of the source, so its offsets fit a word
  have htotal : offset + width l.text ≤ width source := by
    rw [hsource, ← happend, Text.width_append, Text.width_append, hoffset]
    omega
  have hspan : Span.ofBytes file offset (width l.text) =
      ⟨⟨offset, file⟩, ⟨offset + width l.text, file⟩⟩ := by
    rw [Span.ofBytes, Position.ofBytes_eq (by omega), Position.ofBytes_eq (by omega)]
  rw [hspan]
  refine ⟨⟨⟨rfl, rfl⟩, ?_, ?_, ?_, ?_⟩, rfl, rfl⟩
  · exact Nat.lt_add_of_pos_right hpos
  · refine ⟨l.rest, before, ?_, hoffset, ?_⟩
    · rw [String.toList_ofList, happend, hsource]
    · rw [String.toList_ofList]
  · have hlexical : Token.IsLexical ⟨kind, String.ofList l.text, default⟩ := isLexical hl hkind
    exact hlexical.1
  · rw [String.toList_ofList]
    exact ⟨pattern, hpattern, hmatch, hk.symm.trans hkind⟩

/-- A lexeme in front of a partition, whether it is a token or layout. -/
theorem Partition.lexeme {tokens : List Token} {stop : Nat} (hsize : width source < 2 ^ 32)
    (hsource : source = before ++ c :: text) (hoffset : width before = offset)
    (hl : Lexeme.first? (c :: text) = some l)
    (h : Partition file source (offset + width l.text) tokens stop) :
    Partition file source offset ((Token.ofLexeme? file offset l).toList ++ tokens) stop := by
  cases ht : Token.ofLexeme? file offset l with
  | none => exact h.layout hsource hoffset hl (Option.map_eq_none_iff.mp ht)
  | some t =>
    obtain ⟨hstands, hstart, hstop⟩ := Lexeme.stands hsize hsource hoffset hl ht
    rw [← hstop] at h
    rw [← hstart]
    exact h.cons hstands

/-- What scanning a source comes to, from an offset on: the tokens of a partition and the end,
or a partition of what stands before a character that starts no lexeme. -/
def Scanned (file : String) (source : List Char) (offset : Nat) :
    Except Diagnostic (List Token) → Prop
  | .ok tokens => ∃ before, tokens = before ++ [.endOfInput ⟨width source, file⟩] ∧
      Partition file source offset before (width source)
  | .error d => ∃ before front c rest,
      d = ⟨.unrecognised (String.singleton c), ⟨width front, file⟩, none⟩ ∧
      source = front ++ c :: rest ∧ Partition file source offset before (width front) ∧
      Lexeme.first? (c :: rest) = none

theorem scan_scanned (hsize : width source < 2 ^ 32) (offset : Nat) (text : List Char) :
    ∀ before, source = before ++ text → width before = offset →
      Scanned file source offset (Token.scan file offset text) := by
  -- what is before the text left has as many bytes as the offset says
  induction offset, text using Token.scan.induct with
  | case1 offset =>
    intro before hsource hoffset
    rw [List.append_nil] at hsource
    subst hsource hoffset
    rw [Token.scan, Position.ofBytes_eq hsize]
    exact ⟨[], rfl, .nil (List.append_nil source).symm rfl⟩
  | case2 offset c text hnone =>
    intro before hsource hoffset
    subst hoffset
    have hscan : Token.scan file (width before) (c :: text) =
        .error ⟨.unrecognised (String.singleton c), ⟨width before, file⟩, none⟩ := by
      -- a position keeps 32 bits, enough for a place in this source
      have hlt : width before < 2 ^ 32 := by
        rw [hsource, Text.width_append] at hsize
        omega
      rw [Token.scan_of_none hnone, Position.ofBytes_eq hlt]
    rw [hscan]
    exact ⟨[], before, c, text, rfl, hsource, .nil hsource rfl, hnone⟩
  | case3 offset c text l hfirst bytes ih =>
    intro before hsource hoffset
    rw [Token.scan_cons hfirst]
    have happend := Lexeme.text_append_rest hfirst
    have hrest := ih (before ++ l.text) (by rw [hsource, List.append_assoc, happend])
      (by rw [Text.width_append, hoffset])
    cases hscan : Token.scan file (offset + width l.text) l.rest with
    | error d =>
      rw [hscan] at hrest
      obtain ⟨later, front, c', rest, hd, hfront, hpartition, hnone⟩ := hrest
      exact ⟨_, front, c', rest, hd, hfront, hpartition.lexeme hsize hsource hoffset hfirst, hnone⟩
    | ok tokens =>
      rw [hscan] at hrest
      obtain ⟨later, rfl, hpartition⟩ := hrest
      exact ⟨_, (List.append_assoc ..).symm, hpartition.lexeme hsize hsource hoffset hfirst⟩

end

/-- **Tokens and layout make up the source.** Of a source shorter than `2 ^ 32` bytes:

* if there are tokens, the last one is the end of the input, at the end of the source, and the
  others are a partition of the source: they have the texts of their spans, which are not
  empty and follow each other, and there is layout in the gaps;
* if there are none, the diagnostic has the character at an offset, what stands before it is
  partitioned in the same way, and no pattern matches there. -/
theorem tokenize_partitions (source file : String) (hsize : source.utf8ByteSize < 2 ^ 32) :
    (∀ tokens, tokenize source file = .ok tokens →
      ∃ before, tokens = before ++ [.endOfInput ⟨source.utf8ByteSize, file⟩] ∧
        Partition file source.toList 0 before source.utf8ByteSize) ∧
    (∀ d, tokenize source file = .error d →
      ∃ before front c rest,
        d = ⟨.unrecognised (String.singleton c), ⟨width front, file⟩, none⟩ ∧
        source.toList = front ++ c :: rest ∧
        Partition file source.toList 0 before (width front) ∧
        ∀ pattern ∈ Pattern.all, ∀ w ∈ pattern.language, ¬w <+: c :: rest) := by
  rw [Text.utf8ByteSize_eq_width] at hsize ⊢
  have hscanned : Scanned file source.toList 0 (tokenize source file) :=
    scan_scanned hsize 0 source.toList [] rfl rfl
  refine ⟨fun tokens h => ?_, fun d h => ?_⟩
  · rw [h] at hscanned
    exact hscanned
  · rw [h] at hscanned
    obtain ⟨before, front, c, rest, hd, hsource, hpartition, hnone⟩ := hscanned
    exact ⟨before, front, c, rest, hd, hsource, hpartition,
      fun pattern hpattern w hw => Lexeme.no_pattern hnone hpattern hw⟩

/-- A closed comment with a character of two bytes, and an open one, which is two operators. -/
def commentsSource : String :=
  "a/*é*//*b"

/-- Its tokens, without the end of the input. -/
def commentsTokens : List Token :=
  [⟨.identifier, "a", ⟨⟨0, "f"⟩, ⟨1, "f"⟩⟩⟩, ⟨.slash, "/", ⟨⟨7, "f"⟩, ⟨8, "f"⟩⟩⟩,
    ⟨.star, "*", ⟨⟨8, "f"⟩, ⟨9, "f"⟩⟩⟩, ⟨.identifier, "b", ⟨⟨9, "f"⟩, ⟨10, "f"⟩⟩⟩]

/-- A blank of two bytes, and a letter that starts no word. -/
def strangeSource : String :=
  "x\u00a0é"

theorem tokenize_partitions_sources :
    (commentsSource.utf8ByteSize = 10 ∧
      tokenize commentsSource "f" = .ok (commentsTokens ++ [.endOfInput ⟨10, "f"⟩]) ∧
      Partition "f" commentsSource.toList 0 commentsTokens 10) ∧
    (strangeSource.utf8ByteSize = 5 ∧ ∃ tokens front rest,
      tokenize strangeSource "f" = .error ⟨.unrecognised "é", ⟨3, "f"⟩, none⟩ ∧
      strangeSource.toList = front ++ 'é' :: rest ∧ width front = 3 ∧
      Partition "f" strangeSource.toList 0 tokens 3 ∧
      ∀ pattern ∈ Pattern.all, ∀ w ∈ pattern.language, ¬w <+: 'é' :: rest) := by
  refine ⟨?_, ?_⟩
  · have hbytes : commentsSource.utf8ByteSize = 10 := by decide +kernel
    have htokens : tokenize commentsSource "f" =
        .ok (commentsTokens ++ [.endOfInput ⟨10, "f"⟩]) := by decide +kernel
    obtain ⟨hok, _⟩ := tokenize_partitions commentsSource "f" (by rw [hbytes]; decide)
    obtain ⟨tokens, hsplit, hpartition⟩ := hok _ htokens
    obtain ⟨rfl, _⟩ := List.append_inj' hsplit rfl
    rw [hbytes] at hpartition
    exact ⟨hbytes, htokens, hpartition⟩
  · have hbytes : strangeSource.utf8ByteSize = 5 := by decide +kernel
    have hd : tokenize strangeSource "f" = .error ⟨.unrecognised "é", ⟨3, "f"⟩, none⟩ := by
      decide +kernel
    obtain ⟨_, herror⟩ := tokenize_partitions strangeSource "f" (by rw [hbytes]; decide)
    obtain ⟨tokens, front, c, rest, heq, hsource, hpartition, hnone⟩ := herror _ hd
    obtain ⟨hcause, hposition, _⟩ := Diagnostic.mk.inj heq
    -- the failure tells the place and the character
    have hwidth : 3 = width front := congrArg Position.offset hposition
    have hchar : "é".toList = (String.singleton c).toList :=
      congrArg String.toList (Cause.unrecognised.inj hcause)
    obtain rfl : c = 'é' := by simpa [eq_comm] using hchar
    rw [← hwidth] at hpartition
    exact ⟨hbytes, tokens, front, rest, hd, hsource, hwidth.symm, hpartition, hnone⟩

end CactLang
