import CactLang.Proofs.Guarded.Grammar
import CactLang.Proofs.Guarded.Handles
import CactLang.Proofs.Guarded.Report
import CactLang.Proofs.Guarded.Typing

/-!
# What stays in range

A source is cut at byte offsets, tokens are looked up by place, checking follows indices and
handles, and a report adds up widths. All of this is in range, whatever the input is:

> `phases_stay_in_range`: for every source and every list of tokens that is not too long, each
> phase does what it does with all of its ranges checked.

The one thing that is refused is a report whose caret stands too far right. That does happen:

> `wideLine_refused`: a character that starts no token, after so many semicolons.
-/

namespace CactLang

open Text (width width_append)
open Typing (typeCheck)

/-! ## Sizes -/

theorem Token.scan_length_le {file : String} (offset : Nat) (text : List Char) :
    ∀ tokens, scan file offset text = .ok tokens → tokens.length ≤ width text + 1 := by
  induction offset, text using scan.induct with
  | case1 offset =>
    intro tokens h
    rw [scan] at h
    rw [← Except.ok.inj h]
    exact Nat.le_refl _
  | case2 offset c text hnone =>
    intro tokens h
    rw [scan_of_none hnone] at h
    cases h
  | case3 offset c text l hfirst bytes ih =>
    intro tokens h
    rw [scan_cons hfirst] at h
    -- A lexeme has a byte at least, and makes one token at most.
    have hpos : 0 < width l.text :=
      Nat.pos_of_ne_zero fun hzero => Lexeme.text_ne_nil hfirst (Text.width_eq_zero hzero)
    have htoken : (ofLexeme? file offset l).toList.length ≤ 1 := by
      cases ofLexeme? file offset l <;> simp
    cases hrest : scan file (offset + width l.text) l.rest with
    | error d =>
      rw [hrest] at h
      cases h
    | ok rest =>
      rw [hrest] at h
      have hle := ih rest hrest
      rw [← Except.ok.inj h, ← Lexeme.text_append_rest hfirst, width_append, List.length_append]
      omega

/-- A source has at most one token for each of its bytes, and the one that ends the input. -/
theorem tokenize_length_le {source file : String} {tokens : List Token}
    (h : tokenize source file = .ok tokens) : tokens.length ≤ source.utf8ByteSize + 1 := by
  rw [Text.utf8ByteSize_eq_width]
  exact Token.scan_length_le 0 source.toList tokens h

/-! ## Inputs -/

/-- The text is an integer literal of some source. -/
def IsNumeral (text : String) : Prop :=
  ∃ source file tokens, tokenize source file = .ok tokens ∧
    ∃ t ∈ tokens, t.kind = .integerLiteral ∧ t.text = text

theorem IsNumeral.unsigned {text : String} (h : IsNumeral text) : '-' ∉ text.toList := by
  obtain ⟨source, file, tokens, htokens, t, ht, hkind, rfl⟩ := h
  exact tokenize_unsigned htokens t ht hkind

/-- The tokens are read, and what was read is checked, with every range checked: places and
identities, indices and numbers, and handles. An index that is out of range would end checking
as a handle does that names nothing, and that does not happen. -/
structure StaysInRange (tokens : List Token) (file : String) : Prop where
  reading : parsed? tokens file = some (parsed tokens file)
  indices : ∀ p c, parse tokens file = .ok p c → ∀ n ∈ p.nodes, n.Guarded
  handles : ∀ p c, parse tokens file = .ok p c →
    ∀ withBuiltins, (typeCheck withBuiltins p).1 ≠ .error .dangling

theorem Token.Unsigned.staysInRange {tokens : List Token} {file : String}
    (h : Token.Unsigned tokens) (hsize : tokens.length ≤ 2 ^ 30) : StaysInRange tokens file where
  reading := parsed?_eq hsize
  indices _ _ hparse := parse_guarded hparse (by omega) h
  handles p _ _ withBuiltins := Typing.typeCheck_named withBuiltins p

/-- **Everything stays in range but the caret of a report.** Every source of less than `2 ^ 30`
bytes is cut between characters, and its tokens are read and checked with every range checked.
So is every list of less than `2 ^ 30` tokens whose integer literals are those of sources. Of the
reports on a source, those that break off are refused. -/
theorem phases_stay_in_range (source file : String) (tokens : List Token) :
    (source.utf8ByteSize < 2 ^ 30 →
      ByteCursor.scan? ⟨source.toList, file, 0⟩ = some (tokenize source file) ∧
      (∀ ts, tokenize source file = .ok ts → StaysInRange ts file) ∧
      ∀ (d : Diagnostic) (shownFile : String),
        d.reportLines? shownFile source.toList =
          if d.breaksOff source.toList then none
          else some (d.reportLines shownFile source.toList)) ∧
    (tokens.length < 2 ^ 30 → (∀ t ∈ tokens, t.kind = .integerLiteral → IsNumeral t.text) →
      StaysInRange tokens file) := by
  constructor
  · intro hsize
    have hwidth : width source.toList < 2 ^ 30 := by rwa [← Text.utf8ByteSize_eq_width]
    refine ⟨?_, fun ts hts => ?_, fun d shownFile => ?_⟩
    · exact ByteCursor.scan?_eq (by omega) 0 source.toList [] rfl rfl
    · have hle := tokenize_length_le hts
      exact (tokenize_unsigned hts).staysInRange (by omega)
    · exact d.reportLines?_eq shownFile (by omega)
  · intro hsize hnumerals
    have hunsigned : Token.Unsigned tokens := fun t ht hkind => (hnumerals t ht hkind).unsigned
    exact hunsigned.staysInRange (Nat.le_of_lt hsize)

/-- A source with comments, and its tokens after a token that ends the input. -/
theorem phases_stay_in_range_commentedSource :
    commentedSource.utf8ByteSize < 2 ^ 30 ∧ ∃ tokens p c,
      tokenize commentedSource = .ok tokens ∧ parse tokens "shell" = .ok p c ∧
      ByteCursor.scan? ⟨commentedSource.toList, "shell", 0⟩ = some (.ok tokens) ∧
      StaysInRange tokens "shell" ∧
      StaysInRange (.endOfInput ⟨0, "shell"⟩ :: tokens) "shell" := by
  have hsize : commentedSource.utf8ByteSize < 2 ^ 30 := by decide +kernel
  obtain ⟨tokens, p, c, htokens, hparse⟩ :=
    exists_of_readsSource commentedSource (by decide +kernel)
  have hbytes : commentedSource.utf8ByteSize = 114 := by decide +kernel
  have hle := tokenize_length_le htokens
  obtain ⟨hsource, hlist⟩ := phases_stay_in_range commentedSource "shell"
    (.endOfInput ⟨0, "shell"⟩ :: tokens)
  obtain ⟨hscan, hrange, _⟩ := hsource hsize
  refine ⟨hsize, tokens, p, c, htokens, hparse, by rw [hscan, htokens], hrange tokens htokens, ?_⟩
  refine hlist (by rw [List.length_cons]; omega) fun t ht hkind => ?_
  rcases List.mem_cons.mp ht with rfl | ht
  · cases hkind
  · exact ⟨commentedSource, "shell", tokens, htokens, t, ht, hkind, rfl⟩

/-! ## A report that breaks off -/

theorem Line.find?_of_notMem {text : List Char} {offset : Nat} (h : '\n' ∉ text)
    (hoffset : offset < width text) : find? text offset = some ⟨1, text, offset⟩ := by
  have hne : text ≠ [] := by
    rintro rfl
    exact absurd hoffset (Nat.not_lt_zero _)
  have hlocate : locate? offset 1 0 [text] = some ⟨1, text, offset⟩ := by
    rw [locate?, if_pos (by omega), Nat.sub_zero]
  unfold find?
  rw [if_neg (by omega), split_of_notMem h hne]
  dsimp only
  rw [hlocate]

/-- A line with a character that starts no token, after `n` semicolons. -/
def wideLine (n : Nat) : List Char :=
  List.replicate n ';' ++ ['@']

theorem width_wideLine (n : Nat) : width (wideLine n) = n + 1 := by
  induction n with
  | zero => rfl
  | succ n ih =>
    show ';'.utf8Size + width (wideLine n) = n + 1 + 1
    rw [ih, show ';'.utf8Size = 1 from rfl, Nat.add_comm]

theorem Token.scan_wideLine (file : String) (n : Nat) :
    ∀ offset, scan file offset (wideLine n) =
      .error ⟨.unrecognised "@", Position.ofBytes file (offset + n), none⟩ := by
  induction n with
  | zero =>
    intro offset
    have hnone : Lexeme.first? ['@'] = none := by decide +kernel
    rw [wideLine, List.replicate_zero, List.nil_append, scan_of_none hnone]
    rfl
  | succ n ih =>
    intro offset
    have hfirst : Lexeme.first? (';' :: wideLine n) =
        some ⟨some .semicolon, [';'], wideLine n⟩ := rfl
    show scan file offset (';' :: wideLine n) = _
    rw [scan_cons hfirst, ih, show width [';'] = 1 from rfl, Nat.add_assoc, Nat.add_comm 1]
    rfl

theorem breaksOff_wideLine {file : String} {n : Nat} {cause : Cause} (hn : 0 < n)
    (hsize : n < 2 ^ 32) :
    Diagnostic.breaksOff ⟨cause, Position.ofBytes file n, none⟩ (wideLine n) = true ↔
      Diagnostic.widestField ≤ n := by
  have hnewline : '\n' ∉ wideLine n := by
    unfold wideLine
    simp [List.mem_replicate]
  have hfind : Line.find? (wideLine n) n = some ⟨1, wideLine n, n⟩ :=
    Line.find?_of_notMem hnewline (by rw [width_wideLine]; omega)
  have hcolumn : Diagnostic.shownColumn ⟨1, wideLine n, n⟩ = n := by
    obtain ⟨m, rfl⟩ := Nat.exists_eq_succ_of_ne_zero (Nat.pos_iff_ne_zero.mp hn)
    rfl
  rw [Position.ofBytes_eq hsize, Diagnostic.breaksOff_iff, hfind]
  refine ⟨?_, fun hwide => ⟨_, rfl, by rwa [hcolumn]⟩⟩
  rintro ⟨line, hline, hwide⟩
  rwa [← Option.some.inj hline, hcolumn] at hwide

/-- **A report can break off.** -/
theorem wideLine_refused :
    ∃ d, tokenize (String.ofList (wideLine Diagnostic.widestField)) = .error d ∧
      d.reportLines? "shell" (wideLine Diagnostic.widestField) = none := by
  have hsize : width (wideLine Diagnostic.widestField) + 1 < 2 ^ 64 := by
    rw [width_wideLine]
    decide
  refine ⟨⟨.unrecognised "@", Position.ofBytes "shell" Diagnostic.widestField, none⟩, ?_, ?_⟩
  · rw [tokenize, String.toList_ofList, Token.scan_wideLine, Nat.zero_add]
  · rw [Diagnostic.reportLines?_eq _ "shell" hsize, if_pos]
    exact (breaksOff_wideLine (by decide) (by decide)).mpr (Nat.le_refl _)

end CactLang
