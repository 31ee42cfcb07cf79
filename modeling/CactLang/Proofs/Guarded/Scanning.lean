import CactLang.Proofs.Partition
import CactLang.Token.ByteCursor

/-!
# Scanning by byte offsets

A byte cursor cuts its source at offsets, and a cut that is out of range or falls into a
character is refused. `scan?` makes tokens in this way: it looks at the text from the cursor
on, and moves the cursor on by the width of a lexeme.

> `scan?_eq`: nothing is refused, and the tokens are those of the text.

The cursor always stands where a lexeme ends, and there the source can be cut.
-/

namespace CactLang

open Text (width width_append dropBytes?)

/-- The sum, if a 64-bit word holds it. -/
def sum64? (m n : Nat) : Option Nat :=
  if m + n < 2 ^ 64 then some (m + n) else none

theorem sum64?_of_lt {m n : Nat} (h : m + n < 2 ^ 64) : sum64? m n = some (m + n) :=
  if_pos h

/-! ## Cutting at a width -/

theorem Text.dropBytes?_width (taken rest : List Char) :
    dropBytes? (taken ++ rest) (width taken) = some rest := by
  induction taken with
  | nil => cases rest <;> rfl
  | cons c taken ih =>
    obtain ⟨n, hn⟩ := Nat.exists_eq_succ_of_ne_zero (Nat.pos_iff_ne_zero.mp c.utf8Size_pos)
    have hwidth : width (c :: taken) = n + width taken + 1 := by
      rw [Text.width_cons, hn]
      omega
    have hdrop : n + width taken + 1 - c.utf8Size = width taken := by omega
    rw [hwidth, List.cons_append, dropBytes?, if_pos (by omega), hdrop]
    exact ih

namespace ByteCursor

theorem offsetAfter?_of_lt {c : ByteCursor} {bytes : Nat} (h : c.offset + bytes < 2 ^ 64) :
    c.offsetAfter? bytes = some (c.offset + bytes) :=
  sum64?_of_lt h

theorem advance?_eq_some {c next : ByteCursor} {bytes : Nat} (h : c.advance? bytes = some next) :
    next = { c with offset := c.offset + bytes } := by
  unfold advance? offsetAfter? at h
  split at h
  next => exact (Option.some.inj h).symm
  next => cases h

/-- A cursor that reads something and moves on by a lexeme comes nearer to the end. -/
theorem advance?_decreases {c next : ByteCursor} {rest : List Char} {l : Lexeme}
    (hend : ¬c.isAtEnd = true) (hl : Lexeme.first? rest = some l)
    (hnext : c.advance? (width l.text) = some next) :
    width next.source - next.offset < width c.source - c.offset := by
  have hoffset : c.offset < width c.source := by
    unfold isAtEnd at hend
    simpa using hend
  have hne : l.text ≠ [] := by
    cases rest with
    | nil => cases hl
    | cons => exact Lexeme.text_ne_nil hl
  have hpos : 0 < width l.text := Nat.pos_of_ne_zero fun hzero => hne (Text.width_eq_zero hzero)
  rw [advance?_eq_some hnext]
  dsimp only
  omega

/-- The tokens from the cursor on, unless a cut or an offset is out of range. -/
def scan? (c : ByteCursor) : Option (Except Diagnostic (List Token)) :=
  if _hend : c.isAtEnd then do
    let span ← c.spanOf? 0
    return .ok [⟨.eof, "EOF", span⟩]
  else
    match c.remainder? with
    | none => none
    | some rest =>
      match _hclaim : Lexeme.first? rest with
      | none => do
        return .error ⟨.unrecognised (String.singleton (← c.peek?)), c.position, none⟩
      | some lexeme =>
        match _hnext : c.advance? (width lexeme.text) with
        | none => none
        | some next => do
          let span ← c.spanOf? (width lexeme.text)
          let token? := lexeme.kind.map fun kind => ⟨kind, String.ofList lexeme.text, span⟩
          let tokens ← next.scan?
          return tokens.map (token?.toList ++ ·)
termination_by width c.source - c.offset
decreasing_by exact advance?_decreases _hend _hclaim _hnext

section

variable {c : ByteCursor} {rest : List Char}

theorem scan?_of_none (hend : ¬c.isAtEnd = true) (hrest : c.remainder? = some rest)
    (hnone : Lexeme.first? rest = none) :
    c.scan? = some (.error ⟨.unrecognised (String.singleton (rest.headD '\x00')), c.position,
      none⟩) := by
  rw [scan?, dif_neg hend]
  split
  next h => exact absurd (h.symm.trans hrest) (by simp)
  next rest' h =>
    obtain rfl := Option.some.inj (h.symm.trans hrest)
    split
    next => rw [peek?, hrest]; rfl
    next hsome => exact absurd (hnone.symm.trans hsome) (by simp)

theorem scan?_of_some {l : Lexeme} (hend : ¬c.isAtEnd = true) (hrest : c.remainder? = some rest)
    (hl : Lexeme.first? rest = some l) (hfits : c.offset + width l.text < 2 ^ 64) :
    c.scan? = (scan? { c with offset := c.offset + width l.text }).map
      (·.map ((Token.ofLexeme? c.file c.offset l).toList ++ ·)) := by
  rw [scan?, dif_neg hend]
  split
  next h => exact absurd (h.symm.trans hrest) (by simp)
  next rest' h =>
    obtain rfl := Option.some.inj (h.symm.trans hrest)
    split
    next hnone => exact absurd (hnone.symm.trans hl) (by simp)
    next l' hl' =>
      obtain rfl := Option.some.inj (hl'.symm.trans hl)
      split
      next hnone =>
        rw [advance?, offsetAfter?_of_lt hfits] at hnone
        cases hnone
      next next hnext =>
        rw [advance?_eq_some hnext, spanOf?, offsetAfter?_of_lt hfits]
        cases scan? { c with offset := c.offset + width l'.text } <;> rfl

end

/-- **Scanning by offsets refuses nothing.** From where a lexeme ends, the tokens are those of
the text that follows. -/
theorem scan?_eq {file : String} {source : List Char} (hsize : width source < 2 ^ 64)
    (offset : Nat) (text : List Char) :
    ∀ taken, source = taken ++ text → width taken = offset →
      scan? ⟨source, file, offset⟩ = some (Token.scan file offset text) := by
  have hremainder : ∀ {taken text : List Char}, source = taken ++ text →
      remainder? ⟨source, file, width taken⟩ = some text := by
    rintro taken text rfl
    exact Text.dropBytes?_width taken text
  have hend : ∀ {taken text : List Char} {c : Char}, source = taken ++ c :: text →
      ¬isAtEnd ⟨source, file, width taken⟩ = true := by
    rintro taken text c rfl
    have hc := c.utf8Size_pos
    simp only [isAtEnd, width_append, Text.width_cons, decide_eq_true_eq]
    omega
  -- the text left is what follows the bytes taken, and these are as many as the offset says
  induction offset, text using Token.scan.induct with
  | case1 offset =>
    intro taken hsource hoffset
    rw [List.append_nil] at hsource
    subst hsource hoffset
    have hdone : isAtEnd ⟨source, file, width source⟩ = true := by simp [isAtEnd]
    rw [scan?, dif_pos hdone, spanOf?, offsetAfter?_of_lt (by simpa using hsize), Token.scan]
    rfl
  | case2 offset c text hnone =>
    intro taken hsource hoffset
    subst hoffset
    rw [scan?_of_none (hend hsource) (hremainder hsource) hnone, Token.scan_of_none hnone]
    rfl
  | case3 offset c text l hfirst bytes ih =>
    intro taken hsource hoffset
    subst hoffset
    have happend := Lexeme.text_append_rest hfirst
    -- the lexeme is a part of the source, whose width fits
    have hfits : width taken + width l.text < 2 ^ 64 := by
      rw [hsource, ← happend, width_append, width_append] at hsize
      omega
    rw [scan?_of_some (hend hsource) (hremainder hsource) hfirst hfits, Token.scan_cons hfirst,
      ih (taken ++ l.text) (by rw [hsource, List.append_assoc, happend]) (width_append _ _)]
    rfl

end ByteCursor

end CactLang
