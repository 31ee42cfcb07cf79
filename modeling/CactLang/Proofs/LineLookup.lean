import CactLang.Source.Line
import Mathlib.Data.List.DropRight

/-!
# The line of every offset

A line is found by adding up the widths of lines. Here it is said without lines, by the bytes
on both sides of the offset: the line has the bytes since the last newline before the offset, and
those from the offset on through the next newline. Its number counts the newlines before.

> `Line.Around bytes offset line`: the text and the column are those of the bytes around.

The end of a source is an offset that no line holds, and is treated apart from the others. Text and
column are right there too. The number is that of the last line that has any bytes, so if the source
ends in a newline, it is one less than the number of newlines says.
-/

namespace CactLang

open Text (width)

/-! ## Bytes -/

namespace Text

/-- The bytes of a text in UTF-8. -/
def bytes (text : List Char) : List UInt8 :=
  text.flatMap String.utf8EncodeChar

/-- The byte that ends a line. -/
def newline : UInt8 :=
  10

theorem bytes_append (a b : List Char) : bytes (a ++ b) = bytes a ++ bytes b :=
  List.flatMap_append

theorem bytes_line (body rest : List Char) :
    bytes (body ++ '\n' :: rest) = bytes body ++ newline :: bytes rest :=
  bytes_append body ('\n' :: rest)

theorem length_bytes (text : List Char) : (bytes text).length = width text := by
  induction text with
  | nil => rfl
  | cons c text ih =>
    rw [bytes, List.flatMap_cons, List.length_append, String.length_utf8EncodeChar, width_cons]
    exact congrArg (c.utf8Size + ·) ih

/-- Texts with the same bytes are the same. -/
theorem bytes_inj {a b : List Char} (h : bytes a = bytes b) : a = b := by
  have hencode : a.utf8Encode = b.utf8Encode := congrArg List.toByteArray h
  have hdecode := List.utf8Decode?_utf8Encode (l := a)
  rw [hencode, List.utf8Decode?_utf8Encode] at hdecode
  exact (List.toArray_inj (Option.some.inj hdecode)).symm

theorem eq_ten_of_newline {n : Nat} (hn : n < 256) (h : newline = UInt8.ofNat n) : n = 10 := by
  have hnat : newline.toNat = n % 256 := by rw [h, UInt8.toNat_ofNat']
  rw [Nat.mod_eq_of_lt hn] at hnat
  exact hnat.symm

/-- A character of several bytes has none below 128. -/
theorem newline_notMem_char {c : Char} (h : c ≠ '\n') : newline ∉ String.utf8EncodeChar c := by
  -- a byte 10 could only be the whole of a character of one byte, or a part of a longer one
  have hv : c.val.toNat ≠ 10 := fun hten => h (Char.toNat_inj.mp hten)
  intro hmem
  unfold String.utf8EncodeChar at hmem
  dsimp only at hmem
  split at hmem
  next =>
    rw [List.mem_singleton] at hmem
    exact hv (eq_ten_of_newline (by omega) hmem)
  next =>
    -- the bytes of longer characters are 128 at least
    repeat' split at hmem
    all_goals
      simp only [List.mem_cons, List.not_mem_nil, or_false] at hmem
    · rcases hmem with hbyte | hbyte <;>
        exact absurd (eq_ten_of_newline (by omega) hbyte) (by omega)
    · rcases hmem with hbyte | hbyte | hbyte <;>
        exact absurd (eq_ten_of_newline (by omega) hbyte) (by omega)
    · rcases hmem with hbyte | hbyte | hbyte | hbyte <;>
        exact absurd (eq_ten_of_newline (by omega) hbyte) (by omega)

theorem newline_notMem {text : List Char} (h : '\n' ∉ text) : newline ∉ bytes text := by
  intro hmem
  obtain ⟨c, hc, hbyte⟩ := List.mem_flatMap.mp hmem
  exact newline_notMem_char (fun heq => h (heq ▸ hc)) hbyte

end Text

open Text (bytes newline)

namespace Line

/-! ## The bytes around an offset -/

/-- The bytes since the last newline. -/
def since (bs : List UInt8) : List UInt8 :=
  bs.rtakeWhile (· ≠ newline)

/-- The bytes through the next newline, or all of them if there is none. -/
def through (bs : List UInt8) : List UInt8 :=
  bs.takeWhile (· ≠ newline) ++ (bs.dropWhile (· ≠ newline)).take 1

/-- The line has the text and the column that the bytes around the offset say. -/
structure Around (bs : List UInt8) (offset : Nat) (line : Line) : Prop where
  text : bytes line.text = since (bs.take offset) ++ through (bs.drop offset)
  column : line.column = (since (bs.take offset)).length

section

variable {bs rest : List UInt8}

theorem rtakeWhile_append_cons {α : Type} {p : α → Bool} {y : α} (hy : ¬p y = true)
    (xs ys : List α) : (xs ++ y :: ys).rtakeWhile p = ys.rtakeWhile p := by
  unfold List.rtakeWhile
  rw [List.reverse_append, List.reverse_cons, List.append_assoc, List.takeWhile_append]
  split
  next hall =>
    rw [List.singleton_append, List.takeWhile_cons_of_neg hy, List.append_nil]
    have hself := (List.takeWhile_prefix p).eq_of_length hall
    rw [hself]
  next => rfl

theorem all_of_notMem (h : newline ∉ bs) : ∀ b ∈ bs, decide (b ≠ newline) = true :=
  fun _ hb => decide_eq_true fun heq => h (heq ▸ hb)

theorem since_of_notMem (h : newline ∉ bs) : since bs = bs :=
  List.rtakeWhile_eq_self_iff.mpr (all_of_notMem h)

theorem since_append (bs rest : List UInt8) : since (bs ++ newline :: rest) = since rest :=
  rtakeWhile_append_cons (by simp) bs rest

theorem through_of_notMem (h : newline ∉ bs) : through bs = bs := by
  unfold through
  rw [List.takeWhile_eq_self_iff.mpr (all_of_notMem h),
    List.dropWhile_eq_nil_iff.mpr (all_of_notMem h), List.take_nil, List.append_nil]

theorem through_append (h : newline ∉ bs) (rest : List UInt8) :
    through (bs ++ newline :: rest) = bs ++ [newline] := by
  unfold through
  have hall := all_of_notMem h
  rw [List.takeWhile_append_of_pos hall, List.dropWhile_append_of_pos hall,
    List.takeWhile_cons_of_neg (by simp), List.dropWhile_cons_of_neg (by simp), List.append_nil]
  rfl

end

/-! ## Line by line -/

/-- A text is a line without a newline, or a line with one and a text after it. -/
theorem line_induction {P : List Char → Prop} (last : ∀ text, '\n' ∉ text → P text)
    (line : ∀ body rest, '\n' ∉ body → P rest → P (body ++ '\n' :: rest)) (text : List Char) :
    P text := by
  by_cases h : '\n' ∈ text
  · obtain ⟨body, rest, htext, hbody⟩ := List.eq_append_cons_of_mem h
    have hshorter : rest.length < text.length := by
      rw [htext, List.length_append, List.length_cons]
      omega
    rw [htext]
    exact line body rest hbody (line_induction last line rest)
  · exact last text h
termination_by text.length

theorem flatten_split (text : List Char) : (split text).flatten = text := by
  induction text with
  | nil => rfl
  | cons c text ih =>
    rw [split]
    split
    next => rw [List.flatten_cons, ih, List.singleton_append]
    next =>
      cases hlines : split text with
      | nil =>
        rw [hlines, List.flatten_nil] at ih
        rw [← ih]
        rfl
      | cons line lines =>
        rw [hlines, List.flatten_cons] at ih
        rw [← ih]
        rfl

theorem split_line {body : List Char} (h : '\n' ∉ body) (rest : List Char) :
    split (body ++ '\n' :: rest) = (body ++ ['\n']) :: split rest := by
  induction body with
  | nil => rfl
  | cons c body ih =>
    rw [List.mem_cons, not_or] at h
    rw [List.cons_append, split, if_neg (Ne.symm h.1), ih h.2]
    rfl

theorem split_of_notMem {text : List Char} (h : '\n' ∉ text) (hne : text ≠ []) :
    split text = [text] := by
  induction text with
  | nil => exact absurd rfl hne
  | cons c text ih =>
    rw [List.mem_cons, not_or] at h
    rw [split, if_neg (Ne.symm h.1)]
    cases text with
    | nil => rfl
    | cons c' text => rw [ih h.2 (List.cons_ne_nil _ _)]

/-! ### The place lies in a line -/

section

variable {bs rest : List UInt8} {line : Line} {k : Nat}

/-- The place is in the last line, which has no newline. -/
theorem Around.last (h : newline ∉ bs) (hk : k ≤ bs.length) (htext : bytes line.text = bs)
    (hcolumn : line.column = k) : Around bs k line := by
  have hbefore : since (bs.take k) = bs.take k :=
    since_of_notMem fun hmem => h (List.mem_of_mem_take hmem)
  have hafter : through (bs.drop k) = bs.drop k :=
    through_of_notMem fun hmem => h (List.mem_of_mem_drop hmem)
  constructor
  · rw [hbefore, hafter, List.take_append_drop, htext]
  · rw [hbefore, List.length_take, hcolumn]
    omega

/-- The place is in the first line, which has a newline at its end. -/
theorem Around.first (h : newline ∉ bs) (hk : k ≤ bs.length)
    (htext : bytes line.text = bs ++ [newline]) (hcolumn : line.column = k) :
    Around (bs ++ newline :: rest) k line := by
  have htake : (bs ++ newline :: rest).take k = bs.take k := List.take_append_of_le_length hk
  have hdrop : (bs ++ newline :: rest).drop k = bs.drop k ++ newline :: rest :=
    List.drop_append_of_le_length hk
  have hbefore : since (bs.take k) = bs.take k :=
    since_of_notMem fun hmem => h (List.mem_of_mem_take hmem)
  have hafter : through (bs.drop k ++ newline :: rest) = bs.drop k ++ [newline] :=
    through_append (fun hmem => h (List.mem_of_mem_drop hmem)) rest
  constructor
  · rw [htake, hdrop, hbefore, hafter, ← List.append_assoc, List.take_append_drop, htext]
  · rw [htake, hbefore, List.length_take, hcolumn]
    omega

theorem take_line (bs rest : List UInt8) (k : Nat) :
    (bs ++ newline :: rest).take (bs.length + 1 + k) = bs ++ newline :: rest.take k := by
  rw [Nat.add_assoc, List.take_length_add_append, Nat.add_comm 1, List.take_succ_cons]

/-- The place is in a later line. -/
theorem Around.later (h : Around rest k line) :
    Around (bs ++ newline :: rest) (bs.length + 1 + k) line := by
  have hdrop : (bs ++ newline :: rest).drop (bs.length + 1 + k) = rest.drop k := by
    rw [Nat.add_assoc, List.drop_length_add_append, Nat.add_comm 1, List.drop_succ_cons]
  constructor
  · rw [take_line, hdrop, since_append]
    exact h.text
  · rw [take_line, since_append]
    exact h.column

end

/-- Of the lines of a text, the one that holds a byte is found. -/
theorem locate?_split (text : List Char) :
    ∀ number start k, k < width text → ∃ line,
      locate? (start + k) number start (split text) = some line ∧
      line.number = number + ((bytes text).take k).count newline ∧ Around (bytes text) k line := by
  induction text using line_induction with
  | last text h =>
    intro number start k hk
    have hne : text ≠ [] := by
      rintro rfl
      exact absurd hk (Nat.not_lt_zero k)
    have hbytes := Text.newline_notMem h
    have hlocate : locate? (start + k) number start [text] = some ⟨number, text, k⟩ := by
      rw [locate?, if_pos (by omega), Nat.add_sub_cancel_left]
    -- no newline in the line, so none is counted before the offset
    have hcount : ((bytes text).take k).count newline = 0 :=
      List.count_eq_zero_of_not_mem fun hmem => hbytes (List.mem_of_mem_take hmem)
    rw [split_of_notMem h hne]
    refine ⟨_, hlocate, by rw [hcount]; rfl, .last hbytes ?_ rfl rfl⟩
    rw [Text.length_bytes]
    exact Nat.le_of_lt hk
  | line body rest h ih =>
    intro number start k hk
    have hbytes := Text.newline_notMem h
    have hbody : (bytes body).length = width body := Text.length_bytes body
    have hwidth : width (body ++ ['\n']) = width body + 1 := Text.width_append body ['\n']
    rw [split_line h, Text.bytes_line, locate?, hwidth]
    by_cases hhere : k ≤ width body
    · have hcount : ((bytes body ++ newline :: bytes rest).take k).count newline = 0 := by
        rw [List.take_append_of_le_length (by omega)]
        exact List.count_eq_zero_of_not_mem fun hmem => hbytes (List.mem_of_mem_take hmem)
      refine ⟨⟨number, body ++ ['\n'], k⟩, ?_, by rw [hcount]; rfl,
        .first hbytes (by omega) (Text.bytes_line body []) rfl⟩
      rw [if_pos (by omega), Nat.add_sub_cancel_left]
    · -- the line is one of those that follow
      obtain ⟨j, rfl⟩ : ∃ j, k = width body + 1 + j := ⟨k - (width body + 1), by omega⟩
      have hj : j < width rest := by
        rw [Text.width_append, Text.width_cons] at hk
        have hone : '\n'.utf8Size = 1 := rfl
        omega
      obtain ⟨line, hline, hnumber, haround⟩ := ih (number + 1) (start + (width body + 1)) j hj
      refine ⟨line, ?_, ?_, ?_⟩
      · rw [if_neg (by omega), ← hline]
        congr 1
        omega
      · rw [hnumber, ← hbody, take_line, List.count_append, List.count_cons_self,
          List.count_eq_zero_of_not_mem hbytes]
        omega
      · rw [← hbody]
        exact haround.later

/-- Past the lines, none is found. -/
theorem locate?_eq_none {offset : Nat} :
    ∀ (lines : List (List Char)) (number start : Nat), start + width lines.flatten ≤ offset →
      locate? offset number start lines = none
  | [], _, _, _ => rfl
  | line :: lines, number, start, h => by
    rw [List.flatten_cons, Text.width_append] at h
    rw [locate?, if_neg (by omega)]
    exact locate?_eq_none lines _ _ (by omega)

/-! ### The end of the source -/

theorem bytes_lastSegment (text : List Char) : bytes (lastSegment text) = since (bytes text) := by
  induction text using line_induction with
  | last text h =>
    have hself : lastSegment text = text :=
      List.rtakeWhile_eq_self_iff.mpr fun c hc => decide_eq_true fun heq => h (heq ▸ hc)
    rw [hself, since_of_notMem (Text.newline_notMem h)]
  | line body rest h ih =>
    have hrest : lastSegment (body ++ '\n' :: rest) = lastSegment rest :=
      rtakeWhile_append_cons (by simp) body rest
    rw [hrest, Text.bytes_line, since_append, ih]

/-- There are as many lines as newlines, and one more if something follows the last of them. -/
theorem length_split (text : List Char) (hne : text ≠ []) :
    (split text).length = (bytes text).count newline +
      if (bytes text).getLast? = some newline then 0 else 1 := by
  induction text using line_induction with
  | last text h =>
    have hbytes := Text.newline_notMem h
    have hlast : (bytes text).getLast? ≠ some newline := fun heq =>
      hbytes (List.mem_of_getLast? heq)
    rw [split_of_notMem h hne, List.count_eq_zero_of_not_mem hbytes, if_neg hlast]
    rfl
  | line body rest h ih =>
    have hcount := List.count_eq_zero_of_not_mem (Text.newline_notMem h)
    rw [split_line h, List.length_cons, Text.bytes_line, List.count_append, hcount,
      List.count_cons_self]
    cases rest with
    | nil =>
      -- the newline is the last byte of all, and no further line begins
      have hlast : (bytes body ++ newline :: bytes []).getLast? = some newline :=
        List.getLast?_concat
      rw [if_pos hlast]
      rfl
    | cons c rest =>
      have hlast : (bytes body ++ newline :: bytes (c :: rest)).getLast? =
          (bytes (c :: rest)).getLast? := by
        have hne : bytes (c :: rest) ≠ [] := fun hnil =>
          List.cons_ne_nil c rest (Text.bytes_inj hnil)
        rw [List.append_cons, List.getLast?_append_of_ne_nil _ hne]
      rw [hlast, ih (List.cons_ne_nil _ _)]
      omega

/-- What is found at the end of a source, where no line holds the offset. -/
theorem find?_end (source : List Char) :
    ∃ line, find? source (width source) = some line ∧
      line.number = (bytes source).count newline +
        (if (bytes source).getLast? = some newline then 0 else 1) ∧
      Around (bytes source) (width source) line := by
  -- no line contains the offset right after the text, so the last segment is taken
  have hnone : locate? (width source) 1 0 (split source) = none :=
    locate?_eq_none _ _ _ (by rw [flatten_split]; omega)
  refine ⟨⟨max ((split source).length + 1) 2 - 1, lastSegment source,
    width (lastSegment source)⟩, ?_, ?_, ?_⟩
  · unfold find?
    rw [if_neg (Nat.lt_irrefl _)]
    dsimp only
    rw [hnone]
  · dsimp only
    cases source with
    | nil => rfl
    | cons c rest =>
      have hlines := length_split (c :: rest) (List.cons_ne_nil c rest)
      have hsome : 0 < (split (c :: rest)).length := by
        rw [hlines]
        split
        next hlast =>
          have hmem := List.count_pos_iff.mpr (List.mem_of_getLast? hlast)
          omega
        next => omega
      omega
  · have htake : (bytes source).take (width source) = bytes source := by
      rw [← Text.length_bytes, List.take_length]
    have hdrop : (bytes source).drop (width source) = [] := by
      rw [← Text.length_bytes, List.drop_length]
    constructor
    · rw [htake, hdrop, bytes_lastSegment]
      exact (List.append_nil _).symm
    · rw [htake, ← bytes_lastSegment, Text.length_bytes]

/-- What is found at an offset before the end of a source. -/
theorem find?_inside {source : List Char} {offset : Nat} (h : offset < width source) :
    ∃ line, find? source offset = some line ∧
      line.number = 1 + ((bytes source).take offset).count newline ∧
      Around (bytes source) offset line := by
  obtain ⟨line, hline, hnumber, haround⟩ := locate?_split source 1 0 offset h
  rw [Nat.zero_add] at hline
  refine ⟨line, ?_, hnumber, haround⟩
  unfold find?
  rw [if_neg (by omega)]
  dsimp only
  rw [hline]

theorem find?_eq_none {source : List Char} {offset : Nat} :
    find? source offset = none ↔ width source < offset := by
  unfold find?
  split
  next hbeyond => exact iff_of_true rfl hbeyond
  next hinside =>
    refine iff_of_false ?_ hinside
    dsimp only
    cases locate? offset 1 0 (split source) <;> exact Option.some_ne_none _

/-- What is found at an offset of a source. -/
theorem find?_around {source : List Char} {offset : Nat} (h : offset ≤ width source) :
    ∃ line, find? source offset = some line ∧
      line.number = ((bytes source).take offset).count newline +
        (if offset = (bytes source).length ∧ (bytes source).getLast? = some newline then 0
          else 1) ∧
      Around (bytes source) offset line := by
  rw [Text.length_bytes]
  rcases Nat.lt_or_eq_of_le h with hinside | rfl
  · obtain ⟨line, hline, hnumber, haround⟩ := find?_inside hinside
    refine ⟨line, hline, ?_, haround⟩
    rw [hnumber, if_neg fun hend => absurd hend.1 (Nat.ne_of_lt hinside), Nat.add_comm]
  · obtain ⟨line, hline, hnumber, haround⟩ := find?_end source
    refine ⟨line, hline, ?_, haround⟩
    rw [hnumber, ← Text.length_bytes, List.take_length]
    simp only [true_and]

/-- **The line of every offset.** None is found exactly beyond the end of the source. At every
other offset, the line has the bytes since the last newline before the offset and those through
the next one, the column counts the former, and the number is one more than the newlines before;
only at the end of a source that ends in a newline, the number is one less than that. -/
theorem find?_every_offset (source : List Char) (offset : Nat) :
    (find? source offset = none ↔ (bytes source).length < offset) ∧
    ∀ line, find? source offset = some line ↔ offset ≤ (bytes source).length ∧
      line.number = ((bytes source).take offset).count newline +
        (if offset = (bytes source).length ∧ (bytes source).getLast? = some newline then 0
          else 1) ∧
      bytes line.text = since ((bytes source).take offset) ++ through ((bytes source).drop offset) ∧
      line.column = (since ((bytes source).take offset)).length := by
  refine ⟨by rw [Text.length_bytes]; exact find?_eq_none, fun line => ⟨fun hline => ?_, ?_⟩⟩
  · have hinside : offset ≤ width source := by
      by_contra hbeyond
      rw [find?_eq_none.mpr (Nat.lt_of_not_le hbeyond)] at hline
      cases hline
    obtain ⟨found, hfound, hnumber, haround⟩ := find?_around hinside
    obtain rfl := Option.some.inj (hline.symm.trans hfound)
    exact ⟨by rwa [Text.length_bytes], hnumber, haround.text, haround.column⟩
  · rintro ⟨hinside, hnumber, htext, hcolumn⟩
    rw [Text.length_bytes] at hinside
    obtain ⟨found, hfound, hnumber', haround⟩ := find?_around hinside
    -- number, bytes and column decide a line, as bytes decide a text
    have heq : found = line := by
      obtain ⟨number, text, column⟩ := line
      obtain ⟨number', text', column'⟩ := found
      obtain rfl : number' = number := hnumber'.trans hnumber.symm
      obtain rfl : text' = text := Text.bytes_inj (haround.text.trans htext.symm)
      obtain rfl : column' = column := haround.column.trans hcolumn.symm
      rfl
    rw [hfound, heq]

/-- The end of a source of one line, which ends in a newline: it comes after one newline, and
still has the number of that line. -/
theorem find?_finalNewline :
    find? "a\n".toList 2 = some ⟨1, [], 0⟩ ∧
      1 + ((bytes "a\n".toList).take 2).count newline = 2 := by
  decide

end Line

end CactLang
