/-!
# Width in bytes

Offsets into a source count bytes of its UTF-8 form, while the text itself is
handled character by character. `width` is the bridge between the two.
-/

namespace CactLang.Text

/-- The number of bytes a text takes in UTF-8. -/
def width (text : List Char) : Nat :=
  text.foldr (fun c bytes => c.utf8Size + bytes) 0

@[simp] theorem width_nil : width [] = 0 := rfl

@[simp] theorem width_cons (c : Char) (text : List Char) :
    width (c :: text) = c.utf8Size + width text := rfl

theorem width_append (a b : List Char) : width (a ++ b) = width a + width b := by
  induction a with
  | nil => simp
  | cons c a ih => rw [List.cons_append, width_cons, width_cons, ih, Nat.add_assoc]

/-- What is left of a text after its first `n` bytes, if byte `n` starts a
character or is the end of the text. -/
def dropBytes? : List Char → Nat → Option (List Char)
  | text, 0 => some text
  | [], _ + 1 => none
  | c :: text, n + 1 => if c.utf8Size ≤ n + 1 then dropBytes? text (n + 1 - c.utf8Size) else none

end CactLang.Text
