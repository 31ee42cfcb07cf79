import CactLang.Text.Quoted

/-!
# Outlines

An outline is the structured text of a value: records with named fields, tuples,
lists and maps, each part on a line of its own, four columns deeper than the
whole, and followed by a comma. An empty list or map closes on the same line.
-/

namespace CactLang.Text

/-- The structure of an outlined value. -/
inductive Outline where
  /-- A value without parts, already in its written form. -/
  | leaf (text : String)
  /-- A name and named fields in braces. -/
  | record (name : String) (fields : List (String × Outline))
  /-- A name and parts in parentheses. -/
  | tuple (name : String) (parts : List Outline)
  /-- Parts in brackets. -/
  | list (parts : List Outline)
  /-- Written keys and their values in braces. -/
  | map (entries : List (String × Outline))

namespace Outline

/-- A number. -/
def nat (n : Nat) : Outline := .leaf (toString n)

/-- A truth value. -/
def bool (b : Bool) : Outline := .leaf (if b then "true" else "false")

/-- A quoted text. -/
def text (s : String) : Outline := .leaf (quoted s)

/-- A value that may be absent. -/
def option {α : Type} (f : α → Outline) : Option α → Outline
  | none => .leaf "None"
  | some a => .tuple "Some" [f a]

/-- One step of indentation deeper. -/
def deeper (indent : String) : String := indent ++ "    "

mutual

/-- The outline's text, its lines after the first standing at `indent`. -/
def render (indent : String) : Outline → String
  | .leaf s => s
  | .record name fields =>
    name ++ " \x7b\n" ++ renderFields (deeper indent) fields ++ indent ++ "\x7d"
  | .tuple name parts => name ++ "(\n" ++ renderParts (deeper indent) parts ++ indent ++ ")"
  | .list [] => "[]"
  | .list (p :: ps) => "[\n" ++ renderParts (deeper indent) (p :: ps) ++ indent ++ "]"
  | .map [] => "\x7b\x7d"
  | .map (e :: es) => "\x7b\n" ++ renderFields (deeper indent) (e :: es) ++ indent ++ "\x7d"

/-- Parts, one after the other. -/
def renderParts (indent : String) : List Outline → String
  | [] => ""
  | p :: ps => indent ++ render indent p ++ ",\n" ++ renderParts indent ps

/-- Named parts, one after the other. -/
def renderFields (indent : String) : List (String × Outline) → String
  | [] => ""
  | (name, value) :: rest =>
    indent ++ name ++ ": " ++ render indent value ++ ",\n" ++ renderFields indent rest

end

end Outline

end CactLang.Text
