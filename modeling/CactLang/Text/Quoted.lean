import CactLang.Text.Shown

/-!
# Quoted text

How names and texts are quoted in messages and outlines: between double quotes,
with a backslash before a quote or a backslash, short escapes for the null
character, tab, line feed and carriage return, and `\u` with the number in
hexadecimal for every other hidden character. A single quote needs no escape.
-/

namespace CactLang.Text

/-- The written form of one character inside quotes. -/
def escaped (c : Char) : List Char :=
  if c = '"' then ['\\', '"']
  else if c = '\\' then ['\\', '\\']
  else if c = '\x00' then ['\\', '0']
  else if c = '\t' then ['\\', 't']
  else if c = '\n' then ['\\', 'n']
  else if c = '\r' then ['\\', 'r']
  else if isShown c then [c]
  else '\\' :: 'u' :: '\x7b' :: (Nat.toDigits 16 c.toNat ++ ['\x7d'])

/-- The text between quotes. -/
def quoted (text : String) : String :=
  String.ofList ('"' :: (text.toList.flatMap escaped ++ ['"']))

end CactLang.Text
