import ComponentProps.Text.Unprintable

/-!
# Text inside messages

`Text.shown` writes a string between double quotes for a message.  Quotes and
backslashes are escaped, a few controls have short names, and every other
character that does not show is written as its code point in hexadecimal
between braces.
-/

namespace ComponentProps

namespace Text

/-- A character by its code point: `\u` and the hexadecimal number in braces. -/
def codePoint (c : Char) : List Char :=
  '\\' :: 'u' :: '\x7b' :: (Nat.toDigits 16 c.toNat ++ ['\x7d'])

/-- One character inside the quotes of a message. -/
def showChar (c : Char) : List Char :=
  if c = '"' then ['\\', '"']
  else if c = '\\' then ['\\', '\\']
  else if c = '\n' then ['\\', 'n']
  else if c = '\r' then ['\\', 'r']
  else if c = '\t' then ['\\', 't']
  else if c = '\x00' then ['\\', '0']
  else if c.toNat < 0x20 ∨ c.toNat = 0x7f then codePoint c
  else if 0x80 ≤ c.toNat ∧ isUnprintable c then codePoint c
  else [c]

/-- A string as a message shows it. -/
def shown (text : String) : String :=
  String.ofList ('"' :: (text.toList.flatMap showChar ++ ['"']))

end Text

end ComponentProps
