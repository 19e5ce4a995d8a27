import QueryComposer.Text.Hidden

/-!
# Quoted texts

File paths in messages stand in double quotes, so that a blank, a line end or an invisible character
in a name can be seen.  The quote and the backslash are escaped, the common controls have letters of
their own, and every other hidden character is shown by its number in braces.  An apostrophe needs
no escape.
-/

namespace QueryComposer.Text

/-- The number of a character in lower-case hexadecimal digits, in braces after `\u`. -/
def numbered (c : Char) : List Char :=
  '\\' :: 'u' :: '\x7b' :: (Nat.toDigits 16 c.toNat ++ ['\x7d'])

/-- A character as it stands between double quotes. -/
def quotedChar (c : Char) : List Char :=
  if c = '\x00' then ['\\', '0']
  else if c = '\t' then ['\\', 't']
  else if c = '\n' then ['\\', 'n']
  else if c = '\r' then ['\\', 'r']
  else if c = '\\' then ['\\', '\\']
  else if c = '"' then ['\\', '"']
  else if isHidden c then numbered c
  else [c]

/-- The text in double quotes. -/
def quoted (s : String) : String :=
  String.ofList ('"' :: (s.toList.flatMap quotedChar ++ ['"']))

end QueryComposer.Text
