import ProviderKit.Text.Hidden

-- Texts in quotes, as messages show names and keys. What is hidden on paper is written
-- by its code point, so that two different texts never look the same in a message.

namespace ProviderKit.Text

/-- A code point in lower-case hexadecimal, without padding. -/
def hex (code : Nat) : List Char := Nat.toDigits 16 code

/-- A character as it stands between quotes. -/
def escaped (c : Char) : List Char :=
  if c = '"' then ['\\', '"']
  else if c = '\\' then ['\\', '\\']
  else if c = '\n' then ['\\', 'n']
  else if c = '\r' then ['\\', 'r']
  else if c = '\t' then ['\\', 't']
  else if c.toNat = 0 then ['\\', '0']
  else if isHidden c then ['\\', 'u', '\x7b'] ++ hex c.toNat ++ ['\x7d']
  else [c]

/-- A text in quotes, as characters. -/
def quotedChars (text : String) : List Char :=
  '"' :: text.toList.flatMap escaped ++ ['"']

/-- A text in quotes. -/
def quoted (text : String) : String := String.ofList (quotedChars text)

end ProviderKit.Text
