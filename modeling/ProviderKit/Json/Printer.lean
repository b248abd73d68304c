import ProviderKit.Json.Basic

-- The compact text of a JSON document: no blanks, keys in their order, and nothing
-- escaped but the quote, the backslash and the control characters below the space.

namespace ProviderKit.Json

/-- A hexadecimal digit, in lower case. -/
def hexDigit (n : Nat) : Char := Nat.digitChar n

/-- A character as it stands inside a quoted text. -/
def escape (c : Char) : List Char :=
  if c = '"' then ['\\', '"']
  else if c = '\\' then ['\\', '\\']
  else if c = '\x08' then ['\\', 'b']
  else if c = '\t' then ['\\', 't']
  else if c = '\n' then ['\\', 'n']
  else if c = '\x0c' then ['\\', 'f']
  else if c = '\r' then ['\\', 'r']
  else if c.toNat < 32 then ['\\', 'u', '0', '0', hexDigit (c.toNat / 16), hexDigit (c.toNat % 16)]
  else [c]

/-- A text in quotes. -/
def quote (text : String) : List Char :=
  '"' :: text.toList.flatMap escape ++ ['"']

mutual
/-- The compact text of a document. -/
def print : Json → List Char
  | .null => ['n', 'u', 'l', 'l']
  | .bool true => ['t', 'r', 'u', 'e']
  | .bool false => ['f', 'a', 'l', 's', 'e']
  | .number n => n.render
  | .string s => quote s
  | .array [] => ['[', ']']
  | .array (x :: xs) => '[' :: x.print ++ printItems xs
  | .object [] => ['\x7b', '\x7d']
  | .object ((k, x) :: es) => '\x7b' :: quote k ++ ':' :: x.print ++ printEntries es
/-- The items after the first, up to the closing bracket. -/
def printItems : List Json → List Char
  | [] => [']']
  | x :: xs => ',' :: x.print ++ printItems xs
/-- The entries after the first, up to the closing brace. -/
def printEntries : List (String × Json) → List Char
  | [] => ['\x7d']
  | (k, x) :: es => ',' :: quote k ++ ':' :: x.print ++ printEntries es
end

/-- The compact text of a document. -/
def render (j : Json) : String := String.ofList j.print

end ProviderKit.Json
