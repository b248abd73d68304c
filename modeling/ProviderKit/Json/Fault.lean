import ProviderKit.Text.Bytes

-- What can be wrong with a JSON text, and where. A fault names the place by how many
-- bytes were read; its line and column are counted from the text itself.

namespace ProviderKit.Json

inductive Reason where
  | endInValue
  | endInList
  | endInObject
  | endInString
  | expectedColon
  | expectedListEnd
  | expectedObjectEnd
  | expectedIdent
  | expectedValue
  | invalidEscape
  | invalidNumber
  | numberOutOfRange
  | invalidCodePoint
  | controlCharacter
  | keyNotString
  | loneSurrogate
  | unfinishedSurrogatePair
  | trailingComma
  | trailingCharacters
  | tooDeep
  /-- The text is well formed so far, but what it holds has the wrong type. -/
  | wrongType (found : String)
  deriving DecidableEq

def Reason.message : Reason → String
  | .endInValue => "EOF while parsing a value"
  | .endInList => "EOF while parsing a list"
  | .endInObject => "EOF while parsing an object"
  | .endInString => "EOF while parsing a string"
  | .expectedColon => "expected `:`"
  | .expectedListEnd => "expected `,` or `]`"
  | .expectedObjectEnd => "expected `,` or `\x7d`"
  | .expectedIdent => "expected ident"
  | .expectedValue => "expected value"
  | .invalidEscape => "invalid escape"
  | .invalidNumber => "invalid number"
  | .numberOutOfRange => "number out of range"
  | .invalidCodePoint => "invalid unicode code point"
  | .controlCharacter => "control character (\\u0000-\\u001F) found while parsing a string"
  | .keyNotString => "key must be a string"
  | .loneSurrogate => "lone leading surrogate in hex escape"
  | .unfinishedSurrogatePair => "unexpected end of hex escape"
  | .trailingComma => "trailing comma"
  | .trailingCharacters => "trailing characters"
  | .tooDeep => "recursion limit exceeded"
  | .wrongType found => "invalid type: " ++ found ++ ", expected a map"

/-- A fault as a reader meets it: how many bytes were left, and whether it is the next
byte that is at fault or what has been read. -/
structure Stop where
  reason : Reason
  left : Nat
  atNext : Bool
  deriving DecidableEq

/-- A fault at its place in a text, lines counted from one. -/
structure Fault where
  reason : Reason
  line : Nat
  column : Nat
  deriving DecidableEq

/-- The line and the column after some bytes: the column counts the bytes since the last
line feed. -/
def placeAfter (bytes : Bytes) : Nat × Nat :=
  bytes.foldl (fun p b => if b = 10 then (p.1 + 1, 0) else (p.1, p.2 + 1)) (1, 0)

/-- Find the place of a stop. A fault of the next byte has the column of that byte, but
never past the end of the text; its line is the one that byte ends. -/
def Stop.locate (s : Stop) (text : Bytes) : Fault :=
  let consumed := text.length - s.left
  let upTo := if s.atNext then min (consumed + 1) text.length else consumed
  let (line, column) := placeAfter (text.take upTo)
  ⟨s.reason, line, column⟩

def Fault.message (f : Fault) : String :=
  f.reason.message ++ " at line " ++ toString f.line ++ " column " ++ toString f.column

end ProviderKit.Json
