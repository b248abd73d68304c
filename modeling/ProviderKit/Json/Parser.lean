import ProviderKit.Json.Token
import ProviderKit.Json.Basic
import ProviderKit.Text.Quoted

-- Reading JSON texts. Arrays and objects may be nested 127 deep; the steps that bound
-- the reader are counted from the length of the text, and are always enough, since no
-- two steps pass without a byte being read.

namespace ProviderKit.Json

/-- How deep arrays and objects may be nested, counting the level that is refused. -/
def depthLimit : Nat := 128

mutual
/-- Read a value, `depth` levels above the refused one. -/
def readValue (care : Care) : Nat → Nat → Bytes → Except Stop (Json × Bytes)
  | 0, _, bytes => stopNext .endInValue bytes
  | steps + 1, depth, bytes =>
    match skipBlanks bytes with
    | [] => stopNext .endInValue []
    | b :: rest =>
      if b = 110 then do return (.null, ← readWord [117, 108, 108] rest)
      else if b = 116 then do return (.bool true, ← readWord [114, 117, 101] rest)
      else if b = 102 then do return (.bool false, ← readWord [97, 108, 115, 101] rest)
      else if b = 45 then do
        let (n, rest) ← readNumber care true rest
        return (.number n, rest)
      else if isDigit b then do
        let (n, rest) ← readNumber care false (b :: rest)
        return (.number n, rest)
      else if b = 34 then do
        let (s, rest) ← readText care rest
        return (.string s, rest)
      else if b = 91 then
        if depth ≤ 1 then stopNext .tooDeep (b :: rest)
        else do
          let (items, rest) ← readFirstItem care steps (depth - 1) rest
          return (.array items, rest)
      else if b = 123 then
        if depth ≤ 1 then stopNext .tooDeep (b :: rest)
        else do
          let (entries, rest) ← readFirstEntry care steps (depth - 1) rest
          return (Json.ofEntries entries, rest)
      else stopNext .expectedValue (b :: rest)

/-- Read an array after its opening bracket. -/
def readFirstItem (care : Care) : Nat → Nat → Bytes → Except Stop (List Json × Bytes)
  | 0, _, bytes => stopNext .endInList bytes
  | steps + 1, depth, bytes =>
    match skipBlanks bytes with
    | [] => stopNext .endInList []
    | b :: rest =>
      if b = 93 then .ok ([], rest)
      else do
        let (item, rest) ← readValue care steps depth (b :: rest)
        let (items, rest) ← readItems care steps depth rest
        return (item :: items, rest)

/-- Read the items of an array after the first. -/
def readItems (care : Care) : Nat → Nat → Bytes → Except Stop (List Json × Bytes)
  | 0, _, bytes => stopNext .endInList bytes
  | steps + 1, depth, bytes =>
    match skipBlanks bytes with
    | [] => stopNext .endInList []
    | b :: rest =>
      if b = 93 then .ok ([], rest)
      else if b = 44 then
        match skipBlanks rest with
        | [] => stopNext .endInValue []
        | c :: rest =>
          if c = 93 then stopNext .trailingComma (c :: rest)
          else do
            let (item, rest) ← readValue care steps depth (c :: rest)
            let (items, rest) ← readItems care steps depth rest
            return (item :: items, rest)
      else stopNext .expectedListEnd (b :: rest)

/-- Read an object after its opening brace. -/
def readFirstEntry (care : Care) : Nat → Nat → Bytes → Except Stop (List (String × Json) × Bytes)
  | 0, _, bytes => stopNext .endInObject bytes
  | steps + 1, depth, bytes =>
    match skipBlanks bytes with
    | [] => stopNext .endInObject []
    | b :: rest =>
      if b = 125 then .ok ([], rest)
      else if b = 34 then do
        let (entry, rest) ← readEntry care steps depth rest
        let (entries, rest) ← readEntries care steps depth rest
        return (entry :: entries, rest)
      else stopNext .keyNotString (b :: rest)

/-- Read the entries of an object after the first. -/
def readEntries (care : Care) : Nat → Nat → Bytes → Except Stop (List (String × Json) × Bytes)
  | 0, _, bytes => stopNext .endInObject bytes
  | steps + 1, depth, bytes =>
    match skipBlanks bytes with
    | [] => stopNext .endInObject []
    | b :: rest =>
      if b = 125 then .ok ([], rest)
      else if b = 44 then
        match skipBlanks rest with
        | [] => stopNext .endInValue []
        | c :: rest =>
          if c = 34 then do
            let (entry, rest) ← readEntry care steps depth rest
            let (entries, rest) ← readEntries care steps depth rest
            return (entry :: entries, rest)
          else if c = 125 then stopNext .trailingComma (c :: rest)
          else stopNext .keyNotString (c :: rest)
      else stopNext .expectedObjectEnd (b :: rest)

/-- Read an entry after the opening quote of its key. -/
def readEntry (care : Care) : Nat → Nat → Bytes → Except Stop ((String × Json) × Bytes)
  | 0, _, bytes => stopNext .endInObject bytes
  | steps + 1, depth, bytes => do
    let (key, rest) ← readText care bytes
    match skipBlanks rest with
    | [] => stopNext .endInObject []
    | b :: rest =>
      if b = 58 then do
        let (value, rest) ← readValue care steps depth rest
        return ((key, value), rest)
      else stopNext .expectedColon (b :: rest)
end

/-- Enough steps to read a whole text. -/
def stepsFor (bytes : Bytes) : Nat := 3 * bytes.length + 3

/-- Nothing but blanks may follow a document. -/
def readEnd (bytes : Bytes) : Except Stop Unit :=
  match skipBlanks bytes with
  | [] => .ok ()
  | rest => stopNext .trailingCharacters rest

/-- Give the place of a stop in the text it happened in. -/
def located {α : Type} (text : Bytes) : Except Stop α → Except Fault α
  | .ok a => .ok a
  | .error stop => .error (stop.locate text)

/-- Read a document from bytes. -/
def parseBytes (bytes : Bytes) : Except Fault Json :=
  located bytes do
    let (value, rest) ← readValue .strict (stepsFor bytes) depthLimit bytes
    readEnd rest
    return value

/-- Read a document from a text. -/
def parse (text : String) : Except Fault Json := parseBytes (Bytes.ofText text)

/-- What a document is called where an object was expected. -/
def typeName : Json → String
  | .null => "null"
  | .bool true => "boolean `true`"
  | .bool false => "boolean `false`"
  | .number (.integer n h) => "integer `" ++ String.ofList (Number.integer n h).render ++ "`"
  | .number (.double d) => "floating point `" ++ String.ofList d.render ++ "`"
  | .string s => "string " ++ Text.quoted s
  | .array _ => "sequence"
  | .object _ => "map"

/-- Read a document that must be an object. What else stands there is named when it can
be read at all; an array is named before anything in it is read. -/
def parseObjectBytes (bytes : Bytes) : Except Fault (Keyed Json) :=
  located bytes do
    match skipBlanks bytes with
    | [] => stopNext .endInValue []
    | b :: rest =>
      if b = 91 then stopHere (.wrongType "sequence") (b :: rest)
      else
        let (value, rest) ← readValue .strict (stepsFor bytes) depthLimit (b :: rest)
        match value with
        | .object entries =>
          readEnd rest
          return entries
        | other => stopHere (.wrongType (typeName other)) rest

/-- Bytes are well-formed JSON, looking at the grammar alone: one value of any depth, in
valid UTF-8. -/
def isWellFormed (bytes : Bytes) : Bool :=
  (Bytes.toText? bytes).isSome &&
    match readValue .loose (stepsFor bytes) (bytes.length + 2) bytes with
    | .ok (_, rest) => (readEnd rest).isOk
    | .error _ => false

end ProviderKit.Json
