import ProviderKit.Value.Basic

-- Values as JSON documents. A document has no unknown values; one text that no user
-- writes stands for them on the wire.

namespace ProviderKit.Value

/-- The text that stands for an unknown value in a document. -/
def unknownText : String := "74D93920-ED26-11E3-AC10-0800200C9A66"

mutual
/-- The value a document describes. -/
def ofJson : Json → Value
  | .null => .null
  | .bool b => .bool b
  | .number n => .number n
  | .string s => if s = unknownText then .unknown else .string s
  | .array xs => .list (ofItems xs)
  | .object es => .map (ofEntries es)
def ofItems : List Json → List Value
  | [] => []
  | x :: xs => ofJson x :: ofItems xs
def ofEntries : List (String × Json) → List (String × Value)
  | [] => []
  | (k, x) :: es => (k, ofJson x) :: ofEntries es
end

mutual
/-- The document that describes a value, with the stand-in text for what is unknown. -/
def toWire : Value → Json
  | .null => .null
  | .unknown => .string unknownText
  | .bool b => .bool b
  | .number n => .number n
  | .string s => .string s
  | .list xs => .array (wireItems xs)
  | .map es => .object (wireEntries es)
def wireItems : List Value → List Json
  | [] => []
  | x :: xs => x.toWire :: wireItems xs
def wireEntries : List (String × Value) → List (String × Json)
  | [] => []
  | (k, x) :: es => (k, x.toWire) :: wireEntries es
end

/-- The text of a value, as messages and paths show it. -/
def display (v : Value) : String := v.toWire.render

end ProviderKit.Value
