import ProviderKit.Schema.Basic
import ProviderKit.Value.Document

-- Schemas as JSON documents. Writing leaves out what is empty or absent; reading takes a
-- missing entry for the empty one where there is one, and ignores entries it does not
-- know. Entries are written in the order of their keys.

namespace ProviderKit

/-! ## Reading simple parts -/

namespace Json

/-- Nothing is said beside the name of a case. -/
def isUnit : Json → Bool
  | .null => true
  | .object [] => true
  | _ => false

/-- The name of a case that has no contents: the name alone, or as the only key of an
object that says nothing more. -/
def caseName? : Json → Option String
  | .string s => some s
  | .object [(name, content)] => if content.isUnit then some name else none
  | _ => none

/-- An optional text: a missing entry and null are none. -/
def optionalText? (entries : Keyed Json) (key : String) : Option (Option String) :=
  match Keyed.get? entries key with
  | none => some none
  | some .null => some none
  | some (.string s) => some (some s)
  | some _ => none

def flag? (entries : Keyed Json) (key : String) : Option Bool :=
  (Keyed.get? entries key).bind asBool?

/-- A count of 32 bits; a missing entry is zero. -/
def count? (entries : Keyed Json) (key : String) : Option UInt32 :=
  match Keyed.get? entries key with
  | none => some 0
  | some j =>
    match j.asInt? with
    | some n => if InUnsigned32 n then some (UInt32.ofNat n.toNat) else none
    | none => none

/-- A signed 64-bit integer; a missing entry is zero. -/
def signed? (entries : Keyed Json) (key : String) : Option Int :=
  match Keyed.get? entries key with
  | none => some 0
  | some j =>
    match j.asInt? with
    | some n => signed64? n
    | none => none

end Json

def NestingMode.ofName? : String → Option NestingMode
  | "single" => some .single
  | "list" => some .list
  | "set" => some .set
  | "map" => some .map
  | _ => none

def NestingMode.ofJson? (j : Json) : Option NestingMode := j.caseName?.bind ofName?

/-- A nesting mode among entries; a missing one is single. -/
def NestingMode.among? (entries : Keyed Json) : Option NestingMode :=
  match Keyed.get? entries "nesting_mode" with
  | none => some .single
  | some j => ofJson? j

def Flags.among? (entries : Keyed Json) : Option Flags := do
  let required ← Json.flag? entries "required"
  let optional ← Json.flag? entries "optional"
  let computed ← Json.flag? entries "computed"
  let sensitive ← Json.flag? entries "sensitive"
  return ⟨required, optional, computed, sensitive⟩

/-! ## Types -/

namespace AttributeType

/-- The type of a name that stands alone. -/
def ofName? : String → Option AttributeType
  | "string" => some .string
  | "int64" => some .int64
  | "float64" => some .float64
  | "number" => some .number
  | "bool" => some .bool
  | "dynamic" => some .dynamic
  | _ => none

mutual
def ofJson? : Json → Option AttributeType
  | .string s => ofName? s
  | .object [(name, content)] =>
    if name = "list" then (ofJson? content).map .list
    else if name = "set" then (ofJson? content).map .set
    else if name = "map" then (ofJson? content).map .map
    else if name = "object" then
      match content with
      | .object fields => (fieldsOf? fields).map .object
      | _ => none
    else if content.isUnit then ofName? name
    else none
  | _ => none
def fieldsOf? : List (String × Json) → Option (List (String × AttributeType))
  | [] => some []
  | (name, j) :: rest => do
    let t ← ofJson? j
    return (name, t) :: (← fieldsOf? rest)
end

mutual
def toJson : AttributeType → Json
  | .string => .string "string"
  | .int64 => .string "int64"
  | .float64 => .string "float64"
  | .number => .string "number"
  | .bool => .string "bool"
  | .dynamic => .string "dynamic"
  | .list t => .object [("list", t.toJson)]
  | .set t => .object [("set", t.toJson)]
  | .map t => .object [("map", t.toJson)]
  | .object fields => .object [("object", .object (fieldsToJson fields))]
def fieldsToJson : List (String × AttributeType) → List (String × Json)
  | [] => []
  | (name, t) :: rest => (name, t.toJson) :: fieldsToJson rest
end

end AttributeType

/-! ## Reading -/

/-- An optional default: a missing entry and null are none. -/
def defaultAmong (entries : Keyed Json) : Option Value :=
  match Keyed.get? entries "default" with
  | none => none
  | some .null => none
  | some j => some (Value.ofJson j)

mutual
def Attribute.ofJson? : Json → Option (Attribute Unit)
  | .object entries => do
    let type ← (Keyed.get? entries "type").bind AttributeType.ofJson?
    let flags ← Flags.among? entries
    let description ← Json.optionalText? entries "description"
    let nested ← nestedAmong? entries
    return ⟨type, flags, description, nested, defaultAmong entries, ()⟩
  | _ => none

/-- The nested attributes among the entries of an attribute. -/
def nestedAmong? : List (String × Json) → Option (Option (NestedAttributes Unit))
  | [] => some none
  | (key, j) :: rest => if key = "nested" then nestedOf? j else nestedAmong? rest

/-- Nested attributes, by name or as a pair in order. -/
def nestedOf? : Json → Option (Option (NestedAttributes Unit))
  | .null => some none
  | .object entries => do
    let mode ← NestingMode.among? entries
    let attributes ← (← attributesAmong? entries)
    return some ⟨mode, attributes⟩
  | .array [mode, .object attributes] => do
    let mode ← NestingMode.ofJson? mode
    let attributes ← attributesOf? attributes
    return some ⟨mode, attributes⟩
  | _ => none

/-- The attributes among the entries of a block or an attribute, when there is such an
entry. -/
def attributesAmong? : List (String × Json) → Option (Option (List (String × Attribute Unit)))
  | [] => some none
  | (key, j) :: rest =>
    if key = "attributes" then
      match j with
      | .object attributes => (attributesOf? attributes).map some
      | _ => none
    else attributesAmong? rest

def attributesOf? : List (String × Json) → Option (List (String × Attribute Unit))
  | [] => some []
  | (name, j) :: rest => do
    let a ← Attribute.ofJson? j
    return (name, a) :: (← attributesOf? rest)
end

mutual
def NestedBlock.ofJson? : Json → Option (NestedBlock Unit)
  | .object entries => do
    let attributes ← attributesAmong? entries
    let blocks ← blocksAmong? entries
    let description ← Json.optionalText? entries "description"
    let mode ← NestingMode.among? entries
    let minItems ← Json.count? entries "min_items"
    let maxItems ← Json.count? entries "max_items"
    return ⟨⟨attributes.getD [], blocks, description⟩, mode, minItems, maxItems⟩
  | _ => none

/-- The nested blocks among the entries of a block. -/
def blocksAmong? : List (String × Json) → Option (List (String × NestedBlock Unit))
  | [] => some []
  | (key, j) :: rest =>
    if key = "blocks" then
      match j with
      | .object blocks => blocksOf? blocks
      | _ => none
    else blocksAmong? rest

def blocksOf? : List (String × Json) → Option (List (String × NestedBlock Unit))
  | [] => some []
  | (name, j) :: rest => do
    let b ← NestedBlock.ofJson? j
    return (name, b) :: (← blocksOf? rest)
end

def Schema.ofJson? : Json → Option PlainSchema
  | .object entries => do
    let version ← Json.signed? entries "version"
    let attributes ← attributesAmong? entries
    let blocks ← blocksAmong? entries
    let description ← Json.optionalText? entries "description"
    return ⟨version, attributes.getD [], blocks, description⟩
  | _ => none

/-! ## Writing -/

namespace Json

/-- An entry that is left out when there is nothing to write. -/
def entryIf {α : Type} (key : String) (write : α → Json) : Option α → List (String × Json)
  | some a => [(key, write a)]
  | none => []

/-- A dictionary that is left out when it is empty. -/
def entriesIf (key : String) : List (String × Json) → List (String × Json)
  | [] => []
  | entries => [(key, .object entries)]

end Json

section

variable {β : Type}

mutual
def Attribute.toJson : Attribute β → Json
  | ⟨type, flags, description, nested, default, _⟩ =>
    .object
      ([("computed", .bool flags.computed)]
        ++ Json.entryIf "default" Value.toWire default
        ++ Json.entryIf "description" .string description
        ++ nestedToJson nested
        ++ [("optional", .bool flags.optional), ("required", .bool flags.required),
            ("sensitive", .bool flags.sensitive), ("type", type.toJson)])
def nestedToJson : Option (NestedAttributes β) → List (String × Json)
  | none => []
  | some ⟨mode, attributes⟩ =>
    [("nested",
      .object [("attributes", .object (attributesToJson attributes)),
        ("nesting_mode", .string mode.name)])]
def attributesToJson : List (String × Attribute β) → List (String × Json)
  | [] => []
  | (name, a) :: rest => (name, a.toJson) :: attributesToJson rest
end

mutual
def NestedBlock.toJson : NestedBlock β → Json
  | ⟨⟨attributes, blocks, description⟩, mode, minItems, maxItems⟩ =>
    .object
      (Json.entriesIf "attributes" (attributesToJson attributes)
        ++ Json.entriesIf "blocks" (blocksToJson blocks)
        ++ Json.entryIf "description" .string description
        ++ [("max_items", Json.ofNat maxItems.toNat), ("min_items", Json.ofNat minItems.toNat),
            ("nesting_mode", .string mode.name)])
def blocksToJson : List (String × NestedBlock β) → List (String × Json)
  | [] => []
  | (name, b) :: rest => (name, b.toJson) :: blocksToJson rest
end

def Schema.toJson (s : Schema β) : Json :=
  .object
    (Json.entriesIf "attributes" (attributesToJson s.root.attributes)
      ++ Json.entriesIf "blocks" (blocksToJson s.root.blocks)
      ++ Json.entryIf "description" .string s.root.description
      ++ [("version", Json.ofInt s.version)])

end

end ProviderKit
