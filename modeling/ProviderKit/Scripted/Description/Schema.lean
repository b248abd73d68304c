import ProviderKit.Scripted.Attribute
import ProviderKit.Diagnostic.Document
import ProviderKit.Json.Field
import ProviderKit.Schema.Codec

-- Documents that describe a schema together with the scripted modifiers and predicates of
-- its attributes. They are those of plain schemas, with further entries in the attributes.

namespace ProviderKit

/-! ## Fields -/

def Json.valueField (j : Json) (key : String) : Value := .ofJson (j.field key)

/-- A value that may be absent, which is not the same as null. -/
def Json.valueField? (j : Json) (key : String) : Option Value := (j.get? key).map Value.ofJson

def Json.pathField (j : Json) (key : String) : Path := (Path.ofJson? (j.field key)).getD .root

def Json.diagnosticsField (j : Json) (key : String) : Diagnostics := .ofJson (j.field key)

namespace Scripted

/-! ## Modifiers and predicates -/

def ModifierAction.ofJson? (j : Json) : Option ModifierAction :=
  match j.textField "do" with
  | "set_value" => some (.setValue (j.valueField "value"))
  | "use_config" => some .useConfig
  | "use_state" => some .useState
  | "requires_replace" => some .requireReplace
  | "diag" => some (.report (.ofJson j))
  | "private_set" => some (.storePrivate (j.textField "key") (j.bytesField "value"))
  | "private_get" => some (.showPrivate (j.textField "key"))
  | _ => none

/-- A modifier by its name, or with the outcome or the script that it follows. -/
def modifierOfJson? : Json → Option (PlanModifier Journal)
  | .string "requires_replace" => some .requiresReplace
  | .string "use_state_for_unknown" => some .useStateForUnknown
  | .object [("requires_replace_if", r)] =>
    some (fixedReplacement (r.flagField "replace") (r.diagnosticsField "diagnostics"))
  | .object [("script", script)] =>
    some (scriptedModifier (script.items.filterMap ModifierAction.ofJson?))
  | _ => none

/-- A predicate by its name, or with its only answer. -/
def equalityOfJson? : Json → Option (SemanticEquality Journal)
  | .string "numeric" => some .numeric
  | .string "json" => some .json
  | .object es =>
    some (fixedEquality (Json.flagField (.object es) "equal")
      (Json.diagnosticsField (.object es) "diagnostics"))
  | _ => none

def behaviourOfJson (j : Json) : Behaviour Journal :=
  ⟨(j.itemsField "plan_modifiers").filterMap modifierOfJson?,
    equalityOfJson? (j.field "semantic_equality")⟩

/-! ## Schemas -/

mutual
/-- Attach to an attribute what its document says; it may also give null as the default. -/
def attachToAttribute (j : Json) : Attribute Unit → Attribute (Behaviour Journal)
  | ⟨type, flags, description, nested, default, _⟩ =>
    ⟨type, flags, description, attachToNested (j.field "nested") nested,
      if j.flagField "default_null" then some .null else default, behaviourOfJson j⟩
def attachToNested (j : Json) :
    Option (NestedAttributes Unit) → Option (NestedAttributes (Behaviour Journal))
  | none => none
  | some ⟨mode, attributes⟩ => some ⟨mode, attachToAttributes (j.field "attributes") attributes⟩
def attachToAttributes (j : Json) :
    List (String × Attribute Unit) → List (String × Attribute (Behaviour Journal))
  | [] => []
  | (name, a) :: rest => (name, attachToAttribute (j.field name) a) :: attachToAttributes j rest
end

mutual
def attachToBlock (j : Json) : Block Unit → Block (Behaviour Journal)
  | ⟨attributes, blocks, description⟩ =>
    ⟨attachToAttributes (j.field "attributes") attributes, attachToBlocks (j.field "blocks") blocks,
      description⟩
def attachToBlocks (j : Json) :
    List (String × NestedBlock Unit) → List (String × NestedBlock (Behaviour Journal))
  | [] => []
  | (name, ⟨block, mode, minItems, maxItems⟩) :: rest =>
    (name, ⟨attachToBlock (j.field name) block, mode, minItems, maxItems⟩) :: attachToBlocks j rest
end

/-- The schema that a document describes, with all that is attached to its attributes. -/
def activeSchemaOfJson? (j : Json) : Option (ActiveSchema Journal) :=
  (Schema.ofJson? j).map fun s => ⟨s.version, attachToBlock j s.root⟩

end Scripted

end ProviderKit
