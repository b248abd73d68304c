import ProviderKit.Path.Basic

-- Paths as JSON documents: a list of steps, each an object with one key that says what kind
-- of step it is. A text that stands for itself and not for an unknown value has a key of its
-- own.

namespace ProviderKit

def Step.toJson : Step → Json
  | .field name => .object [("attr", .string name)]
  | .key k => .object [("key", .string k)]
  | .index i => .object [("index", Json.ofNat i)]
  | .element (.string text) => .object [("element_string", .string text)]
  | .element v => .object [("element", v.toWire)]

def Step.ofJson? : Json → Option Step
  | .object [("attr", .string name)] => some (.field name)
  | .object [("key", .string k)] => some (.key k)
  | .object [("index", i)] => i.asInt?.map fun n => .index n.toNat
  | .object [("element_string", .string text)] => some (.element (.string text))
  | .object [("element", v)] => some (.element (.ofJson v))
  | _ => none

def Path.toJson (p : Path) : Json := .array (p.steps.map Step.toJson)

def Path.ofJson? (j : Json) : Option Path := do
  return ⟨← (← j.asItems?).mapM Step.ofJson?⟩

end ProviderKit
