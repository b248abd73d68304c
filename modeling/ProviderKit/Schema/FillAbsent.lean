import ProviderKit.Schema.Walk

-- Filling out a value: an absent entry and an explicit null mean the same, and once every
-- declared name has an entry, later walks meet every declared position.

namespace ProviderKit

/-- Give every name a null entry unless it has an entry. -/
def fillNames (names : List String) (entries : Keyed Value) : Keyed Value :=
  names.foldl (fun es name => Keyed.insertNew es name .null) entries

/-- Fill out one object; anything else stays as it is. -/
def fillNode {β : Type} (node : Except Fault (Node β)) (v : Value) : Value :=
  match v, node with
  | .map es, .ok n =>
    match n.view with
    | .object attributes blocks => .map (fillNames (Keyed.keys attributes ++ Keyed.keys blocks) es)
    | _ => v
  | _, _ => v

/-- Add a null entry for every attribute and block that the schema declares and the value
leaves out, at every object. -/
def Schema.fillAbsent {β : Type} (s : Schema β) (v : Value) : Except Fault Value :=
  s.transform .topDown (fun _ node v => .ok (fillNode node v)) v

end ProviderKit
