import ProviderKit.Server.Basic
import ProviderKit.Server.Request
import ProviderKit.PrivateState.Basic

-- Serving one request. While it is served, diagnostics add up and every call into the
-- provider's code is noted with what had been reported before it.

namespace ProviderKit.Server

/-- Where the serving of a request stands. -/
structure Frame (σ δ : Type) where
  world : σ
  server : Server σ δ
  diagnostics : Diagnostics
  calls : List (Call δ)

/-- A step in serving a request. -/
abbrev Rpc (σ δ α : Type) := StateM (Frame σ δ) α

namespace Rpc

variable {σ δ α ι κ η : Type}

/-! ## Diagnostics and calls -/

def report (ds : Diagnostics) : Rpc σ δ Unit :=
  modify fun f => { f with diagnostics := f.diagnostics ++ ds }

/-- An error was reported. -/
def failed : Rpc σ δ Bool := do return Diagnostics.hasError (← get).diagnostics

/-- Act in the world of the provider. -/
def act (action : StateM σ α) : Rpc σ δ α := fun f =>
  let (a, world) := action f.world
  (a, { f with world := world })

/-- Note a call and report what it reported. -/
def note (callback : Callback δ) (reported : Diagnostics) : Rpc σ δ Unit :=
  modify fun f =>
    { f with
      diagnostics := f.diagnostics ++ reported
      calls := f.calls ++ [⟨callback, f.diagnostics, reported⟩] }

/-- Call a callback. -/
def call (callback : Callback δ) (action : StateM σ α) (reported : α → Diagnostics) :
    Rpc σ δ α := do
  let a ← act action
  note callback (reported a)
  return a

/-- Note several calls, in order. -/
def noteAll {β : Type} (callback : β → Callback δ) (reported : β → Diagnostics) :
    List β → Rpc σ δ Unit
  | [] => pure ()
  | b :: rest => do
    note (callback b) (reported b)
    noteAll callback reported rest

/-! ## Declarations -/

/-- Work on the shelf of a slot. -/
def onShelf (s : Slot σ δ ι κ η) (work : Shelf.Work σ ι κ η α) : Rpc σ δ α := fun f =>
  let ((a, shelf), world) := work (s.shelf f.server) f.world
  (a, { f with world := world, server := s.put f.server shelf })

/-- The entry and the description of a name; what is wrong with them is reported. -/
def resolve (s : Slot σ δ ι κ η) (name : String) : Rpc σ δ (Option (Entry σ ι κ × η)) := do
  let server := (← get).server
  let (found, diagnostics) ←
    onShelf s (Shelf.resolve s.kind server.typeName (s.declarations server.provider) name)
  report diagnostics
  return found

/-- The names of all declarations of a kind. -/
def listNames (s : Slot σ δ ι κ η) : Rpc σ δ (List String) := do
  let server := (← get).server
  let (names, diagnostics) ←
    onShelf s (Shelf.listNames s.kind server.typeName (s.declarations server.provider))
  report diagnostics
  return names

/-- The descriptions of all declarations of a kind. -/
def describeAll (s : Slot σ δ ι κ η) : Rpc σ δ (Keyed η) := do
  let server := (← get).server
  let (descriptions, diagnostics) ←
    onShelf s (Shelf.describeAll s.kind server.typeName (s.declarations server.provider))
  report diagnostics
  return descriptions

/-- The provider's own schema, which is declared until that succeeds. -/
def providerSchema : Rpc σ δ (Option PlainSchema) := do
  let server := (← get).server
  match server.providerSchema with
  | some schema => return some schema
  | none =>
    let declared ← act server.provider.declare
    report declared.diagnostics
    if Diagnostics.hasError declared.diagnostics then return none
    else
      let schema := declared.schema.plain
      modify fun f => { f with server := { f.server with providerSchema := some schema } }
      return some schema

/-! ## Instances -/

/-- The actions of a fresh instance, which is given the data of its slot first if it takes
any. -/
def instantiate (s : Slot σ δ (DeclaredType σ δ α) κ η) (typeName : String) (takesData : Bool)
    (factory : Factory σ (DeclaredType σ δ α)) : Rpc σ δ α := do
  let data := s.data (← get).server
  let fresh ← act factory
  match onlyIf takesData fresh.configure with
  | none => return fresh.actions
  | some configure =>
    let (actions, _) ←
      call (.configureInstance s.kind.noun typeName data) (configure data) fun answer => answer.2
    return actions

/-- The actions of a type on a fresh instance, as far as its capabilities go, and its
schema. -/
def fresh (s : Slot σ δ (DeclaredType σ δ α) κ η) (takesData : κ → Bool) (within : α → κ → α)
    (typeName : String) : Rpc σ δ (Option (α × η)) := do
  match ← resolve s typeName with
  | none => return none
  | some (entry, description) =>
    let actions ← instantiate s typeName (takesData entry.capabilities) entry.factory
    return some (within actions entry.capabilities, description)

/-! ## Private state -/

def decodePrivate (bytes : Bytes) : Rpc σ δ PrivateState := do
  let (s, diagnostics) := PrivateState.decode bytes
  report diagnostics
  return s

def encodePrivate (s : PrivateState) : Rpc σ δ Bytes := do
  let (bytes, diagnostics) := s.encode
  report diagnostics
  return bytes

/-- The bytes that private state came as, if it is still the same; else its encoding. -/
def threadPrivate (bytes : Bytes) (prior current : PrivateState) : Rpc σ δ Bytes :=
  if current = prior then pure bytes else encodePrivate current

/-! ## Values -/

/-- What configurations say about the provider, under its schema for that. -/
def providerMeta (raw : Option Value) : Rpc σ δ Described := do
  return ⟨raw.getD .null, (← get).server.metaSchema⟩

/-- Keep prior values where the schema's predicates say that nothing changed; when one of
them fails, the value stays as it is. -/
def reconcile (schema : ActiveSchema σ) (prior proposed : Value) : Rpc σ δ Value := do
  let r ← act (schema.reconcile prior proposed)
  noteAll Callback.compareValues EqualityCall.diagnostics r.calls
  return if r.calls.any EqualityCall.failed then proposed else r.value

/-! ## Answers -/

/-- Serve a request from beginning to end. -/
def run (rpc : Rpc σ δ α) (server : Server σ δ) : StateM σ (Answer δ α × Server σ δ) := fun world =>
  let (result, f) := StateT.run rpc ⟨world, server, [], []⟩
  ((⟨result, f.diagnostics, f.calls⟩, f.server), f.world)

end Rpc

end ProviderKit.Server
