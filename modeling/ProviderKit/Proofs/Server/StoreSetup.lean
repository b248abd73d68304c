import ProviderKit.Proofs.Server.Runs

-- Which set-up of a state store counts. A server keeps the data of one store, whichever type was
-- set up last, and hands it to the instances of every type. A type is handed what its own set-up
-- left as long as no other type was set up since.

namespace ProviderKit.Server

variable {σ δ : Type}

/-- What a request leaves for the instances of state stores, if it sets up this type. -/
def storedFor? (typeName : String) (f : Frame σ δ) : Request → Option (Option δ)
  | .configureStore r => if r.typeName = typeName then stored? f (.configureStore r) else none
  | _ => none

/-- Whether it is this type that a request sets up without an error. -/
def setsUp? (typeName : String) (f : Frame σ δ) : Request → Option Bool
  | .configureStore r => (stored? f (.configureStore r)).map fun _ => r.typeName == typeName
  | _ => none

/-- No other type was set up without an error since this one was. -/
def LastSetUp (typeName : String) (server : Server σ δ) (world : σ) (run : List Request) : Prop :=
  latest (setsUp? typeName) true server world run = true

/-- One request: the data of all types and of this one agree as long as this one was set up
last. -/
theorem stored?_of_setsUp {typeName : String} {f : Frame σ δ} {request : Request} {before : Bool}
    {all own : Option δ} (h : before = true → all = own)
    (hlast : (setsUp? typeName f request).getD before = true) :
    (stored? f request).getD all = (storedFor? typeName f request).getD own := by
  cases request with
  | configureStore r =>
    rw [setsUp?] at hlast
    rw [storedFor?]
    cases hstored : stored? f (.configureStore r) with
    | none =>
      rw [hstored] at hlast
      rw [ite_self]
      exact h hlast
    | some data =>
      rw [hstored] at hlast
      rw [if_pos (beq_iff_eq.mp hlast)]
      rfl
  | _ => exact h hlast

theorem latest_stored_of_lastSetUp {typeName : String} (server : Server σ δ) (world : σ)
    (before : Option δ) (run : List Request) (hlast : LastSetUp typeName server world run) :
    latest stored? before server world run =
      latest (storedFor? typeName) before server world run := by
  induction run using List.reverseRecOn with
  | nil => rfl
  | append_singleton past request ih =>
    rw [LastSetUp, latest_snoc] at hlast
    rw [latest_snoc, latest_snoc]
    exact stored?_of_setsUp ih hlast

/-- Whatever types of state stores a provider has, an instance of any of them is handed what the
last set-up without an error left, of whichever type; that is what the last set-up of its own type
left, as long as no other type was set up since. -/
theorem store_data_of_last_setUp (provider : Provider σ δ) (options : ServerOptions) (world : σ)
    (run : List Request) (request : Request) :
    let started := Server.start provider options world
    let f := afterRun started.1 started.2 run
    ∀ call ∈ (serve f.server request f.world).1.1.calls, ∀ typeName data,
      call.callback = .configureInstance "state store" typeName data →
      data = latest stored? none started.1 started.2 run ∧
        (LastSetUp typeName started.1 started.2 run →
          data = latest (storedFor? typeName) none started.1 started.2 run) := by
  intro started f call hcall typeName data hcallback
  have hands := answer_hands f.server f.world request call hcall
  rw [hcallback] at hands
  have hdata : data = latest stored? none started.1 started.2 run :=
    hands.trans (afterRun_storeData started.1 started.2 run)
  refine ⟨hdata, fun hlast => ?_⟩
  rw [← latest_stored_of_lastSetUp _ _ _ _ hlast]
  exact hdata

/-! ## Two places -/

/-- A state store that gives the name of its place to its instances. -/
def placeActions (place : String) : StateStore.Actions Nat String where
  setUp _ := pure (some place, [])
  getStates := pure ([], [])
  read _ := pure ([], [])
  write _ _ := pure []
  lock _ _ := pure ("", [])
  unlock _ _ := pure []
  deleteState _ := pure []
  validateConfig := none

def placeStore (place : String) : StateStore Nat String where
  name := fun provider => pure (provider ++ "_" ++ place)
  declare := pure ⟨.empty, []⟩
  configure := some fun _ => pure (placeActions place, [])
  actions := placeActions place

/-- A provider of a state store nearby and one far away. -/
def placesProvider : Provider Nat String where
  metadata := pure ⟨"lone", "1"⟩
  declare := pure ⟨.empty, []⟩
  metaSchema := none
  configure _ := pure (.none, [])
  validateConfig := none
  resources := pure []
  dataSources := pure []
  ephemeralResources := pure []
  functions := pure []
  stateStores := pure [pure (placeStore "near"), pure (placeStore "far")]

/-- Set the store of the place up. -/
def setUpPlace (place : String) : Request := .configureStore ⟨"lone_" ++ place, none, ⟨false⟩⟩

def placesServer : Server Nat String := (Server.start placesProvider .standard 0).1

/-- The answer when the states of the store nearby are listed after a run. -/
def nearListing (run : List Request) : Answer String Result :=
  let f := afterRun placesServer 0 run
  (serve f.server (.getStates "lone_near") f.world).1.1

/-- Set up last, the store nearby is handed its own data. -/
theorem near_handed_own_data :
    let run := [setUpPlace "far", setUpPlace "near"]
    LastSetUp "lone_near" placesServer 0 run ∧
      some "near" = latest (storedFor? "lone_near") none placesServer 0 run ∧
      ∃ call ∈ (nearListing run).calls,
        call.callback = .configureInstance "state store" "lone_near" (some "near") := by
  intro run
  have hlast : latest (setsUp? "lone_near") true placesServer 0 run = true := by decide +kernel
  have hcalls : (nearListing run).calls.map (·.callback) =
      [.configureInstance "state store" "lone_near" (some "near"), .getStates] := rfl
  have hmem : .configureInstance "state store" "lone_near" (some "near") ∈
      (nearListing run).calls.map (·.callback) := hcalls ▸ List.mem_cons_self
  obtain ⟨call, hcall, hcallback⟩ := List.mem_map.mp hmem
  refine ⟨hlast, ?_, call, hcall, hcallback⟩
  exact (store_data_of_last_setUp placesProvider .standard 0 run (.getStates "lone_near")
    call hcall _ _ hcallback).2 hlast

/-- The store nearby is handed the data of the one far away, which was set up after it. -/
theorem near_handed_far_data :
    let run := [setUpPlace "near", setUpPlace "far"]
    (nearListing run).calls.map (·.callback) =
        [.configureInstance "state store" "lone_near" (some "far"), .getStates] ∧
      latest (storedFor? "lone_near") none placesServer 0 run = some "near" := ⟨rfl, rfl⟩

end ProviderKit.Server
