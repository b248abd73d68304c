import ProviderKit.Proofs.Json.Objects
import ProviderKit.Proofs.PrivateState.Encoding
import ProviderKit.Proofs.Text.Base64

-- Private state survives being stored: what was decoded, and then changed by the provider under
-- its own keys, is decoded again from its encoding. The entries of the framework and of the
-- provider are kept apart by their keys, so one object holds both and loses neither.

namespace ProviderKit

namespace PrivateState

/-! ## Both owners -/

/-- Storable entries are taken in one after the other, each with its owner. -/
theorem takeIn_eq {entries : Keyed Bytes} (h : ∀ e ∈ entries, valueProblem? e.2 = none)
    (s : PrivateState) :
    ∃ t, takeIn s entries = .ok t ∧
      t.framework = (Keyed.restrict isFrameworkKey entries).foldl
        (fun d e => Keyed.insert d e.1 e.2) s.framework ∧
      t.provider.entries = (Keyed.restrict (fun k => !isFrameworkKey k) entries).foldl
        (fun d e => Keyed.insert d e.1 e.2) s.provider.entries := by
  induction entries generalizing s with
  | nil => exact ⟨s, rfl, rfl, rfl⟩
  | cons e rest ih =>
    obtain ⟨key, raw⟩ := e
    have hraw : valueProblem? raw = none := h (key, raw) List.mem_cons_self
    have hrest := fun e he => h e (List.mem_cons_of_mem _ he)
    unfold takeIn
    split
    · next problem hproblem =>
      rw [hraw] at hproblem
      cases hproblem
    · split
      · next hkey =>
        rw [Keyed.restrict_cons, Keyed.restrict_cons, if_pos hkey, if_neg (by simp [hkey]),
          List.foldl_cons]
        exact ih hrest _
      · next hkey =>
        rw [Keyed.restrict_cons, Keyed.restrict_cons, if_neg hkey, if_pos (by simp [hkey]),
          List.foldl_cons]
        exact ih hrest _

/-! ## The object that is stored -/

theorem unwrap_spelled (d : Keyed Bytes) : unwrap (Keyed.mapValues spelled d) = some d := by
  induction d with
  | nil => rfl
  | cons e rest ih =>
    obtain ⟨key, raw⟩ := e
    change unwrap ((key, .string (String.ofList (Base64.encode raw))) ::
      Keyed.mapValues spelled rest) = _
    rw [unwrap, ih, String.toList_ofList, Base64.decode_encode]
    rfl

theorem parse_spelled {d : Keyed Bytes} (h : Keyed.Ascending d) :
    Json.parseObjectBytes (Bytes.ofText (Json.object (Keyed.mapValues spelled d)).render) =
      .ok (Keyed.mapValues spelled d) := by
  refine Json.parseObjectBytes_render (Keyed.ascending_mapValues _ h) fun e he => ?_
  obtain ⟨f, -, rfl⟩ := List.mem_map.mp he
  exact Json.readBack_string _ _

section

variable {s : PrivateState} (h : s.IsWellFormed)
include h

theorem restrict_framework_merged : Keyed.restrict isFrameworkKey s.merged = s.framework := by
  have hprovider : Keyed.restrict isFrameworkKey s.provider.entries = [] :=
    Keyed.restrict_eq_nil fun e he => (s.provider.storable e he).1
  rw [merged, Keyed.restrict_ofEntries, Keyed.restrict_append, hprovider,
    Keyed.restrict_eq_self h.ownKeys, List.append_nil, Keyed.ofEntries_of_ascending h.ascending]

theorem restrict_provider_merged :
    Keyed.restrict (fun k => !isFrameworkKey k) s.merged = s.provider.entries := by
  have hframework : Keyed.restrict (fun k => !isFrameworkKey k) s.framework = [] :=
    Keyed.restrict_eq_nil fun e he => by rw [h.ownKeys e he]; rfl
  have hprovider : Keyed.restrict (fun k => !isFrameworkKey k) s.provider.entries =
      s.provider.entries :=
    Keyed.restrict_eq_self fun e he => by rw [(s.provider.storable e he).1]; rfl
  rw [merged, Keyed.restrict_ofEntries, Keyed.restrict_append, hframework, hprovider,
    List.nil_append, Keyed.ofEntries_of_ascending s.provider.ascending]

/-- Each entry of the one dictionary finds its owner again. -/
theorem takeIn_merged : takeIn empty s.merged = .ok s := by
  have hraw : ∀ e ∈ s.merged, valueProblem? e.2 = none := by
    intro e he
    exact h.storable.entries e (Keyed.mem_of_mem_ofEntries he)
  obtain ⟨t, ht, hframework, hprovider⟩ := takeIn_eq hraw empty
  rw [restrict_framework_merged h] at hframework
  rw [restrict_provider_merged h] at hprovider
  rw [ht]
  congr 1
  cases s with
  | mk framework provider =>
    cases t with
    | mk framework' provider' =>
      congr 1
      · exact hframework.trans (Keyed.ofEntries_of_ascending h.ascending)
      · exact ProviderData.ext (hprovider.trans (Keyed.ofEntries_of_ascending provider.ascending))

/-- Private state is decoded from its encoding, and nothing is reported. -/
theorem decode_encode : decode s.encode.1 = (s, []) := by
  have htake := takeIn_merged h
  rw [encode_eq h.storable]
  by_cases hempty : s.merged = []
  · rw [hempty] at htake
    cases htake
    rw [if_pos hempty]
    rfl
  · have hbytes : Bytes.ofText (Json.object (Keyed.mapValues spelled s.merged)).render ≠ [] := by
      cases hmerged : s.merged with
      | nil => exact absurd hmerged hempty
      | cons e rest =>
        rw [Json.render, Bytes.ofText_ofList]
        exact List.cons_ne_nil _ _
    rw [if_neg hempty, decode, if_neg hbytes]
    simp only [parse_spelled (d := s.merged) (Keyed.ascending_ofEntries _), unwrap_spelled, htake]

end

end PrivateState

/-! ## Values that a provider stores -/

namespace ProviderData

/-- Store values under keys one after the other, going on whatever is reported. -/
def setAll (d : ProviderData) (calls : List (String × Bytes)) : ProviderData :=
  calls.foldl (fun d call => (d.set call.1 call.2).1) d

/-- What is refused leaves everything as it was. -/
theorem set_of_hasError {d : ProviderData} {key : String} {value : Bytes}
    (h : Diagnostics.hasError (d.set key value).2 = true) : (d.set key value).1 = d := by
  unfold set at h ⊢
  split
  · rfl
  · next hkey =>
    rw [dif_neg hkey] at h
    split
    · next hvalue =>
      rw [if_pos hvalue] at h
      cases h
    · next hvalue =>
      rw [if_neg hvalue] at h
      split
      · next hnone =>
        split at h
        · cases h
        · next problem hsome =>
          rw [hnone] at hsome
          cases hsome
      · rfl

end ProviderData

namespace PrivateState

/-- Whatever bytes private state came as, and whatever the provider then stores: it is encoded
without a word, it is decoded again as it was, with the entries of the framework untouched, and a
value that was refused left no trace. -/
theorem decoded_state_survives_storing (bytes : Bytes) (calls : List (String × Bytes)) :
    let s := (decode bytes).1
    let t : PrivateState := { s with provider := s.provider.setAll calls }
    t.encode.2 = [] ∧ decode t.encode.1 = (t, []) ∧ t.framework = s.framework ∧
      ∀ (d : ProviderData) (key : String) (value : Bytes),
        Diagnostics.hasError (d.set key value).2 = true → (d.set key value).1 = d := by
  intro s t
  have ht : t.IsWellFormed := (isWellFormed_decode bytes).withProvider _
  exact ⟨encode_silent ht.storable, decode_encode ht, rfl,
    fun _ _ _ h => ProviderData.set_of_hasError h⟩

/-- Private state with an entry of the framework and one of the provider. -/
def taggedBytes : Bytes := Bytes.ofText "\x7b\".own\":\"e30=\",\"tag\":\"MQ==\"\x7d"

/-- Of three values the second, under a key of the framework, is refused. -/
theorem tagged_state_survives_storing :
    let s := (decode taggedBytes).1
    let t : PrivateState :=
      { s with provider := s.provider.setAll [("tag", []), (".own", [49]), ("seen", [50])] }
    s.framework = [(".own", [123, 125])] ∧ s.provider.entries = [("tag", [49])] ∧
      Diagnostics.hasError (s.provider.set ".own" [49]).2 = true ∧
      (s.provider.set ".own" [49]).1 = s.provider ∧
      t.provider.entries = [("seen", [50])] ∧ t.encode.2 = [] ∧ decode t.encode.1 = (t, []) := by
  intro s t
  have hrefused : Diagnostics.hasError (s.provider.set ".own" [49]).2 = true := by decide +kernel
  obtain ⟨hsilent, hdecoded, -, hset⟩ := decoded_state_survives_storing taggedBytes
    [("tag", []), (".own", [49]), ("seen", [50])]
  exact ⟨by decide +kernel, by decide +kernel, hrefused, hset _ _ _ hrefused, by decide +kernel,
    hsilent, hdecoded⟩

end PrivateState

end ProviderKit
