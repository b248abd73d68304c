import ProviderKit.Proofs.Keyed
import ProviderKit.PrivateState.Basic

-- Decoding private state reports nothing, or one error. What was decoded can be encoded again, also
-- after a provider stored entries of its own: nothing that stands in private state is refused.

namespace ProviderKit.PrivateState

/-! ## What decoding reports -/

theorem isError_of_takeIn {s : PrivateState} {entries : Keyed Bytes} {d : Diagnostic}
    (h : takeIn s entries = .error d) : d.isError = true := by
  induction entries generalizing s with
  | nil => cases h
  | cons e rest ih =>
    obtain ⟨key, raw⟩ := e
    unfold takeIn at h
    split at h
    · cases h
      rfl
    · split at h
      · exact ih h
      · exact ih h

theorem decode_silent_of_not_failed {bytes : Bytes}
    (h : Diagnostics.hasError (decode bytes).2 = false) : (decode bytes).2 = [] := by
  unfold decode at h ⊢
  split
  · rfl
  · next hbytes =>
    rw [if_neg hbytes] at h
    cases hparse : Json.parseObjectBytes bytes with
    | error fault =>
      rw [hparse] at h
      cases h
    | ok entries =>
      rw [hparse] at h
      cases hraw : unwrap entries with
      | none => simp only [hraw]
      | some raw =>
        simp only [hraw] at h ⊢
        cases htake : takeIn empty raw with
        | ok s => rfl
        | error d =>
          rw [htake] at h
          have hd := isError_of_takeIn htake
          simp [Diagnostics.hasError, hd] at h

/-! ## What may be stored -/

/-- The entries of the framework may all be stored; those of the provider always may. -/
def IsStorable (s : PrivateState) : Prop := ∀ e ∈ s.framework, valueProblem? e.2 = none

/-- The entries of the framework stand under its own keys, in their order, and may all be
stored. -/
structure IsWellFormed (s : PrivateState) : Prop where
  ascending : Keyed.Ascending s.framework
  ownKeys : ∀ e ∈ s.framework, isFrameworkKey e.1 = true
  storable : s.IsStorable

theorem isWellFormed_empty : empty.IsWellFormed := by
  refine ⟨List.Pairwise.nil, fun e he => ?_, fun e he => ?_⟩ <;> cases he

/-- What the provider stores is its own matter. -/
theorem IsWellFormed.withProvider {s : PrivateState} (h : s.IsWellFormed) (d : ProviderData) :
    IsWellFormed { s with provider := d } := ⟨h.ascending, h.ownKeys, h.storable⟩

theorem isWellFormed_of_takeIn {s t : PrivateState} {entries : Keyed Bytes}
    (hs : s.IsWellFormed) (h : takeIn s entries = .ok t) : t.IsWellFormed := by
  induction entries generalizing s with
  | nil =>
    cases h
    exact hs
  | cons e rest ih =>
    obtain ⟨key, raw⟩ := e
    unfold takeIn at h
    split at h
    · cases h
    · next hraw =>
      split at h
      · next hkey =>
        refine ih ⟨hs.ascending.insert key raw, fun e he => ?_, fun e he => ?_⟩ h
        · rcases Keyed.mem_insert he with rfl | he
          · exact hkey
          · exact hs.ownKeys e he
        · rcases Keyed.mem_insert he with rfl | he
          · exact hraw
          · exact hs.storable e he
      · exact ih (hs.withProvider _) h

theorem isWellFormed_decode (bytes : Bytes) : (decode bytes).1.IsWellFormed := by
  unfold decode
  split
  · exact isWellFormed_empty
  · split
    · exact isWellFormed_empty
    · split
      · exact isWellFormed_empty
      · split
        · next htake => exact isWellFormed_of_takeIn isWellFormed_empty htake
        · exact isWellFormed_empty

theorem isStorable_decode (bytes : Bytes) : (decode bytes).1.IsStorable :=
  (isWellFormed_decode bytes).storable

/-! ## The object that is stored -/

theorem ne_nil_of_valueProblem? {raw : Bytes} (h : valueProblem? raw = none) : raw ≠ [] := by
  rintro rfl
  have hempty : valueProblem? [] = some .json := by decide +kernel
  rw [hempty] at h
  cases h

/-- A value as it stands in the object. -/
def spelled (raw : Bytes) : Json := .string (String.ofList (Base64.encode raw))

theorem wrap_eq {entries : Keyed Bytes} (h : ∀ e ∈ entries, valueProblem? e.2 = none)
    (d : Keyed Bytes) :
    wrap (Keyed.mapValues spelled d) entries =
      .ok (Keyed.mapValues spelled
        (entries.foldl (fun d e => Keyed.insert d e.1 e.2) d)) := by
  induction entries generalizing d with
  | nil => rfl
  | cons e rest ih =>
    obtain ⟨key, raw⟩ := e
    have hraw : valueProblem? raw = none := h (key, raw) List.mem_cons_self
    rw [wrap, if_neg (ne_nil_of_valueProblem? hraw), hraw, List.foldl_cons,
      ← ih (fun e he => h e (List.mem_cons_of_mem _ he)), Keyed.mapValues_insert]
    rfl

/-- The entries of both owners in one dictionary. -/
def merged (s : PrivateState) : Keyed Bytes := Keyed.ofEntries (s.framework ++ s.provider.entries)

theorem IsStorable.entries {s : PrivateState} (h : s.IsStorable) :
    ∀ e ∈ s.framework ++ s.provider.entries, valueProblem? e.2 = none := by
  intro e he
  rcases List.mem_append.mp he with he | he
  · exact h e he
  · exact (s.provider.storable e he).2

theorem encode_eq {s : PrivateState} (h : s.IsStorable) :
    s.encode = (if s.merged = [] then []
      else Bytes.ofText (Json.object (Keyed.mapValues spelled s.merged)).render, []) := by
  have hwrap : wrap [] (s.framework ++ s.provider.entries) =
      .ok (Keyed.mapValues spelled s.merged) := wrap_eq h.entries []
  rw [encode, hwrap]
  cases s.merged <;> rfl

theorem encode_silent {s : PrivateState} (h : s.IsStorable) : s.encode.2 = [] := by
  rw [encode_eq h]

end ProviderKit.PrivateState
