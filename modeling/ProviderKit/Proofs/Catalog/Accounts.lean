import ProviderKit.Proofs.Catalog.Grounded
import ProviderKit.Proofs.Listing

-- What becomes of declarations. Of each name a catalog keeps the first declaration. It reports every
-- later one, and every one without a name, in the order of declaration. So no declaration is lost,
-- and whoever looks a name up is told all reports again.

namespace ProviderKit

variable {σ ι κ η : Type}

/-! ## What is declared -/

namespace Kind

variable {k : Kind σ ι κ η} {providerName : String} {factories : List (Factory σ ι)} {world : σ}
  {i : Nat} {d : Declared σ ι κ}

/-- The world when it is the turn of the factory at a position. -/
def turn (k : Kind σ ι κ η) (providerName : String) (factories : List (Factory σ ι)) (world : σ)
    (i : Nat) : σ :=
  (k.inspectAll providerName (factories.take i) world).2

/-- In its turn the factory at a position makes an instance, and this has the name and the
capabilities that are declared. -/
inductive DeclaresAt (k : Kind σ ι κ η) (providerName : String) (factories : List (Factory σ ι))
    (world : σ) : Nat → Declared σ ι κ → Prop
  | intro {i : Nat} {factory : Factory σ ι} {fresh : ι} {name : String} {made named : σ}
      (hfactory : factories[i]? = some factory)
      (hmade : factory (k.turn providerName factories world i) = (fresh, made))
      (hnamed : k.name providerName fresh made = (name, named)) :
      DeclaresAt k providerName factories world i ⟨name, factory, k.capabilities fresh⟩

theorem inspect_eq (k : Kind σ ι κ η) (providerName : String) (factory : Factory σ ι) (world : σ) :
    k.inspect providerName factory world =
      let (fresh, made) := factory world
      let (name, named) := k.name providerName fresh made
      (⟨name, factory, k.capabilities fresh⟩, named) := rfl

theorem inspectAll_cons (k : Kind σ ι κ η) (providerName : String) (factory : Factory σ ι)
    (rest : List (Factory σ ι)) (world : σ) :
    k.inspectAll providerName (factory :: rest) world =
      let inspected := k.inspect providerName factory world
      let others := k.inspectAll providerName rest inspected.2
      (inspected.1 :: others.1, others.2) := rfl

theorem turn_succ (k : Kind σ ι κ η) (providerName : String) (factory : Factory σ ι)
    (rest : List (Factory σ ι)) (world : σ) (i : Nat) :
    k.turn providerName (factory :: rest) world (i + 1) =
      k.turn providerName rest (k.inspect providerName factory world).2 i := rfl

theorem length_inspectAll (k : Kind σ ι κ η) (providerName : String)
    (factories : List (Factory σ ι)) (world : σ) :
    (k.inspectAll providerName factories world).1.length = factories.length := by
  induction factories generalizing world with
  | nil => rfl
  | cons factory rest ih => simp [inspectAll_cons, ih]

theorem getElem?_inspectAll (k : Kind σ ι κ η) (providerName : String)
    (factories : List (Factory σ ι)) (world : σ) (i : Nat) :
    (k.inspectAll providerName factories world).1[i]? =
      factories[i]?.map fun factory =>
        (k.inspect providerName factory (k.turn providerName factories world i)).1 := by
  induction factories generalizing world i with
  | nil => rfl
  | cons factory rest ih =>
    cases i with
    | zero => rfl
    | succ i => simp [inspectAll_cons, ih, turn_succ]

/-- What is found at a position is what the factory there declares. -/
theorem getElem?_inspectAll_eq_some_iff :
    (k.inspectAll providerName factories world).1[i]? = some d ↔
      k.DeclaresAt providerName factories world i d := by
  rw [getElem?_inspectAll, Option.map_eq_some_iff]
  constructor
  · rintro ⟨factory, hfactory, rfl⟩
    exact .intro hfactory rfl rfl
  · rintro ⟨hfactory, hmade, hnamed⟩
    refine ⟨_, hfactory, ?_⟩
    rw [inspect_eq, hmade]
    dsimp only
    rw [hnamed]

/-- What is reported of a declaration that is left out. -/
def objection (k : Kind σ ι κ η) (i : Nat) (d : Declared σ ι κ) : Diagnostic :=
  if d.name = "" then k.nameMissing i else k.duplicate d.name

theorem isError_objection (k : Kind σ ι κ η) (i : Nat) (d : Declared σ ι κ) :
    (k.objection i d).isError = true := by
  unfold objection
  split <;> rfl

end Kind

/-! ## What is kept -/

/-- A declaration at a position has no name, or an earlier one has its name. -/
structure LeftOut (ds : List (Declared σ ι κ)) (x : Nat × Declared σ ι κ) : Prop where
  declared : ds[x.1]? = some x.2
  unfit : x.2.name = "" ∨ ∃ e ∈ ds.take x.1, e.name = x.2.name

/-- Whether a declaration is left out is decided by those before it. -/
theorem leftOut_snoc_iff {ds : List (Declared σ ι κ)} {d : Declared σ ι κ}
    {x : Nat × Declared σ ι κ} :
    LeftOut (ds ++ [d]) x ↔
      LeftOut ds x ∨ (x = (ds.length, d) ∧ (d.name = "" ∨ ∃ e ∈ ds, e.name = d.name)) := by
  obtain ⟨i, f⟩ := x
  have hbefore (hf : ds[i]? = some f) : (ds ++ [d]).take i = ds.take i :=
    List.take_append_of_le_length (Nat.le_of_lt (List.getElem?_eq_some_iff.mp hf).1)
  constructor
  · rintro ⟨hdeclared, hunfit⟩
    rcases getElem?_snoc_eq_some_iff.mp hdeclared with hf | ⟨rfl, rfl⟩
    · rw [hbefore hf] at hunfit
      exact .inl ⟨hf, hunfit⟩
    · rw [List.take_left] at hunfit
      exact .inr ⟨rfl, hunfit⟩
  · rintro (⟨hf, hunfit⟩ | ⟨heq, hunfit⟩)
    · refine ⟨getElem?_snoc_eq_some_iff.mpr (.inl hf), ?_⟩
      rw [hbefore hf]
      exact hunfit
    · cases heq
      refine ⟨getElem?_snoc_eq_some_iff.mpr (.inr ⟨rfl, rfl⟩), ?_⟩
      rw [List.take_left]
      exact hunfit

namespace Catalog

variable {k : Kind σ ι κ η} {c : Catalog σ ι κ} {ds : List (Declared σ ι κ)} {d : Declared σ ι κ}

/-- The catalog says of each declaration what became of it. -/
structure AccountsFor (k : Kind σ ι κ η) (c : Catalog σ ι κ) (ds : List (Declared σ ι κ)) :
    Prop where
  /-- No name has two entries. -/
  ascending : Keyed.Ascending c.entries
  /-- The entry of a name is that of the first declaration with the name. -/
  entries : ∀ name, Keyed.get? c.entries name =
    if name = "" then none else (ds.find? fun d => d.name = name).map (·.entry)
  /-- Each declaration that is left out is reported, in the order of declaration. -/
  reports : ∃ out, Lists Prod.fst (LeftOut ds) out ∧
    c.diagnostics = out.map fun x => k.objection x.1 x.2
  /-- A declaration is either kept or reported. -/
  all : c.entries.length + c.diagnostics.length = ds.length

theorem accountsFor_empty (k : Kind σ ι κ η) : AccountsFor k (empty : Catalog σ ι κ) [] where
  ascending := List.Pairwise.nil
  entries name := by simp [empty]
  reports := by
    refine ⟨[], Lists.of_none ?_, rfl⟩
    intro x hx
    simpa using hx.declared
  all := rfl

theorem find?_name_isSome_iff {name : String} :
    (ds.find? fun d => d.name = name).isSome = true ↔ ∃ d ∈ ds, d.name = name := by
  simp [List.find?_isSome]

theorem AccountsFor.isSome_get?_iff (h : AccountsFor k c ds) {name : String} :
    (Keyed.get? c.entries name).isSome = true ↔ name ≠ "" ∧ ∃ d ∈ ds, d.name = name := by
  rw [h.entries]
  by_cases hname : name = ""
  · simp [hname]
  · rw [if_neg hname, Option.isSome_map, find?_name_isSome_iff]
    simp [hname]

/-- What becomes of one more declaration. -/
theorem add_eq (k : Kind σ ι κ η) (c : Catalog σ ι κ) (i : Nat) (d : Declared σ ι κ) :
    c.add k i d =
      if d.name = "" ∨ (Keyed.get? c.entries d.name).isSome then
        ⟨c.entries, c.diagnostics ++ [k.objection i d]⟩
      else ⟨Keyed.insert c.entries d.name d.entry, c.diagnostics⟩ := by
  unfold add Kind.objection
  by_cases hname : d.name = ""
  · simp [hname]
  · by_cases hkept : (Keyed.get? c.entries d.name).isSome = true
    · simp [hname, hkept]
    · simp [hname, hkept]

/-- A declaration without a name, or with one that is taken, is reported. -/
theorem AccountsFor.leaveOut (h : AccountsFor k c ds)
    (hunfit : d.name = "" ∨ ∃ e ∈ ds, e.name = d.name) :
    AccountsFor k ⟨c.entries, c.diagnostics ++ [k.objection ds.length d]⟩ (ds ++ [d]) where
  ascending := h.ascending
  entries name := by
    rw [h.entries]
    by_cases hname : name = ""
    · rw [if_pos hname, if_pos hname]
    · rw [if_neg hname, if_neg hname, List.find?_append]
      by_cases hd : d.name = name
      · -- Another declaration has the name already.
        have hearlier : ∃ e ∈ ds, e.name = name := by
          rw [← hd] at hname ⊢
          exact hunfit.resolve_left hname
        obtain ⟨e, he⟩ := Option.isSome_iff_exists.mp (find?_name_isSome_iff.mpr hearlier)
        rw [he, Option.some_or]
      · simp [hd]
  reports := by
    obtain ⟨out, hout, hdiagnostics⟩ := h.reports
    refine ⟨out ++ [(ds.length, d)], ?_, by simp [hdiagnostics]⟩
    apply hout.snoc (some (ds.length, d))
    · rintro x _ hx ⟨⟩
      exact (List.getElem?_eq_some_iff.mp hx.declared).1
    · intro x
      rw [leftOut_snoc_iff, Option.some.injEq, and_iff_left hunfit]
      exact or_congr Iff.rfl eq_comm
  all := by
    have hall := h.all
    simp only [List.length_append, List.length_singleton]
    omega

/-- The first declaration of a name is kept. -/
theorem AccountsFor.keep (h : AccountsFor k c ds) (hname : d.name ≠ "")
    (hfirst : ∀ e ∈ ds, e.name ≠ d.name) :
    AccountsFor k ⟨Keyed.insert c.entries d.name d.entry, c.diagnostics⟩ (ds ++ [d]) where
  ascending := h.ascending.insert _ _
  entries name := by
    by_cases hd : name = d.name
    · subst hd
      have hnone : (ds.find? fun e => e.name = d.name) = none := by simpa using hfirst
      rw [Keyed.get?_insert_self, if_neg hname, List.find?_append, hnone]
      simp
    · rw [Keyed.get?_insert_of_ne _ _ hd, h.entries, List.find?_append]
      simp [Ne.symm hd]
  reports := by
    obtain ⟨out, hout, hdiagnostics⟩ := h.reports
    refine ⟨out, ?_, hdiagnostics⟩
    have hkept : ¬ (d.name = "" ∨ ∃ e ∈ ds, e.name = d.name) := by
      rintro (hempty | ⟨e, he, heq⟩)
      · exact hname hempty
      · exact hfirst e he heq
    refine ⟨hout.ordered, fun x => ?_⟩
    rw [hout.mem_iff, leftOut_snoc_iff]
    simp [hkept]
  all := by
    have hnone : Keyed.get? c.entries d.name = none := by
      rw [← Option.not_isSome_iff_eq_none, h.isSome_get?_iff]
      rintro ⟨-, e, he, heq⟩
      exact hfirst e he heq
    have hall := h.all
    dsimp only
    rw [Keyed.length_insert_of_get?_eq_none hnone, List.length_append, List.length_singleton]
    omega

theorem AccountsFor.add (h : AccountsFor k c ds) (d : Declared σ ι κ) :
    AccountsFor k (c.add k ds.length d) (ds ++ [d]) := by
  rw [add_eq]
  split
  · next hunfit =>
    apply h.leaveOut
    rw [h.isSome_get?_iff] at hunfit
    rcases hunfit with hempty | ⟨-, hearlier⟩
    · exact .inl hempty
    · exact .inr hearlier
  · next hfit =>
    rw [h.isSome_get?_iff, not_or] at hfit
    obtain ⟨hname, hfirst⟩ := hfit
    apply h.keep hname
    intro e he heq
    exact hfirst ⟨hname, e, he, heq⟩

/-- Declarations from a position on are accounted for one by one. -/
theorem AccountsFor.addAll (h : AccountsFor k c ds) (rest : List (Declared σ ι κ)) :
    AccountsFor k (c.addAll k ds.length rest) (ds ++ rest) := by
  -- The catalog accounts for those that came before, so the next position is their number.
  induction rest generalizing c ds with
  | nil => simpa [Catalog.addAll] using h
  | cons d rest ih =>
    have hrest := ih (h.add d)
    simpa [Catalog.addAll] using hrest

theorem accountsFor_ofDeclared (k : Kind σ ι κ η) (ds : List (Declared σ ι κ)) :
    AccountsFor k (ofDeclared k ds) ds :=
  (accountsFor_empty k).addAll ds

example (k : Kind σ ι κ η) (a b : Entry σ ι κ) :
    let c := ofDeclared k [⟨"upper", a⟩, ⟨"", b⟩, ⟨"upper", b⟩, ⟨"lower", b⟩]
    c.entries = [("lower", b), ("upper", a)] ∧
      c.diagnostics = [k.nameMissing 1, k.duplicate "upper"] := by
  cbv

theorem mem_names_iff {name : String} :
    name ∈ c.names ↔ (Keyed.get? c.entries name).isSome = true := by
  rw [Option.isSome_iff_exists]
  constructor
  · exact Keyed.exists_get?_of_mem_keys
  · rintro ⟨entry, hentry⟩
    exact Keyed.mem_keys_of_get? hentry

theorem AccountsFor.errors_eq (h : AccountsFor k c ds) :
    Diagnostics.errors c.diagnostics = c.diagnostics := by
  obtain ⟨out, -, hdiagnostics⟩ := h.reports
  unfold Diagnostics.errors
  rw [List.filter_eq_self, hdiagnostics]
  intro report hreport
  obtain ⟨x, -, rfl⟩ := List.mem_map.mp hreport
  exact k.isError_objection x.1 x.2

theorem lookup_eq (k : Kind σ ι κ η) (c : Catalog σ ι κ) (name : String) :
    c.lookup k name = (Keyed.get? c.entries name,
      c.diagnostics ++ if name ∈ c.names then [] else [k.notFound name]) := by
  unfold lookup
  cases hentry : Keyed.get? c.entries name <;> simp [mem_names_iff, hentry]

/-- Whatever factories there are, the catalog has entries for exactly the names that they declare,
without the empty one. Each entry is the first one that was declared with its name; for every other
declaration there is an error, in the order of declaration. So entries and errors together are as
many as factories. A look-up tells all these errors, and one more if there is no such entry. -/
theorem ofDeclared_loses_nothing (k : Kind σ ι κ η) (providerName : String)
    (factories : List (Factory σ ι)) (world : σ) :
    let ds := (k.inspectAll providerName factories world).1
    let c := ofDeclared k ds
    (∀ i d, ds[i]? = some d ↔ k.DeclaresAt providerName factories world i d) ∧
      (∀ name, name ∈ c.names ↔ name ≠ "" ∧ ∃ d ∈ ds, d.name = name) ∧
      AccountsFor k c ds ∧
      Diagnostics.errors c.diagnostics = c.diagnostics ∧
      c.entries.length + c.diagnostics.length = factories.length ∧
      ∀ name, (k.notFound name).isError = true ∧
        c.lookup k name = (Keyed.get? c.entries name,
          c.diagnostics ++ if name ∈ c.names then [] else [k.notFound name]) := by
  intro ds c
  have haccounts : AccountsFor k c ds := accountsFor_ofDeclared k ds
  refine ⟨?_, ?_, haccounts, haccounts.errors_eq, ?_, ?_⟩
  · intro i d
    exact Kind.getElem?_inspectAll_eq_some_iff
  · intro name
    rw [mem_names_iff, haccounts.isSome_get?_iff]
  · rw [haccounts.all, k.length_inspectAll]
  · intro name
    exact ⟨rfl, lookup_eq k c name⟩

end Catalog

end ProviderKit
