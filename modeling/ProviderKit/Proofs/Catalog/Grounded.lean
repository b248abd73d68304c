import ProviderKit.Catalog.Shelf
import ProviderKit.Proofs.Keyed
import ProviderKit.Proofs.Provider.Conduct
import ProviderKit.Proofs.Value.Contents

-- Where the contents of a shelf come from. What is kept was found out from the provider at some
-- time, and looking things up keeps it so. A name that is resolved stands for an entry of a catalog
-- that the provider declared, with a description that it gave without an error.

namespace ProviderKit

variable {σ ι κ η α γ : Type}

/-- Where the declarations of a kind come from. -/
structure Source (σ ι κ η : Type) where
  kind : Kind σ ι κ η
  providerName : String
  declarations : StateM σ (List (Factory σ ι))

/-! ## Catalogs -/

namespace Catalog

variable {k : Kind σ ι κ η} {c : Catalog σ ι κ}

theorem mem_add {position : Nat} {d : Declared σ ι κ} {e : String × Entry σ ι κ}
    (h : e ∈ (c.add k position d).entries) : e ∈ c.entries ∨ e = (d.name, d.entry) := by
  unfold add at h
  split at h
  · exact .inl h
  · split at h
    · exact .inl h
    · exact (Keyed.mem_insert h).symm

theorem mem_addAll {position : Nat} {ds : List (Declared σ ι κ)} {e : String × Entry σ ι κ}
    (h : e ∈ (addAll k c position ds).entries) :
    e ∈ c.entries ∨ ∃ d ∈ ds, e = (d.name, d.entry) := by
  induction ds generalizing c position with
  | nil => exact .inl h
  | cons d rest ih =>
    rcases ih h with hmem | ⟨other, hother, heq⟩
    · rcases mem_add hmem with hmem | heq
      · exact .inl hmem
      · exact .inr ⟨d, List.mem_cons_self, heq⟩
    · exact .inr ⟨other, List.mem_cons_of_mem _ hother, heq⟩

theorem ascending_add (h : Keyed.Ascending c.entries) (position : Nat) (d : Declared σ ι κ) :
    Keyed.Ascending (c.add k position d).entries := by
  unfold add
  split
  · exact h
  · split
    · exact h
    · exact h.insert _ _

theorem ascending_addAll (h : Keyed.Ascending c.entries) (position : Nat)
    (ds : List (Declared σ ι κ)) : Keyed.Ascending (addAll k c position ds).entries := by
  induction ds generalizing c position with
  | nil => exact h
  | cons d rest ih => exact ih (ascending_add h position d) _

end Catalog

theorem Kind.factory_of_mem_inspectAll (k : Kind σ ι κ η) (providerName : String)
    {factories : List (Factory σ ι)} {world : σ} {d : Declared σ ι κ}
    (h : d ∈ (k.inspectAll providerName factories world).1) : d.entry.factory ∈ factories := by
  induction factories generalizing world with
  | nil => cases h
  | cons factory rest ih =>
    rcases List.mem_cons.mp h with rfl | h
    · exact List.mem_cons_self
    · exact List.mem_cons_of_mem _ (ih h)

namespace Source

variable {source : Source σ ι κ η} {name : String} {entry : Entry σ ι κ} {d : η}

/-- Build the catalog of all that the provider declares. -/
def build (source : Source σ ι κ η) : StateM σ (Catalog σ ι κ) := do
  let factories ← source.declarations
  return .ofDeclared source.kind (← source.kind.inspectAll source.providerName factories)

/-- The catalog that is built in a world. -/
def catalog (source : Source σ ι κ η) (world : σ) : Catalog σ ι κ := (source.build world).1

/-- In some world, the entry has the name in the catalog. -/
def Declares (source : Source σ ι κ η) (name : String) (entry : Entry σ ι κ) : Prop :=
  ∃ world, Keyed.get? (source.catalog world).entries name = some entry

/-- In some world, a fresh instance of the entry gives the description without an error. -/
def Describes (source : Source σ ι κ η) (entry : Entry σ ι κ) (d : η) : Prop :=
  ∃ world, (source.kind.describeFresh entry.factory world).1.1 = d ∧
    Diagnostics.hasError (source.kind.describeFresh entry.factory world).1.2 = false

/-- The provider declares an entry under the name, and describes it so. -/
structure Offers (source : Source σ ι κ η) (name : String) (entry : Entry σ ι κ) (d : η) :
    Prop where
  declared : source.Declares name entry
  described : source.Describes entry d

theorem ascending_catalog (source : Source σ ι κ η) (world : σ) :
    Keyed.Ascending (source.catalog world).entries :=
  Catalog.ascending_addAll (c := .empty) List.Pairwise.nil _ _

/-- What is declared is made by a factory of the provider. -/
theorem Declares.factory (h : source.Declares name entry) :
    ∃ world, entry.factory ∈ (source.declarations world).1 := by
  obtain ⟨world, hget⟩ := h
  refine ⟨world, ?_⟩
  rcases Catalog.mem_addAll (Keyed.mem_of_get? hget) with hmem | ⟨declared, hdeclared, heq⟩
  · cases hmem
  · cases heq
    exact source.kind.factory_of_mem_inspectAll _ hdeclared

/-- Listing, naming and describing declarations keeps a conduct. -/
structure Keeps (C : Conduct σ) (Good : ι → Prop) (source : Source σ ι κ η) : Prop where
  listing : KeepsListing C Good source.declarations
  name : ∀ i, Good i → C.Silent (source.kind.name source.providerName i)
  describe : ∀ i, Good i → C.Silent (source.kind.describe i)

variable {C : Conduct σ} {Good : ι → Prop}

theorem Keeps.factory (h : source.Keeps C Good) (hd : source.Declares name entry) :
    Factory.Keeps C Good entry.factory := by
  obtain ⟨world, hmem⟩ := hd.factory
  exact h.listing.factories world _ hmem

theorem Keeps.describeFresh (h : source.Keeps C Good) {factory : Factory σ ι}
    (hfactory : factory.Keeps C Good) : C.Silent (source.kind.describeFresh factory) :=
  hfactory.make.bind fun world => h.describe _ (hfactory.made world)

theorem Keeps.inspectAll (h : source.Keeps C Good) {factories : List (Factory σ ι)}
    (hfactories : ∀ factory ∈ factories, Factory.Keeps C Good factory) :
    C.Silent (source.kind.inspectAll source.providerName factories) := by
  induction factories with
  | nil => exact Conduct.silent_pure _
  | cons factory rest ih =>
    have hfactory := hfactories factory List.mem_cons_self
    have hinspect : C.Silent (source.kind.inspect source.providerName factory) :=
      hfactory.make.bind fun world => (h.name _ (hfactory.made world)).bind fun _ =>
        Conduct.silent_pure _
    exact hinspect.bind fun _ => (ih fun f hf => hfactories f (List.mem_cons_of_mem _ hf)).bind
      fun _ => Conduct.silent_pure _

theorem Keeps.build (h : source.Keeps C Good) : C.Silent source.build :=
  h.listing.list.bind fun world => (h.inspectAll (h.listing.factories world)).bind fun _ =>
    Conduct.silent_pure _

end Source

/-! ## Shelves -/

namespace Shelf

variable {source : Source σ ι κ η} {C : Conduct σ} {Good : ι → Prop}

/-- What is kept comes from the source: the catalog as it was built in some world, and
descriptions that entries of this catalog gave without errors. -/
structure Grounded (source : Source σ ι κ η) (shelf : Shelf σ ι κ η) : Prop where
  catalog : ∀ c, shelf.catalog = some c → ∃ world, c = source.catalog world
  descriptions : ∀ name d, Keyed.get? shelf.descriptions name = some d →
    ∃ c entry, shelf.catalog = some c ∧ Keyed.get? c.entries name = some entry ∧
      source.Describes entry d

theorem grounded_empty (source : Source σ ι κ η) : (empty : Shelf σ ι κ η).Grounded source :=
  ⟨fun _ h => (by cases h), fun _ _ h => (by cases h)⟩

/-- The shelf is grounded and has a catalog. -/
structure Holds (source : Source σ ι κ η) (c : Catalog σ ι κ) (shelf : Shelf σ ι κ η) : Prop where
  grounded : shelf.Grounded source
  catalog : shelf.catalog = some c

theorem Holds.declares {c : Catalog σ ι κ} {shelf : Shelf σ ι κ η} (h : shelf.Holds source c)
    {name : String} {entry : Entry σ ι κ} (hentry : Keyed.get? c.entries name = some entry) :
    source.Declares name entry := by
  obtain ⟨world, rfl⟩ := h.grounded.catalog c h.catalog
  exact ⟨world, hentry⟩

/-- A kept description is one that the entry of its name gave. -/
theorem Holds.describes {c : Catalog σ ι κ} {shelf : Shelf σ ι κ η} (h : shelf.Holds source c)
    {name : String} {entry : Entry σ ι κ} (hentry : Keyed.get? c.entries name = some entry) {d : η}
    (hd : Keyed.get? shelf.descriptions name = some d) : source.Describes entry d := by
  obtain ⟨c', entry', hc, hentry', hdescribes⟩ := h.grounded.descriptions name d hd
  cases h.catalog.symm.trans hc
  cases hentry.symm.trans hentry'
  exact hdescribes

/-- On a shelf with `P`, the work keeps a conduct without reporting anything, and leaves a shelf
and an answer with `Q`. -/
def Meets (C : Conduct σ) (P : Shelf σ ι κ η → Prop) (work : Work σ ι κ η α)
    (Q : α → Shelf σ ι κ η → Prop) : Prop :=
  ∀ shelf, P shelf → C.Silent (work shelf) ∧
    ∀ world, Q (work shelf world).1.1 (work shelf world).1.2

variable {P : Shelf σ ι κ η → Prop} {Q : α → Shelf σ ι κ η → Prop}
  {R : γ → Shelf σ ι κ η → Prop} {work : Work σ ι κ η α} {next : α → Work σ ι κ η γ}

theorem meets_pure {a : α} (h : ∀ shelf, P shelf → Q a shelf) :
    Meets C P (pure a : Work σ ι κ η α) Q :=
  fun shelf hshelf => ⟨Conduct.silent_pure _, fun _ => h shelf hshelf⟩

theorem Meets.bind (h : Meets C P work Q) (hnext : ∀ a, Meets C (Q a) (next a) R) :
    Meets C P (work >>= next) R := by
  intro shelf hshelf
  obtain ⟨hsilent, hq⟩ := h shelf hshelf
  refine ⟨?_, fun world => (hnext _ _ (hq world)).2 _⟩
  change C.Silent (work shelf >>= fun done => next done.1 done.2)
  exact hsilent.bind fun world => (hnext _ _ (hq world)).1

theorem meets_get : Meets C P (get : Work σ ι κ η (Shelf σ ι κ η)) fun a shelf =>
    P shelf ∧ a = shelf :=
  fun _ hshelf => ⟨Conduct.silent_pure _, fun _ => ⟨hshelf, rfl⟩⟩

theorem meets_modify {f : Shelf σ ι κ η → Shelf σ ι κ η} {Q : Shelf σ ι κ η → Prop}
    (h : ∀ shelf, P shelf → Q (f shelf)) :
    Meets C P (modify f : Work σ ι κ η Unit) fun _ shelf => Q shelf :=
  fun shelf hshelf => ⟨Conduct.silent_pure _, fun _ => h shelf hshelf⟩

/-- The provider's code acts, away from the shelf. -/
theorem meets_lift {action : StateM σ α} (hsilent : ∀ shelf, P shelf → C.Silent action)
    (h : ∀ shelf world, P shelf → Q (action world).1 shelf) :
    Meets C P (liftM action : Work σ ι κ η α) Q := by
  intro shelf hshelf
  refine ⟨?_, fun world => h shelf world hshelf⟩
  change C.Silent (action >>= fun a => pure (a, shelf))
  exact (hsilent shelf hshelf).bind fun _ => Conduct.silent_pure _

/-! ## Looking things up -/

theorem useCatalog_eq (source : Source σ ι κ η) :
    useCatalog source.kind source.providerName source.declarations = (do
      match (← get).catalog with
      | some c => return c
      | none =>
        let c ← source.build
        modify fun r => { r with catalog := some c }
        return c) := rfl

/-- The catalog is the one of some world, and stays. -/
theorem meets_useCatalog (h : source.Keeps C Good) :
    Meets C (Grounded source)
      (useCatalog source.kind source.providerName source.declarations) (Holds source) := by
  rw [useCatalog_eq]
  refine meets_get.bind fun kept => ?_
  split
  · next c hc => exact meets_pure fun shelf ⟨hshelf, heq⟩ => ⟨hshelf, heq ▸ hc⟩
  · next hnone =>
    have hbuild : Meets C (fun shelf => Grounded source shelf ∧ kept = shelf)
        (liftM source.build : Work σ ι κ η _) fun c shelf =>
          Grounded source shelf ∧ shelf.catalog = none ∧ ∃ world, c = source.catalog world :=
      meets_lift (fun _ _ => h.build) fun shelf world ⟨hshelf, heq⟩ =>
        ⟨hshelf, heq ▸ hnone, world, rfl⟩
    refine hbuild.bind fun c => ?_
    refine (meets_modify (Q := Holds source c) ?_).bind fun _ => meets_pure fun _ hshelf => hshelf
    rintro shelf ⟨hshelf, hcatalog, hc⟩
    refine ⟨⟨?_, ?_⟩, rfl⟩
    · intro c' hc'
      cases hc'
      exact hc
    · -- A shelf without a catalog has no descriptions either.
      intro name d hd
      obtain ⟨_, _, hsome, -⟩ := hshelf.descriptions name d hd
      rw [hcatalog] at hsome
      cases hsome

/-- A description is one that the entry gave, be it now or before. -/
theorem meets_useDescription (h : source.Keeps C Good) {c : Catalog σ ι κ} {name : String}
    {entry : Entry σ ι κ} (hentry : Keyed.get? c.entries name = some entry) :
    Meets C (Holds source c) (useDescription source.kind name entry) fun described shelf =>
      Holds source c shelf ∧ ∀ d, described.1 = some d → source.Describes entry d := by
  refine meets_get.bind fun kept => ?_
  split
  · next d hd =>
    refine meets_pure fun shelf ⟨hshelf, heq⟩ => ⟨hshelf, ?_⟩
    rintro _ ⟨⟩
    subst heq
    exact hshelf.describes hentry hd
  · next hnone =>
    have hdescribe : Meets C (fun shelf => Holds source c shelf ∧ kept = shelf)
        (liftM (source.kind.describeFresh entry.factory) : Work σ ι κ η _) fun described shelf =>
          Holds source c shelf ∧ (Diagnostics.hasError described.2 = false →
            source.Describes entry described.1) :=
      meets_lift (fun _ ⟨hshelf, _⟩ => h.describeFresh (h.factory (hshelf.declares hentry)))
        fun _ world ⟨hshelf, _⟩ => ⟨hshelf, fun hok => ⟨world, rfl, hok⟩⟩
    refine hdescribe.bind fun described => ?_
    dsimp only
    split
    · exact meets_pure fun shelf ⟨hshelf, _⟩ => ⟨hshelf, fun d hd => by cases hd⟩
    · next hok =>
      have hok : Diagnostics.hasError described.2 = false := Bool.not_eq_true _ |>.mp hok
      refine (meets_modify (Q := fun shelf => Holds source c shelf ∧
        source.Describes entry described.1) ?_).bind fun _ =>
          meets_pure fun shelf ⟨hshelf, hd⟩ => ⟨hshelf, fun d heq => by cases heq; exact hd⟩
      rintro shelf ⟨hshelf, hdescribes⟩
      refine ⟨⟨⟨hshelf.grounded.catalog, ?_⟩, hshelf.catalog⟩, hdescribes hok⟩
      intro other d hd
      by_cases hother : other = name
      · subst hother
        cases (Keyed.get?_insert_self _ _ _).symm.trans hd
        exact ⟨c, entry, hshelf.catalog, hentry, hdescribes hok⟩
      · refine hshelf.grounded.descriptions other d ?_
        exact (Keyed.get?_insert_of_ne _ _ hother).symm.trans hd

/-- What a name stands for is what the provider offers under it. -/
theorem meets_resolve (h : source.Keeps C Good) (name : String) :
    Meets C (Grounded source)
      (resolve source.kind source.providerName source.declarations name) fun answer shelf =>
        Grounded source shelf ∧
          ∀ entry d, answer.1 = some (entry, d) → source.Offers name entry d := by
  refine (meets_useCatalog h).bind fun c => ?_
  unfold Catalog.lookup
  cases hentry : Keyed.get? c.entries name with
  | none => exact meets_pure fun shelf hshelf => ⟨hshelf.grounded, fun _ _ heq => by cases heq⟩
  | some entry =>
    refine (meets_useDescription h hentry).bind fun described => ?_
    dsimp only
    split
    · exact meets_pure fun shelf ⟨hshelf, _⟩ => ⟨hshelf.grounded, fun _ _ heq => by cases heq⟩
    · next d hd =>
      refine meets_pure fun shelf ⟨hshelf, hdescribes⟩ => ⟨hshelf.grounded, ?_⟩
      intro entry' d' hanswer
      dsimp only at hanswer
      split at hanswer
      · cases hanswer
      · cases hanswer
        exact ⟨hshelf.declares hentry, hdescribes d hd⟩

theorem meets_describeEntries (h : source.Keeps C Good) {c : Catalog σ ι κ}
    {entries : List (String × Entry σ ι κ)}
    (hentries : ∀ e ∈ entries, Keyed.get? c.entries e.1 = some e.2) :
    Meets C (Holds source c) (describeEntries source.kind entries) fun _ => Holds source c := by
  induction entries with
  | nil => exact meets_pure fun _ hshelf => hshelf
  | cons e rest ih =>
    refine (meets_useDescription h (hentries e List.mem_cons_self)).bind fun _ => ?_
    refine Meets.bind (Q := fun _ => Holds source c) ?_ fun _ => meets_pure fun _ hshelf => hshelf
    intro shelf hshelf
    exact ih (fun f hf => hentries f (List.mem_cons_of_mem _ hf)) shelf hshelf.1

theorem meets_describeAll (h : source.Keeps C Good) :
    Meets C (Grounded source)
      (describeAll source.kind source.providerName source.declarations)
      fun _ => Grounded source := by
  refine (meets_useCatalog h).bind fun c => ?_
  refine Meets.bind (Q := fun _ => Holds source c) ?_ fun _ =>
    meets_pure fun _ hshelf => hshelf.grounded
  intro shelf hshelf
  refine meets_describeEntries h (fun e he => ?_) shelf hshelf
  obtain ⟨world, rfl⟩ := hshelf.grounded.catalog c hshelf.catalog
  exact Keyed.get?_of_mem (source.ascending_catalog world) he

theorem meets_listNames (h : source.Keeps C Good) :
    Meets C (Grounded source)
      (listNames source.kind source.providerName source.declarations) fun _ => Grounded source :=
  (meets_useCatalog h).bind fun _ => meets_pure fun _ hshelf => hshelf.grounded

end Shelf

end ProviderKit
