import ProviderKit.Proofs.Catalog.Grounded
import ProviderKit.Proofs.Catalog.Lines

-- Steady sources, which give the same answer in every world. What looking things up gives does
-- then not depend on the shelf, and what it tells are always the same lines: those about a name
-- whose description is kept are not told again.

namespace ProviderKit

variable {σ ι κ η α γ : Type}

/-! ## Sources -/

namespace Source

variable {source : Source σ ι κ η} {Good : ι → Prop} {name : String} {entry : Entry σ ι κ}

/-- What is said about a name when it is described. -/
def notices (source : Source σ ι κ η) (world : σ) (name : String) : Diagnostics :=
  match Keyed.get? (source.catalog world).entries name with
  | some entry => (source.kind.describeFresh entry.factory world).1.2
  | none => []

/-- The description of an entry, if that has no error. -/
def description? (source : Source σ ι κ η) (world : σ) (entry : Entry σ ι κ) : Option η :=
  let described := (source.kind.describeFresh entry.factory world).1
  if Diagnostics.hasError described.2 then none else some described.1

theorem notices_of_entry {world : σ}
    (h : Keyed.get? (source.catalog world).entries name = some entry) :
    source.notices world name = (source.kind.describeFresh entry.factory world).1.2 := by
  rw [notices, h]

theorem hasError_notices_of_description? {world : σ} {d : η}
    (h : Keyed.get? (source.catalog world).entries name = some entry)
    (hd : source.description? world entry = some d) :
    Diagnostics.hasError (source.notices world name) = false := by
  rw [notices_of_entry h]
  unfold description? at hd
  dsimp only at hd
  split at hd
  · cases hd
  · next hok => exact Bool.eq_false_iff.mpr hok

variable (h : source.Keeps (.steady σ) Good)

include h

theorem Keeps.catalog_eq (v w : σ) : source.catalog v = source.catalog w := h.build v w

theorem Keeps.describeFresh_eq (hd : source.Declares name entry) (v w : σ) :
    (source.kind.describeFresh entry.factory v).1 = (source.kind.describeFresh entry.factory w).1 :=
  h.describeFresh (h.factory hd) v w

/-- What was described in any world is the description in this one. -/
theorem Keeps.description?_eq_some {d : η} (hd : source.Declares name entry)
    (hdescribes : source.Describes entry d) (world : σ) :
    source.description? world entry = some d := by
  obtain ⟨elsewhere, rfl, hok⟩ := hdescribes
  rw [description?, h.describeFresh_eq hd world elsewhere, hok]
  rfl

end Source

/-! ## Shelves -/

namespace Shelf

variable {source : Source σ ι κ η} {Good : ι → Prop} {here : σ}

/-- There is a description of the name. -/
def keeps (shelf : Shelf σ ι κ η) (name : String) : Bool :=
  (Keyed.get? shelf.descriptions name).isSome

theorem work_bind (work : Work σ ι κ η α) (next : α → Work σ ι κ η γ) (shelf : Shelf σ ι κ η)
    (world : σ) : (work >>= next) shelf world =
      let done := work shelf world
      next done.1.1 done.1.2 done.2 := rfl

/-- On a shelf with `P`, the work always gives the same and tells the same lines, those about
names that are kept only once. -/
def Tells (source : Source σ ι κ η) (here : σ) (P : Shelf σ ι κ η → Prop)
    (work : Work σ ι κ η (α × Diagnostics)) (a : α) (ls : List (Line String)) : Prop :=
  ∀ shelf, P shelf → ∀ world, let done := (work shelf world).1
    done.1 = (a, told (source.notices here) shelf.keeps ls) ∧
      done.2.keeps = knownAfter (source.notices here) shelf.keeps ls

theorem keeps_insert (shelf : Shelf σ ι κ η) (name : String) (d : η) :
    keeps { shelf with descriptions := Keyed.insert shelf.descriptions name d } =
      fun n => shelf.keeps n || n = name := by
  funext n
  by_cases hn : n = name
  · subst hn
    simp [keeps, Keyed.get?_insert_self]
  · simp [keeps, Keyed.get?_insert_of_ne _ _ hn, hn]

variable (h : source.Keeps (.steady σ) Good)

include h

/-- What is kept was said without an error. -/
theorem Grounded.knownSound {shelf : Shelf σ ι κ η} (hshelf : shelf.Grounded source) (here : σ) :
    KnownSound (source.notices here) shelf.keeps := by
  intro name hname
  obtain ⟨d, hd⟩ := Option.isSome_iff_exists.mp hname
  obtain ⟨c, entry, hc, hentry, elsewhere, -, hok⟩ := hshelf.descriptions name d hd
  obtain ⟨world, rfl⟩ := hshelf.catalog c hc
  have hdeclares : source.Declares name entry := ⟨world, hentry⟩
  rw [h.catalog_eq world here] at hentry
  rw [Source.notices_of_entry hentry, h.describeFresh_eq hdeclares here elsewhere]
  exact hok

/-- The catalog is always the same, and what is kept stays as it is. -/
theorem useCatalog_steady {shelf : Shelf σ ι κ η} (hshelf : shelf.Grounded source)
    (here world : σ) :
    let done := (useCatalog source.kind source.providerName source.declarations shelf world).1
    done.1 = source.catalog here ∧ done.2.keeps = shelf.keeps := by
  have hget : (get : Work σ ι κ η (Shelf σ ι κ η)) shelf world = ((shelf, shelf), world) := rfl
  rw [useCatalog_eq, work_bind, hget]
  dsimp only
  cases hc : shelf.catalog with
  | some c =>
    obtain ⟨elsewhere, rfl⟩ := hshelf.catalog c hc
    exact ⟨h.catalog_eq elsewhere here, rfl⟩
  | none => exact ⟨h.catalog_eq world here, rfl⟩

/-- A description is told about once, and is the same whether it is kept or not. -/
theorem tells_useDescription {name : String} {entry : Entry σ ι κ}
    (hentry : Keyed.get? (source.catalog here).entries name = some entry) :
    Tells source here (Holds source (source.catalog here))
      (useDescription source.kind name entry) (source.description? here entry) [.about name] := by
  intro shelf hshelf world
  have hget : (get : Work σ ι κ η (Shelf σ ι κ η)) shelf world = ((shelf, shelf), world) := rfl
  have hdeclares := hshelf.declares hentry
  have hnotices := Source.notices_of_entry hentry
  rw [useDescription, work_bind, hget]
  dsimp only
  cases hkept : Keyed.get? shelf.descriptions name with
  | some d =>
    have hkeeps : shelf.keeps name = true := by rw [keeps, hkept]; rfl
    obtain ⟨htold, hafter⟩ := about_of_known (source.notices here) hkeeps
    rw [htold, hafter, h.description?_eq_some hdeclares (hshelf.describes hentry hkept) here]
    exact ⟨rfl, rfl⟩
  | none =>
    have hkeeps : shelf.keeps name = false := by rw [keeps, hkept]; rfl
    obtain ⟨htold, hafter⟩ := about_of_unknown (source.notices here) hkeeps
    have hlift : (liftM (source.kind.describeFresh entry.factory) : Work σ ι κ η _) shelf world =
        (((source.kind.describeFresh entry.factory here).1, shelf),
          (source.kind.describeFresh entry.factory world).2) := by
      rw [← h.describeFresh_eq hdeclares world here]
      rfl
    dsimp only
    rw [work_bind, hlift, htold, hafter, Source.notices_of_entry hentry, Source.description?]
    dsimp only
    cases hok : Diagnostics.hasError (source.kind.describeFresh entry.factory here).1.2 with
    | true =>
      refine ⟨rfl, funext fun t => ?_⟩
      change shelf.keeps t = _
      simp
    | false =>
      refine ⟨rfl, ?_⟩
      rw [Bool.not_false]
      simp only [Bool.and_true]
      exact keeps_insert shelf name _

/-- Whether the entries are described depends on no shelf. -/
theorem tells_describeEntries {entries : List (String × Entry σ ι κ)}
    (hentries : ∀ e ∈ entries, Keyed.get? (source.catalog here).entries e.1 = some e.2) :
    Tells source here (Holds source (source.catalog here))
      (describeEntries source.kind entries)
      (entries.flatMap fun e => ((source.description? here e.2).map fun d => (e.1, d)).toList)
      (entries.map fun e => .about e.1) := by
  induction entries with
  | nil => exact fun shelf _ world => ⟨rfl, rfl⟩
  | cons e rest ih =>
    intro shelf hshelf world
    have hentry := hentries e List.mem_cons_self
    have hfirst := tells_useDescription h hentry shelf hshelf world
    have hheld := ((meets_useDescription h hentry shelf hshelf).2 world).1
    rw [describeEntries, work_bind]
    generalize useDescription source.kind e.1 e.2 shelf world = first at hfirst hheld
    obtain ⟨⟨⟨d, ds⟩, shelf'⟩, world'⟩ := first
    obtain ⟨hanswer, hkeeps⟩ := hfirst
    have hrest := ih (fun f hf => hentries f (List.mem_cons_of_mem _ hf)) shelf' hheld world'
    dsimp only at hanswer hkeeps hrest ⊢
    rw [work_bind]
    generalize describeEntries source.kind rest shelf' world' = more at hrest
    obtain ⟨⟨⟨found, more⟩, shelf''⟩, world''⟩ := more
    obtain ⟨hfound, hafter⟩ := hrest
    cases hanswer
    cases hfound
    rw [hkeeps] at hafter ⊢
    refine ⟨?_, hafter.trans (knownAfter_append [.about e.1] _).symm⟩
    change (_, _) = (_, told _ _ ([Line.about e.1] ++ rest.map fun e => .about e.1))
    rw [told_append]
    rfl

/-- Work with the catalog has the same catalog on every shelf. -/
theorem Tells.afterCatalog {next : Catalog σ ι κ → Work σ ι κ η (α × Diagnostics)} {a : α}
    {ls : List (Line String)}
    (hnext : Tells source here (Holds source (source.catalog here)) (next (source.catalog here)) a
      ls) :
    Tells source here (Grounded source)
      (useCatalog source.kind source.providerName source.declarations >>= next) a ls := by
  intro shelf hshelf world
  obtain ⟨hc, hkeeps⟩ := useCatalog_steady h hshelf here world
  have hheld := (meets_useCatalog h shelf hshelf).2 world
  rw [hc] at hheld
  have htells := hnext _ hheld
    (useCatalog source.kind source.providerName source.declarations shelf world).2
  rw [hkeeps] at htells
  rw [work_bind]
  dsimp only
  rw [hc]
  exact htells

omit h in
/-- Something is told first, and the rest as the work tells it. -/
theorem Tells.report {P : Shelf σ ι κ η → Prop} {work : Work σ ι κ η (α × Diagnostics)} {a : α}
    {ls : List (Line String)} (hwork : Tells source here P work a ls) {ds : Diagnostics} {b : γ}
    {next : α × Diagnostics → Work σ ι κ η (γ × Diagnostics)}
    (hnext : ∀ shelf, P shelf → let more := told (source.notices here) shelf.keeps ls
      next (a, more) = pure (b, ds ++ more)) :
    Tells source here P (work >>= next) b (.own ds :: ls) := by
  intro shelf hshelf world
  obtain ⟨hanswer, hkeeps⟩ := hwork shelf hshelf world
  rw [work_bind]
  dsimp only
  rw [hanswer, hnext shelf hshelf]
  exact ⟨rfl, hkeeps⟩

/-- What a name stands for depends on no shelf, though what is told about it does. -/
theorem tells_resolve (here : σ) (name : String) : ∃ found ls,
    Tells source here (Grounded source)
      (resolve source.kind source.providerName source.declarations name) found ls := by
  cases hentry : Keyed.get? (source.catalog here).entries name with
  | none =>
    refine ⟨none, [.own ((source.catalog here).lookup source.kind name).2], .afterCatalog h ?_⟩
    intro shelf hshelf world
    rw [told_singleton, Catalog.lookup, hentry]
    exact ⟨rfl, rfl⟩
  | some entry =>
    let c := source.catalog here
    let found : Option (Entry σ ι κ × η) := (source.description? here entry).bind fun d =>
      if Diagnostics.hasError c.diagnostics then none else some (entry, d)
    refine ⟨found, [.own c.diagnostics, .about name], .afterCatalog h ?_⟩
    rw [Catalog.lookup, hentry]
    refine (tells_useDescription h hentry).report fun shelf hshelf => ?_
    dsimp only [found]
    cases hd : source.description? here entry with
    | none => rfl
    | some d =>
      have hok := Source.hasError_notices_of_description? hentry hd
      have hmore : Diagnostics.hasError (told (source.notices here) shelf.keeps [.about name]) =
          false := by
        rw [told_singleton, Line.shown]
        split
        · rfl
        · exact hok
      dsimp only
      rw [Diagnostics.hasError_append, hmore, Bool.or_false]
      rfl

theorem tells_describeAll (here : σ) : ∃ descriptions ls,
    Tells source here (Grounded source)
      (describeAll source.kind source.providerName source.declarations) descriptions ls :=
  ⟨_, _, .afterCatalog h (Tells.report (tells_describeEntries h fun _ he =>
    Keyed.get?_of_mem (source.ascending_catalog here) he) fun _ _ => rfl)⟩

theorem tells_listNames (here : σ) : ∃ names ls,
    Tells source here (Grounded source)
      (listNames source.kind source.providerName source.declarations) names ls := by
  refine ⟨(source.catalog here).names, [.own (source.catalog here).diagnostics], .afterCatalog h ?_⟩
  intro shelf _ world
  rw [told_singleton]
  exact ⟨rfl, rfl⟩

end Shelf

end ProviderKit
