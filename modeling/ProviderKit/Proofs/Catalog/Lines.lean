import ProviderKit.Diagnostic

-- What is told once. A step of serving reports lines of its own, and what there is to say about a
-- topic when that is found out. If this has no error, the topic is known from then on and nothing
-- is said about it again. So the more is known, the less is told; but errors are always told.

namespace ProviderKit

variable {τ υ : Type}

/-! ## Lines -/

/-- What a step tells: something of its own, or what there is to say about a topic. -/
inductive Line (τ : Type) where
  | own (ds : Diagnostics)
  | about (topic : τ)

/-- Nothing is known that is said with an error. -/
def KnownSound (notices : τ → Diagnostics) (known : τ → Bool) : Prop :=
  ∀ t, known t = true → Diagnostics.hasError (notices t) = false

theorem errors_eq_nil {ds : Diagnostics} (h : Diagnostics.hasError ds = false) :
    Diagnostics.errors ds = [] := by
  refine List.filter_eq_nil_iff.mpr fun d hd herror => ?_
  have hany : Diagnostics.hasError ds = true := List.any_eq_true.mpr ⟨d, hd, herror⟩
  rw [h] at hany
  cases hany

variable {notices : τ → Diagnostics} {known more : τ → Bool}

namespace Line

def map (f : τ → υ) : Line τ → Line υ
  | .own ds => .own ds
  | .about topic => .about (f topic)

theorem about_mem_map_iff {f : τ → υ} {ls : List (Line τ)} {u : υ} :
    about u ∈ ls.map (map f) ↔ ∃ t, u = f t ∧ about t ∈ ls := by
  rw [List.mem_map]
  constructor
  · rintro ⟨l, hl, hmap⟩
    cases l with
    | own ds => cases hmap
    | about topic =>
      cases hmap
      exact ⟨topic, rfl, hl⟩
  · rintro ⟨t, rfl, ht⟩
    exact ⟨.about t, ht, rfl⟩

/-- What is told by a line, given what is known. -/
def shown (notices : τ → Diagnostics) (known : τ → Bool) : Line τ → Diagnostics
  | .own ds => ds
  | .about topic => if known topic then [] else notices topic

/-- What is known after a line. -/
def learnt [DecidableEq τ] (notices : τ → Diagnostics) (known : τ → Bool) : Line τ → τ → Bool
  | .own _ => known
  | .about topic => fun t => known t || (t = topic && !Diagnostics.hasError (notices topic))

theorem errors_shown (h : KnownSound notices known) (l : Line τ) :
    Diagnostics.errors (l.shown notices known) =
      Diagnostics.errors (l.shown notices fun _ => false) := by
  cases l with
  | own ds => rfl
  | about topic =>
    cases hknown : known topic with
    | false => simp [shown, hknown]
    | true =>
      have hnone := errors_eq_nil (h topic hknown)
      simpa [shown, hknown, Diagnostics.errors] using hnone.symm

theorem shown_sublist (hle : ∀ t, known t = true → more t = true) (l : Line τ) :
    (l.shown notices more).Sublist (l.shown notices known) := by
  cases l with
  | own ds => exact List.Sublist.refl ds
  | about topic =>
    cases hknown : known topic with
    | true =>
      rw [shown, if_pos (hle topic hknown)]
      exact List.nil_sublist _
    | false =>
      rw [shown, shown, hknown, if_neg Bool.false_ne_true]
      split
      · exact List.nil_sublist _
      · exact List.Sublist.refl _

theorem shown_about_eq_iff (hle : ∀ t, known t = true → more t = true) (topic : τ) :
    (about topic).shown notices more = (about topic).shown notices known ↔
      (more topic = true → known topic = false → notices topic = []) := by
  cases hknown : known topic with
  | true => simp [shown, hknown, hle topic hknown]
  | false =>
    cases hmore : more topic with
    | true => simp [shown, hknown, hmore, eq_comm]
    | false => simp [shown, hknown, hmore]

end Line

/-- There is something to say about the topic to those who do not know it, and it is said. -/
structure Missed (notices : τ → Diagnostics) (known more : τ → Bool) (ls : List (Line τ)) (t : τ) :
    Prop where
  known : known t = false
  more : more t = true
  told : Line.about t ∈ ls
  notices : notices t ≠ []

/-! ## Telling lines -/

variable [DecidableEq τ]

/-- What lines tell, one after the other. -/
def told (notices : τ → Diagnostics) (known : τ → Bool) : List (Line τ) → Diagnostics
  | [] => []
  | l :: ls => l.shown notices known ++ told notices (l.learnt notices known) ls

/-- What is known after lines. -/
def knownAfter (notices : τ → Diagnostics) (known : τ → Bool) (ls : List (Line τ)) : τ → Bool :=
  ls.foldl (Line.learnt notices) known

theorem told_singleton (l : Line τ) : told notices known [l] = l.shown notices known :=
  List.append_nil _

/-- Nothing is said about what is known. -/
theorem about_of_known (notices : τ → Diagnostics) {topic : τ} (h : known topic = true) :
    told notices known [.about topic] = [] ∧ knownAfter notices known [.about topic] = known := by
  refine ⟨?_, funext fun t => ?_⟩
  · rw [told_singleton, Line.shown, if_pos h]
  · change (known t || _) = known t
    by_cases ht : t = topic
    · rw [ht, h, Bool.true_or]
    · simp [ht]

theorem about_of_unknown (notices : τ → Diagnostics) {topic : τ} (h : known topic = false) :
    told notices known [.about topic] = notices topic ∧
      knownAfter notices known [.about topic] = fun t =>
        known t || (t = topic && !Diagnostics.hasError (notices topic)) := by
  refine ⟨?_, rfl⟩
  rw [told_singleton, Line.shown, h, if_neg Bool.false_ne_true]

theorem told_append (ls ms : List (Line τ)) :
    told notices known (ls ++ ms) =
      told notices known ls ++ told notices (knownAfter notices known ls) ms := by
  induction ls generalizing known with
  | nil => rfl
  | cons l ls ih =>
    rw [List.cons_append, told, told, ih, List.append_assoc]
    rfl

theorem knownAfter_append (ls ms : List (Line τ)) :
    knownAfter notices known (ls ++ ms) =
      knownAfter notices (knownAfter notices known ls) ms := List.foldl_append

/-- Known is what was known before, and what could be said without an error. -/
theorem knownAfter_iff {ls : List (Line τ)} {t : τ} :
    knownAfter notices known ls t = true ↔
      known t = true ∨ (Line.about t ∈ ls ∧ Diagnostics.hasError (notices t) = false) := by
  induction ls generalizing known with
  | nil => simp [knownAfter]
  | cons l ls ih =>
    have hstep : knownAfter notices known (l :: ls) =
        knownAfter notices (l.learnt notices known) ls := rfl
    rw [hstep, ih, List.mem_cons]
    cases l with
    | own ds => simp [Line.learnt]
    | about topic =>
      simp only [Line.learnt, Bool.or_eq_true, Bool.and_eq_true, decide_eq_true_eq,
        Bool.not_eq_true', Line.about.injEq]
      grind

theorem KnownSound.learnt (h : KnownSound notices known) (l : Line τ) :
    KnownSound notices (l.learnt notices known) := by
  intro t ht
  have hafter : knownAfter notices known [l] t = true := ht
  rcases knownAfter_iff.mp hafter with hknown | ⟨-, hok⟩
  · exact h t hknown
  · exact hok

theorem Line.learnt_le (hle : ∀ t, known t = true → more t = true) (l : Line τ) (t : τ)
    (ht : l.learnt notices known t = true) : l.learnt notices more t = true := by
  have hafter : knownAfter notices known [l] t = true := ht
  have hmore : knownAfter notices more [l] t = true :=
    knownAfter_iff.mpr ((knownAfter_iff.mp hafter).imp_left (hle t))
  exact hmore

/-! ## Knowing more -/

/-- The errors that are told do not depend on what is known. -/
theorem errors_told (h : KnownSound notices known) (h' : KnownSound notices more)
    (ls : List (Line τ)) :
    Diagnostics.errors (told notices known ls) = Diagnostics.errors (told notices more ls) := by
  induction ls generalizing known more with
  | nil => rfl
  | cons l ls ih =>
    have hline := (l.errors_shown h).trans (l.errors_shown h').symm
    have hrest := ih (h.learnt l) (h'.learnt l)
    simp only [Diagnostics.errors] at hline hrest ⊢
    rw [told, told, List.filter_append, List.filter_append, hline, hrest]

/-- Who knows more is told some of the same lines, in the same order. -/
theorem told_sublist (hle : ∀ t, known t = true → more t = true) (ls : List (Line τ)) :
    (told notices more ls).Sublist (told notices known ls) := by
  induction ls generalizing known more with
  | nil => exact List.Sublist.refl []
  | cons l ls ih => exact (l.shown_sublist hle).append (ih (l.learnt_le hle))

theorem append_eq_iff_of_sublist {α : Type} {as bs cs ds : List α} (h : as.Sublist cs)
    (h' : bs.Sublist ds) : as ++ bs = cs ++ ds ↔ as = cs ∧ bs = ds := by
  refine ⟨fun heq => ?_, fun ⟨has, hbs⟩ => by rw [has, hbs]⟩
  have hlength := congrArg List.length heq
  rw [List.length_append, List.length_append] at hlength
  have hle := h.length_le
  have hle' := h'.length_le
  exact ⟨h.eq_of_length (by omega), h'.eq_of_length (by omega)⟩

/-- Once it was told about a topic, this topic is missed no more. -/
theorem missed_about_cons_iff {topic : τ} {ls : List (Line τ)} :
    (∃ t, Missed notices known more (.about topic :: ls) t) ↔
      (more topic = true ∧ known topic = false ∧ notices topic ≠ []) ∨
        ∃ t, Missed notices ((Line.about topic).learnt notices known)
          ((Line.about topic).learnt notices more) ls t := by
  constructor
  · rintro ⟨t, hnot, ht, hmem, hne⟩
    by_cases heq : t = topic
    · subst heq
      exact .inl ⟨ht, hnot, hne⟩
    · refine .inr ⟨t, ?_, ?_, ?_, hne⟩
      · simp [Line.learnt, hnot, heq]
      · simp [Line.learnt, ht]
      · simpa [heq] using hmem
  · rintro (⟨ht, hnot, hne⟩ | ⟨t, hnot, ht, hmem, hne⟩)
    · exact ⟨topic, hnot, ht, List.mem_cons_self, hne⟩
    · -- What is learnt is learnt by both.
      simp only [Line.learnt, Bool.or_eq_false_iff] at hnot ht
      refine ⟨t, hnot.1, ?_, List.mem_cons_of_mem _ hmem, hne⟩
      simpa [hnot.2] using ht

/-- Who knows more is told the same exactly if there was nothing to say about that. -/
theorem told_eq_iff (hle : ∀ t, known t = true → more t = true) (ls : List (Line τ)) :
    told notices more ls = told notices known ls ↔ ¬∃ t, Missed notices known more ls t := by
  induction ls generalizing known more with
  | nil => exact ⟨fun _ ⟨_, h⟩ => List.not_mem_nil h.told, fun _ => rfl⟩
  | cons l ls ih =>
    rw [told, told,
      append_eq_iff_of_sublist (l.shown_sublist hle) (told_sublist (l.learnt_le hle) ls),
      ih (l.learnt_le hle)]
    cases l with
    | own ds =>
      have hskip : ∀ t, Missed notices known more (.own ds :: ls) t ↔
          Missed notices known more ls t := fun t =>
        ⟨fun h => ⟨h.known, h.more, by simpa using h.told, h.notices⟩,
          fun h => ⟨h.known, h.more, List.mem_cons_of_mem _ h.told, h.notices⟩⟩
      simp only [hskip]
      exact ⟨fun h => h.2, fun h => ⟨rfl, h⟩⟩
    | about topic =>
      rw [missed_about_cons_iff, Line.shown_about_eq_iff hle, not_or]
      refine and_congr_left' ?_
      simp only [not_and, ne_eq, Decidable.not_not]

/-! ## Topics under other names -/

variable [DecidableEq υ] {f : τ → υ} {notices : υ → Diagnostics} {known : υ → Bool}

theorem learnt_map (hf : Function.Injective f) (l : Line τ) :
    (fun t => (l.map f).learnt notices known (f t)) =
      l.learnt (fun t => notices (f t)) fun t => known (f t) := by
  cases l with
  | own ds => rfl
  | about topic =>
    funext t
    simp only [Line.map, Line.learnt, hf.eq_iff]

theorem told_map (hf : Function.Injective f) (ls : List (Line τ)) :
    told notices known (ls.map (Line.map f)) =
      told (fun t => notices (f t)) (fun t => known (f t)) ls := by
  induction ls generalizing known with
  | nil => rfl
  | cons l ls ih =>
    rw [List.map_cons, told, told, ih, learnt_map hf]
    cases l with
    | own ds => rfl
    | about topic => rfl

theorem knownAfter_map (hf : Function.Injective f) (ls : List (Line τ)) (t : τ) :
    knownAfter notices known (ls.map (Line.map f)) (f t) =
      knownAfter (fun t => notices (f t)) (fun t => known (f t)) ls t := by
  rw [Bool.eq_iff_iff, knownAfter_iff, knownAfter_iff, Line.about_mem_map_iff]
  have hmem : (∃ s, f t = f s ∧ Line.about s ∈ ls) ↔ Line.about t ∈ ls :=
    ⟨fun ⟨_, heq, hs⟩ => hf heq ▸ hs, fun ht => ⟨t, rfl, ht⟩⟩
  rw [hmem]

omit [DecidableEq τ] in
/-- What is under no other name is known as before. -/
theorem knownAfter_map_of_ne (ls : List (Line τ)) {u : υ} (hu : ∀ t, u ≠ f t) :
    knownAfter notices known (ls.map (Line.map f)) u = known u := by
  rw [Bool.eq_iff_iff, knownAfter_iff, Line.about_mem_map_iff]
  exact ⟨fun h => h.resolve_right fun ⟨⟨t, heq, _⟩, _⟩ => hu t heq, .inl⟩

end ProviderKit
