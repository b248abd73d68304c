import Mathlib.Data.List.Pairwise
import ProviderKit.Path.Normalize
import ProviderKit.Proofs.Text.Ordering
import ProviderKit.Proofs.Value.Rendering

-- Lists of paths in normal form are sets: each path of the list once, in the order of the texts.
-- A path is dropped for an equal one of its own text only. Such a path is identical to it, so that
-- nothing is lost, while paths that are equal and show zeros of different signs both stay.

namespace ProviderKit

namespace Step

theorem same_comm (s t : Step) : s.same t = t.same s := by
  cases s <;> cases t <;> simp [same, eq_comm, Value.same_comm]

theorem eq_or_elements_of_same {s t : Step} (h : s.same t = true) :
    s = t ∨ ∃ v w, s = .element v ∧ t = .element w ∧ v.same w = true := by
  cases s <;> cases t <;> simp_all [same]

theorem eq_of_display_append {s t : Step} (hst : s.same t = true) {xs ys : List Char}
    (h : s.display.toList ++ xs = t.display.toList ++ ys) : s = t := by
  rcases eq_or_elements_of_same hst with rfl | ⟨v, w, rfl, rfl, hvw⟩
  · rfl
  · have htexts : ("ElementKeyValue(" ++ v.display ++ ")").toList ++ xs =
        ("ElementKeyValue(" ++ w.display ++ ")").toList ++ ys := h
    iterate 2 rw [String.toList_append, String.toList_append, List.append_assoc, List.append_assoc]
      at htexts
    rw [Value.eq_of_display_append hvw (List.append_cancel_left htexts)]

end Step

namespace Path

theorem sameSteps_comm (ss ts : List Step) : sameSteps ss ts = sameSteps ts ss := by
  induction ss generalizing ts with
  | nil => cases ts <;> rfl
  | cons s ss ih =>
    cases ts with
    | nil => rfl
    | cons t ts => simp [sameSteps, s.same_comm t, ih ts]

theorem same_comm (p q : Path) : p.same q = q.same p := sameSteps_comm p.steps q.steps

theorem eq_of_intercalate {ss ts : List Step} (hst : sameSteps ss ts = true)
    (h : ['.'].intercalate (ss.map fun s => s.display.toList) =
      ['.'].intercalate (ts.map fun t => t.display.toList)) : ss = ts := by
  induction ss generalizing ts with
  | nil => cases ts <;> simp_all [sameSteps]
  | cons s ss ih =>
    cases ts with
    | nil => cases hst
    | cons t ts =>
      simp only [sameSteps, Bool.and_eq_true] at hst
      obtain ⟨hst, hrest⟩ := hst
      cases ss with
      | nil =>
        cases ts with
        | nil =>
          have h' : s.display.toList ++ [] = t.display.toList ++ [] := by simpa using h
          rw [Step.eq_of_display_append hst h']
        | cons u us => cases hrest
      | cons r rs =>
        cases ts with
        | nil => cases hrest
        | cons u us =>
          simp only [List.map_cons, List.intercalate_cons_cons, List.append_assoc] at h ih
          obtain rfl := Step.eq_of_display_append hst h
          rw [ih hrest (List.append_cancel_left (List.append_cancel_left h))]

/-- Equal paths of one text are identical. -/
theorem eq_of_display {p q : Path} (hpq : p.same q = true) (h : p.display = q.display) :
    p = q := by
  have hchars := congrArg String.toList h
  simp only [display, String.toList_intercalate, List.map_map] at hchars
  exact congrArg Path.mk (eq_of_intercalate hpq hchars)

/-! ## Dropping repeated paths -/

/-- Between two turns of the loop: the paths that were kept have the text of the last path, and the
paths to come have their own texts, which come in order and no earlier. -/
structure InRun (text : String) (kept : List Path) (l : List (String × Path)) : Prop where
  kept_text : ∀ q ∈ kept, q.display = text
  labelled : ∀ e ∈ l, e.1 = e.2.display
  ordered : l.Pairwise fun a b => ¬ b.1 < a.1
  not_before : ∀ e ∈ l, ¬ e.1 < text

section

variable {text t : String} {kept : List Path} {p q : Path} {l : List (String × Path)}

theorem InRun.skip (h : InRun text kept ((t, p) :: l)) : InRun text kept l := by
  obtain ⟨_, hordered⟩ := List.pairwise_cons.mp h.ordered
  exact ⟨h.kept_text, fun e he => h.labelled e (List.mem_cons_of_mem _ he), hordered,
    fun e he => h.not_before e (List.mem_cons_of_mem _ he)⟩

theorem InRun.text_eq (h : InRun text kept ((t, p) :: l)) : t = p.display :=
  h.labelled (t, p) List.mem_cons_self

/-- A path that is kept is compared for as long as its text comes. -/
theorem mem_run (h : InRun text kept ((t, p) :: l)) :
    q ∈ (if t = text then kept else []) ↔ q ∈ kept ∧ q.display = t := by
  by_cases ht : t = text
  · rw [if_pos ht, ht]
    exact (and_iff_left_of_imp (h.kept_text q)).symm
  · rw [if_neg ht]
    constructor
    · intro hq
      cases hq
    · rintro ⟨hq, hqt⟩
      exact absurd (hqt.symm.trans (h.kept_text q hq)) ht

theorem InRun.keep (h : InRun text kept ((t, p) :: l)) :
    InRun t ((if t = text then kept else []) ++ [p]) l := by
  obtain ⟨hfirst, hordered⟩ := List.pairwise_cons.mp h.ordered
  refine ⟨?_, h.skip.labelled, hordered, hfirst⟩
  intro q hq
  rcases List.mem_append.mp hq with hq | hq
  · exact ((mem_run h).mp hq).2
  · rw [List.mem_singleton.mp hq]
    exact h.text_eq.symm

/-- A path to come equals a kept path of its own text exactly if it is kept already. -/
theorem any_same_iff (h : InRun text kept ((t, p) :: l)) :
    ((if t = text then kept else []).any fun q => q.same p) = true ↔ p ∈ kept := by
  rw [List.any_eq_true]
  constructor
  · rintro ⟨q, hq, hqp⟩
    obtain ⟨hq, hqt⟩ := (mem_run h).mp hq
    rw [← eq_of_display hqp (hqt.trans h.text_eq)]
    exact hq
  · intro hp
    exact ⟨p, (mem_run h).mpr ⟨hp, h.text_eq.symm⟩, p.same_self⟩

theorem dropRepeated_of_mem (h : InRun text kept ((t, p) :: l)) (hp : p ∈ kept) :
    dropRepeated text kept ((t, p) :: l) = dropRepeated text kept l := by
  have ht : t = text := h.text_eq.trans (h.kept_text p hp)
  rw [dropRepeated, if_pos ((any_same_iff h).mpr hp), if_pos ht, ht]

theorem dropRepeated_of_not_mem (h : InRun text kept ((t, p) :: l)) (hp : p ∉ kept) :
    dropRepeated text kept ((t, p) :: l) =
      p :: dropRepeated t ((if t = text then kept else []) ++ [p]) l := by
  rw [dropRepeated, if_neg (hp ∘ (any_same_iff h).mp)]

/-- Paths that were kept for an earlier text do not come again. -/
theorem mem_keep_iff (h : InRun text kept ((t, p) :: l)) (hq : q ∈ l.map (·.2)) :
    q ∈ (if t = text then kept else []) ++ [p] ↔ q ∈ kept ∨ q = p := by
  rw [List.mem_append, List.mem_singleton, mem_run h]
  refine or_congr_left (and_iff_left_of_imp fun hqkept => ?_)
  obtain ⟨e, he, rfl⟩ := List.mem_map.mp hq
  have hlater : ¬ e.2.display < t := by
    rw [← h.skip.labelled e he]
    exact h.keep.not_before e he
  have hearlier : ¬ t < e.2.display := by
    rw [h.kept_text e.2 hqkept]
    exact h.not_before (t, p) List.mem_cons_self
  exact (Std.lt_trichotomy e.2.display t).resolve_left hlater |>.resolve_right hearlier

/-- What comes out is what came in and was not kept before. -/
theorem mem_dropRepeated (h : InRun text kept l) :
    q ∈ dropRepeated text kept l ↔ q ∈ l.map (·.2) ∧ q ∉ kept := by
  induction l generalizing text kept with
  | nil => simp [dropRepeated]
  | cons e l ih =>
    obtain ⟨t, p⟩ := e
    by_cases hp : p ∈ kept
    · rw [dropRepeated_of_mem h hp, ih h.skip, List.map_cons, List.mem_cons]
      refine and_congr_left fun hq => (or_iff_right ?_).symm
      rintro rfl
      exact hq hp
    · rw [dropRepeated_of_not_mem h hp, List.mem_cons, ih h.keep, List.map_cons, List.mem_cons]
      by_cases hqp : q = p
      · simp [hqp, hp]
      · simp only [hqp, false_or]
        refine and_congr_right fun hq => not_congr ((mem_keep_iff h hq).trans (or_iff_left hqp))

theorem nodup_dropRepeated (h : InRun text kept l) : (dropRepeated text kept l).Nodup := by
  induction l generalizing text kept with
  | nil => exact List.nodup_nil
  | cons e l ih =>
    obtain ⟨t, p⟩ := e
    by_cases hp : p ∈ kept
    · rw [dropRepeated_of_mem h hp]
      exact ih h.skip
    · rw [dropRepeated_of_not_mem h hp, List.nodup_cons, mem_dropRepeated h.keep]
      exact ⟨fun hmem => hmem.2 (by simp), ih h.keep⟩

theorem dropRepeated_sublist (text : String) (kept : List Path) (l : List (String × Path)) :
    (dropRepeated text kept l).Sublist (l.map (·.2)) := by
  induction l generalizing text kept with
  | nil => exact .slnil
  | cons e l ih =>
    rw [dropRepeated]
    generalize (if e.1 = text then kept else []) = run
    by_cases hany : (run.any fun q => q.same e.2) = true
    · rw [if_pos hany]
      exact (ih _ _).cons _
    · rw [if_neg hany]
      exact (ih _ _).cons_cons _

end

/-! ## The normal form of a list -/

/-- The paths with their texts, in the order of the texts. -/
def listed (paths : List Path) : List (String × Path) :=
  (paths.map fun p => (p.display, p)).mergeSort notAfter

theorem normalize_eq (paths : List Path) : normalize paths = dropRepeated "" [] (listed paths) :=
  rfl

theorem listed_perm (paths : List Path) : (listed paths).Perm (paths.map fun p => (p.display, p)) :=
  List.mergeSort_perm _ _

theorem map_listed_perm (paths : List Path) : ((listed paths).map (·.2)).Perm paths := by
  refine ((listed_perm paths).map _).trans ?_
  rw [List.map_map, Function.comp_def, List.map_id']

theorem inRun_listed (paths : List Path) : InRun "" [] (listed paths) := by
  refine ⟨by simp, ?_, ?_, ?_⟩
  · intro e he
    obtain ⟨p, _, rfl⟩ := List.mem_map.mp ((listed_perm paths).mem_iff.mp he)
    rfl
  · refine (List.pairwise_mergeSort ?_ ?_ _).imp ?_
    · simp only [notAfter, Bool.not_eq_true', decide_eq_false_iff_not, Std.not_lt]
      exact fun a b c => Std.le_trans
    · simp only [notAfter, Bool.or_eq_true, Bool.not_eq_true', decide_eq_false_iff_not, Std.not_lt]
      exact fun a b => Std.le_total
    · simp [notAfter]
  · intro e _
    have htext : ¬ e.1.toList < "".toList := List.not_lt_nil _
    exact htext

@[simp] theorem mem_normalize (paths : List Path) (p : Path) : p ∈ normalize paths ↔ p ∈ paths := by
  rw [normalize_eq, mem_dropRepeated (inRun_listed paths), (map_listed_perm paths).mem_iff]
  simp

theorem nodup_normalize (paths : List Path) : (normalize paths).Nodup :=
  nodup_dropRepeated (inRun_listed paths)

theorem ordered_normalize (paths : List Path) :
    (normalize paths).Pairwise fun p q => ¬ q.display < p.display := by
  refine List.Pairwise.sublist (dropRepeated_sublist _ _ _) (List.pairwise_map.mpr ?_)
  refine (inRun_listed paths).ordered.imp_of_mem fun ha hb hab => ?_
  rw [(inRun_listed paths).labelled _ ha, (inRun_listed paths).labelled _ hb] at hab
  exact hab

/-- A list in normal form already stays as it is. -/
theorem normalize_of_ordered {paths : List Path}
    (hordered : paths.Pairwise fun p q => ¬ q.display < p.display) (hnodup : paths.Nodup) :
    normalize paths = paths := by
  have hlisted : listed paths = paths.map fun p => (p.display, p) := by
    refine List.mergeSort_of_pairwise (List.pairwise_map.mpr (hordered.imp ?_))
    simp [notAfter]
  have hsublist : (normalize paths).Sublist paths := by
    have hdropped := dropRepeated_sublist "" [] (listed paths)
    rw [← normalize_eq, hlisted, List.map_map, Function.comp_def, List.map_id'] at hdropped
    exact hdropped
  have hperm : (normalize paths).Perm paths :=
    (List.perm_ext_iff_of_nodup (nodup_normalize paths) hnodup).mpr (mem_normalize paths)
  exact hsublist.eq_of_length hperm.length_eq

/-! ## Sets of paths in order -/

/-- Of paths that come once each, no two are equal if only identical ones are. -/
theorem distinct_iff {paths : List Path} (hnodup : paths.Nodup) :
    paths.Pairwise (fun p q => p.same q = false) ↔
      ∀ p ∈ paths, ∀ q ∈ paths, p.same q = true → p = q := by
  constructor
  · intro hdistinct p hp q hq hpq
    have hsymm : Std.Symm fun p q : Path => p.same q = false :=
      ⟨fun p q h => (same_comm q p).trans h⟩
    by_contra hne
    have hfalse : p.same q = false := hdistinct.forall hp hq hne
    rw [hpq] at hfalse
    cases hfalse
  · intro hidentical
    refine hnodup.imp_of_mem fun {p q} hp hq hne => ?_
    rw [← Bool.not_eq_true]
    exact hne ∘ hidentical p hp q hq

/-- The normal form holds the paths of the list, in the order of the bytes of their texts. No two
equal paths stay exactly if equal paths of the list are identical. -/
theorem normalize_distinct_iff (paths : List Path) :
    (normalize paths).Pairwise
        (fun p q => Bytes.ofText p.display ≤ Bytes.ofText q.display) ∧
      (∀ p ∈ normalize paths, p ∈ paths) ∧
      (∀ p ∈ paths, ∃ q ∈ normalize paths, p.same q = true) ∧
      ((normalize paths).Pairwise (fun p q => p.same q = false) ↔
        ∀ p ∈ paths, ∀ q ∈ paths, p.same q = true → p = q) := by
  refine ⟨?_, ?_, ?_, ?_⟩
  · exact (ordered_normalize paths).imp (Bytes.ofText_le_iff _ _).mpr
  · intro p hp
    exact (mem_normalize paths p).mp hp
  · intro p hp
    exact ⟨p, (mem_normalize paths p).mpr hp, p.same_self⟩
  · simp only [distinct_iff (nodup_normalize paths), mem_normalize]

/-- An element of a set that is a zero. -/
def zeroElement (negative : Bool) : Path :=
  ⟨[.field "a", .element (.number (.double (.zero negative)))]⟩

/-- Both zeros are one number and have different texts, so that both stay. -/
theorem normalize_keeps_both_zeros :
    ¬ (normalize [zeroElement false, zeroElement true]).Pairwise fun p q => p.same q = false := by
  intro hdistinct
  have heq : zeroElement false = zeroElement true := by
    apply (distinct_iff (nodup_normalize _)).mp hdistinct
    · simp
    · simp
    · rfl
  simp [zeroElement, Double.zero] at heq

/-- The normal form of a normal form is the same list, and lists of the same paths in another order
have normal forms of the same texts and the same paths. -/
theorem normalize_canonical (paths : List Path) :
    normalize (normalize paths) = normalize paths ∧
      ∀ others : List Path, others.Perm paths →
        (normalize others).map display = (normalize paths).map display ∧
          (normalize others).Perm (normalize paths) := by
  refine ⟨normalize_of_ordered (ordered_normalize paths) (nodup_normalize paths), ?_⟩
  intro others hothers
  have hperm : (normalize others).Perm (normalize paths) := by
    rw [List.perm_ext_iff_of_nodup (nodup_normalize others) (nodup_normalize paths)]
    intro p
    rw [mem_normalize, mem_normalize, hothers.mem_iff]
  refine ⟨?_, hperm⟩
  have hinOrder : ∀ l, ((normalize l).map display).Pairwise fun s t => ¬ t < s := by
    intro l
    exact List.pairwise_map.mpr (ordered_normalize l)
  apply (hperm.map display).eq_of_pairwise _ (hinOrder others) (hinOrder paths)
  intro s t _ _ hst hts
  exact (Std.lt_trichotomy s t).resolve_left hts |>.resolve_right hst

/-- What is unknown shows as the text that stands for it: either of the two may come first. -/
theorem normalize_canonical_standIn :
    let unknown : Path := ⟨[.field "tags", .element .unknown]⟩
    let text : Path := ⟨[.field "tags", .element (.string Value.unknownText)]⟩
    [text, unknown].Perm [unknown, text] ∧
      (normalize [text, unknown]).map display = (normalize [unknown, text]).map display ∧
        (normalize [text, unknown]).Perm (normalize [unknown, text]) :=
  ⟨.swap _ _ [], (normalize_canonical _).2 _ (.swap _ _ [])⟩

end Path

end ProviderKit
