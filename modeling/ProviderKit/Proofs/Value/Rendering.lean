import ProviderKit.Proofs.Value.Equality

-- Equal values can differ in the signs of their zeros only, and a text shows the signs. So equal
-- values of one text are identical, also where other text follows.

namespace ProviderKit

theorem Double.eq_of_render_append {a b : Double} (hab : a.sameNumber b = true) {xs ys : List Char}
    (h : a.render ++ xs = b.render ++ ys) : a = b := by
  obtain ⟨s, m, hm⟩ := a
  obtain ⟨t, n, hn⟩ := b
  simp only [sameNumber, isZero, Bool.or_eq_true, Bool.and_eq_true, decide_eq_true_eq] at hab
  rcases hab with ⟨rfl, rfl⟩ | ⟨rfl, rfl⟩
  · -- The text of a zero starts with the sign or with the digit.
    cases s <;> cases t <;> simp_all [render, isZero]
  · rfl

theorem Number.eq_of_render_append {a b : Number} (hab : a.same b = true) {xs ys : List Char}
    (h : a.render ++ xs = b.render ++ ys) : a = b := by
  cases a with
  | integer m hm =>
    cases b with
    | integer n hn =>
      simp only [same, decide_eq_true_eq] at hab
      subst hab
      rfl
    | double b => cases hab
  | double a =>
    cases b with
    | integer n hn => cases hab
    | double b => rw [Double.eq_of_render_append hab h]

namespace Value

mutual
theorem eq_of_print_append : (v : Value) → {w : Value} → v.same w = true → {xs ys : List Char} →
    v.toWire.print ++ xs = w.toWire.print ++ ys → v = w
  | .null, w, hvw, _, _, _ | .unknown, w, hvw, _, _, _ => by
    cases w <;> simp_all [same]
  | .bool _, w, hvw, _, _, _ | .string _, w, hvw, _, _, _ => by
    cases w <;> simp_all [same]
  | .number m, w, hvw, _, _, h => by
    cases w <;> simp only [same, Bool.false_eq_true] at hvw
    rw [Number.eq_of_render_append hvw h]
  | .list [], w, hvw, _, _, _ => by
    obtain ⟨ys, rfl, hys⟩ := exists_list_of_same hvw
    cases ys <;> simp_all [sameItems]
  | .list (x :: xs), w, hvw, _, _, h => by
    obtain ⟨ys, rfl, hys⟩ := exists_list_of_same hvw
    cases ys with
    | nil => cases hys
    | cons y ys =>
      simp only [sameItems, Bool.and_eq_true] at hys
      simp only [toWire, wireItems, Json.print, List.cons_append, List.append_assoc,
        List.cons.injEq, true_and] at h
      obtain rfl := eq_of_print_append x hys.1 h
      rw [eq_of_printItems_append xs hys.2 (List.append_cancel_left h)]
  | .map [], w, hvw, _, _, _ => by
    obtain ⟨fs, rfl, hfs⟩ := exists_map_of_same hvw
    cases fs <;> simp_all [sameEntries]
  | .map ((k, x) :: es), w, hvw, _, _, h => by
    obtain ⟨fs, rfl, hfs⟩ := exists_map_of_same hvw
    rcases fs with _ | ⟨⟨l, y⟩, fs⟩
    · cases hfs
    · simp only [sameEntries, Bool.and_eq_true, decide_eq_true_eq] at hfs
      obtain ⟨⟨rfl, hxy⟩, hfs⟩ := hfs
      simp only [toWire, wireEntries, Json.print, List.cons_append, List.append_assoc,
        List.cons.injEq, true_and, List.append_cancel_left_eq] at h
      obtain rfl := eq_of_print_append x hxy h
      rw [eq_of_printEntries_append es hfs (List.append_cancel_left h)]

theorem eq_of_printItems_append : (vs : List Value) → {ws : List Value} →
    sameItems vs ws = true → {xs ys : List Char} →
    Json.printItems (wireItems vs) ++ xs = Json.printItems (wireItems ws) ++ ys → vs = ws
  | [], ws, hvw, _, _, _ => by cases ws <;> simp_all [sameItems]
  | v :: vs, [], hvw, _, _, _ => by cases hvw
  | v :: vs, w :: ws, hvw, _, _, h => by
    simp only [sameItems, Bool.and_eq_true] at hvw
    simp only [wireItems, Json.printItems, List.cons_append, List.append_assoc, List.cons.injEq,
      true_and] at h
    obtain rfl := eq_of_print_append v hvw.1 h
    rw [eq_of_printItems_append vs hvw.2 (List.append_cancel_left h)]

theorem eq_of_printEntries_append : (es : List (String × Value)) → {fs : List (String × Value)} →
    sameEntries es fs = true → {xs ys : List Char} →
    Json.printEntries (wireEntries es) ++ xs = Json.printEntries (wireEntries fs) ++ ys → es = fs
  | [], fs, hef, _, _, _ => by cases fs <;> simp_all [sameEntries]
  | e :: es, [], hef, _, _, _ => by cases hef
  | (k, v) :: es, (l, w) :: fs, hef, _, _, h => by
    simp only [sameEntries, Bool.and_eq_true, decide_eq_true_eq] at hef
    obtain ⟨⟨rfl, hvw⟩, hfs⟩ := hef
    simp only [wireEntries, Json.printEntries, List.cons_append, List.append_assoc,
      List.cons.injEq, true_and, List.append_cancel_left_eq] at h
    obtain rfl := eq_of_print_append v hvw h
    rw [eq_of_printEntries_append es hfs (List.append_cancel_left h)]
end

/-- Equal values of one text are identical, whatever follows the text. -/
theorem eq_of_display_append {v w : Value} (hvw : v.same w = true) {xs ys : List Char}
    (h : v.display.toList ++ xs = w.display.toList ++ ys) : v = w := by
  simp only [display, Json.render, String.toList_ofList] at h
  exact eq_of_print_append v hvw h

end Value

end ProviderKit
