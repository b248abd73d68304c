import ProviderKit.Proofs.Json.Objects
import ProviderKit.Proofs.Number.Spelling

-- The compact text of a document tells the document, and also where its text ends, as long as no
-- character follows that a number might go on with.

namespace ProviderKit.Json

/-! ## Kinds -/

inductive Kind where
  | null | bool | number | string | array | object
  deriving DecidableEq

def kind : Json → Kind
  | .null => .null
  | .bool _ => .bool
  | .number _ => .number
  | .string _ => .string
  | .array _ => .array
  | .object _ => .object

/-- The kind of a document whose text starts with the character, if there is one. -/
def kindOf? (c : Char) : Option Kind :=
  if c = 'n' then some .null
  else if c = 't' ∨ c = 'f' then some .bool
  else if c = '"' then some .string
  else if c = '[' then some .array
  else if c = '\x7b' then some .object
  else if Number.isNumeric c then some .number
  else none

theorem kindOf?_of_isNumeric {c : Char} (hc : Number.isNumeric c = true) :
    kindOf? c = some .number := by
  have hne {d : Char} (hd : Number.isNumeric d = false) : c ≠ d := by
    rintro rfl
    exact Bool.noConfusion (hc.symm.trans hd)
  have hn : c ≠ 'n' := hne (by decide)
  have ht : c ≠ 't' := hne (by decide)
  have hf : c ≠ 'f' := hne (by decide)
  have hquote : c ≠ '"' := hne (by decide)
  have hbracket : c ≠ '[' := hne (by decide)
  have hbrace : c ≠ '\x7b' := hne (by decide)
  simp [kindOf?, hn, ht, hf, hquote, hbracket, hbrace, hc]

/-- A document shows its kind first. -/
theorem exists_print_eq_cons (j : Json) :
    ∃ c cs, j.print = c :: cs ∧ kindOf? c = some j.kind := by
  cases j with
  | null => exact ⟨_, _, rfl, rfl⟩
  | bool b => cases b <;> exact ⟨_, _, rfl, rfl⟩
  | number n =>
    obtain ⟨c, cs, hcs⟩ := List.exists_cons_of_ne_nil n.render_ne_nil
    have hc : Number.isNumeric c = true :=
      Number.isNumeric_of_mem_render (n := n) (by rw [hcs]; exact List.mem_cons_self)
    exact ⟨c, cs, by rw [print, hcs], kindOf?_of_isNumeric hc⟩
  | string s => exact ⟨_, _, rfl, rfl⟩
  | array items => cases items <;> exact ⟨_, _, rfl, rfl⟩
  | object entries => cases entries <;> exact ⟨_, _, rfl, rfl⟩

theorem kind_eq_of_print_append {j k : Json} {xs ys : List Char}
    (h : j.print ++ xs = k.print ++ ys) : k.kind = j.kind := by
  obtain ⟨c, cs, hj, hc⟩ := exists_print_eq_cons j
  obtain ⟨d, ds, hk, hd⟩ := exists_print_eq_cons k
  rw [hj, hk, List.cons_append, List.cons_append] at h
  rw [(List.cons.inj h).1] at hc
  exact Option.some.inj (hd.symm.trans hc)

/-- A character that starts no document is not the first one of a text. -/
theorem cons_ne_print_append {c : Char} (hc : kindOf? c = none) (cs : List Char) (j : Json)
    (xs : List Char) : c :: cs ≠ j.print ++ xs := by
  obtain ⟨d, ds, hj, hd⟩ := exists_print_eq_cons j
  rw [hj, List.cons_append]
  intro h
  rw [(List.cons.inj h).1, hd] at hc
  cases hc

/-! ## Texts -/

/-- A text in quotes is told from what follows it. -/
theorem quote_append_inj {s t : String} {xs ys : List Char} (h : quote s ++ xs = quote t ++ ys) :
    s = t ∧ xs = ys := by
  have hbytes := congrArg Bytes.ofChars h
  rw [Bytes.ofChars_append, Bytes.ofChars_append, ofChars_quote, ofChars_quote] at hbytes
  have hread := congrArg (readText .strict) (List.cons.inj hbytes).2
  rw [readText_quote, readText_quote] at hread
  obtain rfl : s = t := (Prod.mk.inj (Except.ok.inj hread)).1
  exact ⟨rfl, List.append_cancel_left h⟩

/-! ## Documents -/

/-- No number goes on in the text. -/
def Follows (xs : List Char) : Prop := ∀ c ∈ xs.head?, Number.isNumeric c = false

theorem follows_cons {c : Char} (hc : Number.isNumeric c = false) (xs : List Char) :
    Follows (c :: xs) := by
  intro d hd
  obtain rfl : c = d := Option.some.inj hd
  exact hc

theorem follows_printItems (items : List Json) (xs : List Char) :
    Follows (printItems items ++ xs) := by
  cases items with
  | nil => exact follows_cons (by decide) _
  | cons x items => exact follows_cons (by decide) _

theorem follows_printEntries (entries : List (String × Json)) (xs : List Char) :
    Follows (printEntries entries ++ xs) := by
  cases entries with
  | nil => exact follows_cons (by decide) _
  | cons e entries => exact follows_cons (by decide) _

mutual
/-- A document is told from its text and from what follows it. -/
theorem print_append_inj : (j : Json) → {k : Json} → {xs ys : List Char} → Follows xs →
    Follows ys → j.print ++ xs = k.print ++ ys → j = k ∧ xs = ys
  | .null, k, _, _, _, _, h => by
    have hkind := kind_eq_of_print_append h
    cases k with
    | null => exact ⟨rfl, List.append_cancel_left h⟩
    | _ => cases hkind
  | .bool b, k, _, _, _, _, h => by
    have hkind := kind_eq_of_print_append h
    cases k with
    | bool b' => cases b <;> cases b' <;> simp_all [print]
    | _ => cases hkind
  | .number n, k, _, _, hxs, hys, h => by
    have hkind := kind_eq_of_print_append h
    cases k with
    | number n' =>
      rw [print, print] at h
      obtain ⟨rfl, rfl⟩ := Number.render_append_inj hxs hys h
      exact ⟨rfl, rfl⟩
    | _ => cases hkind
  | .string s, k, _, _, _, _, h => by
    have hkind := kind_eq_of_print_append h
    cases k with
    | string s' =>
      rw [print, print] at h
      obtain ⟨rfl, rfl⟩ := quote_append_inj h
      exact ⟨rfl, rfl⟩
    | _ => cases hkind
  | .array js, k, _, _, _, _, h => by
    have hkind := kind_eq_of_print_append h
    cases k with
    | array ks =>
      cases js with
      | nil =>
        cases ks with
        | nil => exact ⟨rfl, List.append_cancel_left h⟩
        | cons k ks =>
          simp only [print, List.cons_append, List.append_assoc, List.cons.injEq, true_and] at h
          exact absurd h (cons_ne_print_append (by decide) _ k _)
      | cons j js =>
        cases ks with
        | nil =>
          simp only [print, List.cons_append, List.append_assoc, List.cons.injEq, true_and] at h
          exact absurd h.symm (cons_ne_print_append (by decide) _ j _)
        | cons k ks =>
          simp only [print, List.cons_append, List.append_assoc, List.cons.injEq, true_and] at h
          obtain ⟨rfl, hrest⟩ := print_append_inj j (follows_printItems js _)
            (follows_printItems ks _) h
          obtain ⟨rfl, rfl⟩ := printItems_append_inj js hrest
          exact ⟨rfl, rfl⟩
    | _ => cases hkind
  | .object es, k, _, _, _, _, h => by
    have hkind := kind_eq_of_print_append h
    cases k with
    | object fs =>
      rcases es with _ | ⟨⟨key, j⟩, es⟩
      · rcases fs with _ | ⟨⟨key', k⟩, fs⟩
        · exact ⟨rfl, List.append_cancel_left h⟩
        · simp [print, quote] at h
      · rcases fs with _ | ⟨⟨key', k⟩, fs⟩
        · simp [print, quote] at h
        · simp only [print, List.cons_append, List.append_assoc, List.cons.injEq, true_and] at h
          obtain ⟨rfl, hvalue⟩ := quote_append_inj h
          obtain ⟨rfl, hrest⟩ := print_append_inj j (follows_printEntries es _)
            (follows_printEntries fs _) (List.cons.inj hvalue).2
          obtain ⟨rfl, rfl⟩ := printEntries_append_inj es hrest
          exact ⟨rfl, rfl⟩
    | _ => cases hkind

theorem printItems_append_inj : (js : List Json) → {ks : List Json} → {xs ys : List Char} →
    printItems js ++ xs = printItems ks ++ ys → js = ks ∧ xs = ys
  | [], ks, _, _, h => by
    cases ks with
    | nil => exact ⟨rfl, List.append_cancel_left h⟩
    | cons k ks => simp [printItems] at h
  | j :: js, ks, _, _, h => by
    cases ks with
    | nil => simp [printItems] at h
    | cons k ks =>
      simp only [printItems, List.cons_append, List.append_assoc, List.cons.injEq, true_and] at h
      obtain ⟨rfl, hrest⟩ := print_append_inj j (follows_printItems js _)
        (follows_printItems ks _) h
      obtain ⟨rfl, rfl⟩ := printItems_append_inj js hrest
      exact ⟨rfl, rfl⟩

theorem printEntries_append_inj : (es : List (String × Json)) → {fs : List (String × Json)} →
    {xs ys : List Char} → printEntries es ++ xs = printEntries fs ++ ys → es = fs ∧ xs = ys
  | [], fs, _, _, h => by
    cases fs with
    | nil => exact ⟨rfl, List.append_cancel_left h⟩
    | cons f fs => simp [printEntries] at h
  | (key, j) :: es, fs, _, _, h => by
    rcases fs with _ | ⟨⟨key', k⟩, fs⟩
    · simp [printEntries] at h
    · simp only [printEntries, List.cons_append, List.append_assoc, List.cons.injEq, true_and] at h
      obtain ⟨rfl, hvalue⟩ := quote_append_inj h
      obtain ⟨rfl, hrest⟩ := print_append_inj j (follows_printEntries es _)
        (follows_printEntries fs _) (List.cons.inj hvalue).2
      obtain ⟨rfl, rfl⟩ := printEntries_append_inj es hrest
      exact ⟨rfl, rfl⟩
end

end ProviderKit.Json
