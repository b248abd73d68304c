import ProviderKit.Json.ByteString
import ProviderKit.Path.Basic
import ProviderKit.Proofs.Json.Unambiguous
import ProviderKit.Proofs.Value.Recognised

-- The text of a path tells the path, but for how what is unknown inside of elements was written
-- down. Names are read back from their quotes, values from their documents, and after each step the
-- text goes on with a point or ends.

namespace ProviderKit

/-! ## Quoted names -/

namespace Text

/-- What hexadecimal digits count for. -/
def unhex (digits : List Char) : Nat :=
  digits.foldl (fun n c => n * 16 + (Json.nibble? c).getD 0) 0

theorem nibble?_digitChar : ∀ n < 16, Json.nibble? (Nat.digitChar n) = some n := by decide

/-- A code point is read back from its digits, and none of them is the brace that ends them. -/
theorem unhex_hex (n : Nat) : unhex (hex n) = n ∧ ∀ c ∈ hex n, c ≠ '\x7d' := by
  induction n using Nat.strongRecOn with
  | ind n ih =>
    unfold hex
    rw [Nat.toDigits_eq_if (by decide)]
    by_cases hn : n < 16
    · rw [if_pos hn]
      constructor
      · simp [unhex, nibble?_digitChar n hn]
      · simp
    · obtain ⟨hvalue, hbrace⟩ := ih (n / 16) (by omega)
      have hlast : n % 16 < 16 := Nat.mod_lt n (by decide)
      rw [if_neg hn]
      change unhex (hex (n / 16) ++ _) = n ∧ ∀ c ∈ hex (n / 16) ++ _, _
      constructor
      · unfold unhex at hvalue ⊢
        rw [List.foldl_append, hvalue]
        simp only [List.foldl_cons, List.foldl_nil, nibble?_digitChar _ hlast, Option.getD_some]
        omega
      · intro c hc
        rcases List.mem_append.mp hc with hc | hc
        · exact hbrace c hc
        · simp [List.mem_singleton.mp hc]

/-- Read one character as it stands between quotes. The quote that ends a text is none. -/
def unescape? : List Char → Option (Char × List Char)
  | [] => none
  | '"' :: _ => none
  | '\\' :: 'n' :: rest => some ('\n', rest)
  | '\\' :: 'r' :: rest => some ('\r', rest)
  | '\\' :: 't' :: rest => some ('\t', rest)
  | '\\' :: '0' :: rest => some (Char.ofNat 0, rest)
  | '\\' :: 'u' :: rest =>
    let digits := rest.tail.takeWhile (· ≠ '\x7d')
    some (Char.ofNat (unhex digits), (rest.tail.dropWhile (· ≠ '\x7d')).tail)
  | '\\' :: c :: rest => some (c, rest)
  | c :: rest => some (c, rest)

theorem unescape?_self {c : Char} (hquote : c ≠ '"') (hslash : c ≠ '\\') (rest : List Char) :
    unescape? (c :: rest) = some (c, rest) := by
  unfold unescape?
  split <;> simp_all

theorem unescape?_hidden (c : Char) (rest : List Char) :
    unescape? (['\\', 'u', '\x7b'] ++ hex c.toNat ++ ['\x7d'] ++ rest) = some (c, rest) := by
  obtain ⟨hvalue, hbrace⟩ := unhex_hex c.toNat
  have hdigits : ∀ d ∈ hex c.toNat, decide (d ≠ '\x7d') = true := fun d hd =>
    decide_eq_true (hbrace d hd)
  have hrest : ['\\', 'u', '\x7b'] ++ hex c.toNat ++ ['\x7d'] ++ rest =
      '\\' :: 'u' :: '\x7b' :: (hex c.toNat ++ '\x7d' :: rest) := by
    simp
  rw [hrest, unescape?]
  dsimp only [List.tail_cons]
  rw [List.takeWhile_append_of_pos hdigits, List.dropWhile_append_of_pos hdigits]
  simp [hvalue]

/-- A character is read back as it stands between quotes, whatever follows it. -/
theorem unescape?_escaped (c : Char) (rest : List Char) :
    unescape? (escaped c ++ rest) = some (c, rest) := by
  unfold escaped
  by_cases hquote : c = '"'
  · subst hquote
    rfl
  by_cases hslash : c = '\\'
  · subst hslash
    rfl
  by_cases hline : c = '\n'
  · subst hline
    rfl
  by_cases hreturn : c = '\r'
  · subst hreturn
    rfl
  by_cases htab : c = '\t'
  · subst htab
    rfl
  rw [if_neg hquote, if_neg hslash, if_neg hline, if_neg hreturn, if_neg htab]
  by_cases hzero : c.toNat = 0
  · rw [if_pos hzero, ← Char.ofNat_toNat c, hzero]
    rfl
  · rw [if_neg hzero]
    by_cases hhidden : isHidden c = true
    · rw [if_pos hhidden]
      exact unescape?_hidden c rest
    · rw [if_neg hhidden]
      exact unescape?_self hquote hslash rest

theorem escaped_flatMap_append_inj (cs : List Char) {ds xs ys : List Char}
    (h : cs.flatMap escaped ++ '"' :: xs = ds.flatMap escaped ++ '"' :: ys) :
    cs = ds ∧ xs = ys := by
  have hend (c : Char) (rest xs : List Char) : '"' :: xs ≠ escaped c ++ rest := by
    intro h
    have hread := unescape?_escaped c rest
    rw [← h] at hread
    cases hread
  induction cs generalizing ds with
  | nil =>
    cases ds with
    | nil => exact ⟨rfl, List.tail_eq_of_cons_eq h⟩
    | cons d ds =>
      rw [List.flatMap_cons, List.append_assoc] at h
      exact absurd h (hend d _ _)
  | cons c cs ih =>
    cases ds with
    | nil =>
      rw [List.flatMap_cons, List.append_assoc] at h
      exact absurd h.symm (hend c _ _)
    | cons d ds =>
      rw [List.flatMap_cons, List.flatMap_cons, List.append_assoc, List.append_assoc] at h
      have hread := congrArg unescape? h
      rw [unescape?_escaped, unescape?_escaped, Option.some.injEq, Prod.mk.injEq] at hread
      obtain ⟨rfl, hrest⟩ := hread
      obtain ⟨rfl, rfl⟩ := ih hrest
      exact ⟨rfl, rfl⟩

/-- A name in quotes is told from what follows it. -/
theorem quotedChars_append_inj {s t : String} {xs ys : List Char}
    (h : quotedChars s ++ xs = quotedChars t ++ ys) : s = t ∧ xs = ys := by
  simp only [quotedChars, List.cons_append, List.append_assoc, List.nil_append, List.cons.injEq,
    true_and] at h
  obtain ⟨hchars, hrest⟩ := escaped_flatMap_append_inj s.toList h
  exact ⟨String.toList_injective hchars, hrest⟩

end Text

/-! ## Steps -/

namespace Step

/-- The step with an unknown value for each text inside of an element that stands for one. -/
def recognised : Step → Step
  | .element v => .element v.recognised
  | step => step

/-- The kind of a step, as it is named. -/
def label : Step → String
  | .field _ => "AttributeName("
  | .key _ => "ElementKeyString("
  | .index _ => "ElementKeyInt("
  | .element _ => "ElementKeyValue("

/-- What a step has in brackets. -/
def content : Step → String
  | .field name => Text.quoted name
  | .key k => Text.quoted k
  | .index i => toString i
  | .element v => v.display

theorem bracketed_toList (label text : String) :
    (label ++ text ++ ")").toList = label.toList ++ (text.toList ++ [')']) := by
  rw [String.toList_append, String.toList_append, List.append_assoc]
  simp

theorem display_toList (s : Step) :
    s.display.toList = s.label.toList ++ (s.content.toList ++ [')']) := by
  cases s <;> exact bracketed_toList _ _

/-! ## Contents in brackets -/

theorem quoted_append_inj {a b : String} {xs ys : List Char}
    (h : (Text.quoted a).toList ++ ')' :: xs = (Text.quoted b).toList ++ ')' :: ys) :
    a = b ∧ xs = ys := by
  rw [Text.quoted, Text.quoted, String.toList_ofList, String.toList_ofList] at h
  obtain ⟨hab, hrest⟩ := Text.quotedChars_append_inj h
  exact ⟨hab, List.tail_eq_of_cons_eq hrest⟩

theorem index_append_inj {i j : Nat} {xs ys : List Char}
    (h : (toString i).toList ++ ')' :: xs = (toString j).toList ++ ')' :: ys) :
    i = j ∧ xs = ys := by
  have hbracket {xs : List Char} : ∀ c ∈ (')' :: xs).head?, ¬ DecimalText.isDigit c = true := by
    intro c hc
    obtain rfl : ')' = c := Option.some.inj hc
    decide
  rw [Nat.toString_eq_ofList_toDigits, Nat.toString_eq_ofList_toDigits, String.toList_ofList,
    String.toList_ofList] at h
  obtain ⟨hij, hrest⟩ := DecimalText.append_inj_of_head?
    (fun _ => Decimal.isDigit_of_mem_digitsOf) (fun _ => Decimal.isDigit_of_mem_digitsOf)
    hbracket hbracket h
  refine ⟨?_, List.tail_eq_of_cons_eq hrest⟩
  rw [← Decimal.countOf_digitsOf i, hij, Decimal.countOf_digitsOf]

theorem value_append_inj {v w : Value} {xs ys : List Char}
    (h : v.display.toList ++ ')' :: xs = w.display.toList ++ ')' :: ys) :
    v.recognised = w.recognised ∧ xs = ys := by
  rw [Value.display, Value.display, Json.render, Json.render, String.toList_ofList,
    String.toList_ofList] at h
  obtain ⟨hwire, hrest⟩ := Json.print_append_inj v.toWire (Json.follows_cons (by decide) xs)
    (Json.follows_cons (by decide) ys) h
  exact ⟨(Value.toWire_eq_iff v w).mp hwire, List.tail_eq_of_cons_eq hrest⟩

/-- A step is told from its text and from what follows it. -/
theorem display_append_inj {s t : Step} {xs ys : List Char}
    (h : s.display.toList ++ xs = t.display.toList ++ ys) :
    s.recognised = t.recognised ∧ xs = ys := by
  rw [display_toList, display_toList, List.append_assoc, List.append_assoc, List.append_assoc,
    List.append_assoc] at h
  cases s with
  | field name =>
    cases t with
    | field name' =>
      obtain ⟨rfl, hrest⟩ := quoted_append_inj (List.append_cancel_left h)
      exact ⟨rfl, hrest⟩
    | _ => simp [label] at h
  | key k =>
    cases t with
    | key k' =>
      obtain ⟨rfl, hrest⟩ := quoted_append_inj (List.append_cancel_left h)
      exact ⟨rfl, hrest⟩
    | _ => simp [label] at h
  | index i =>
    cases t with
    | index j =>
      obtain ⟨rfl, hrest⟩ := index_append_inj (List.append_cancel_left h)
      exact ⟨rfl, hrest⟩
    | _ => simp [label] at h
  | element v =>
    cases t with
    | element w =>
      obtain ⟨hvw, hrest⟩ := value_append_inj (List.append_cancel_left h)
      exact ⟨congrArg element hvw, hrest⟩
    | _ => simp [label] at h

/-- Steps that come to the same have one text. -/
theorem display_eq_of_recognised {s t : Step} (h : s.recognised = t.recognised) :
    s.display = t.display := by
  cases s with
  | element v =>
    cases t with
    | element w =>
      have hwire := (Value.toWire_eq_iff v w).mpr (Step.element.inj h)
      change "ElementKeyValue(" ++ Json.render v.toWire ++ ")" = _
      rw [hwire]
      rfl
    | _ => cases h
  | _ =>
    cases t <;> cases h
    rfl

theorem display_ne_nil (s : Step) : s.display.toList ≠ [] := by
  rw [display_toList]
  simp

end Step

/-! ## Paths -/

namespace Path

/-- The path with an unknown value for each text inside of its elements that stands for one. -/
def recognised (p : Path) : Path := ⟨p.steps.map Step.recognised⟩

/-- The text of steps after the first one, each behind a point. -/
def continued (ss : List Step) : List Char := ss.flatMap fun s => '.' :: s.display.toList

theorem intercalate_cons (s : Step) (ss : List Step) :
    ['.'].intercalate ((s :: ss).map fun s => s.display.toList) =
      s.display.toList ++ continued ss := by
  induction ss generalizing s with
  | nil => simp [continued]
  | cons t ts ih =>
    have hrest := ih t
    rw [List.map_cons] at hrest
    rw [List.map_cons, List.map_cons, List.intercalate_cons_cons, hrest]
    simp [continued]

theorem recognised_eq_of_continued {ss ts : List Step} (h : continued ss = continued ts) :
    ss.map Step.recognised = ts.map Step.recognised := by
  induction ss generalizing ts with
  | nil =>
    cases ts with
    | nil => rfl
    | cons t ts => cases h
  | cons s ss ih =>
    cases ts with
    | nil => cases h
    | cons t ts =>
      obtain ⟨hst, hrest⟩ := Step.display_append_inj (List.cons.inj h).2
      rw [List.map_cons, List.map_cons, hst, ih hrest]

/-- The steps of a path are told from their texts, joined by points. -/
theorem recognised_eq_of_intercalate {ss ts : List Step}
    (h : ['.'].intercalate (ss.map fun s => s.display.toList) =
      ['.'].intercalate (ts.map fun t => t.display.toList)) :
    ss.map Step.recognised = ts.map Step.recognised := by
  have hne (s : Step) (ss : List Step) :
      ['.'].intercalate ((s :: ss).map fun s => s.display.toList) ≠ [] := by
    rw [intercalate_cons]
    simp [s.display_ne_nil]
  cases ss with
  | nil =>
    cases ts with
    | nil => rfl
    | cons t ts => exact absurd h.symm (hne t ts)
  | cons s ss =>
    cases ts with
    | nil => exact absurd h (hne s ss)
    | cons t ts =>
      rw [intercalate_cons, intercalate_cons] at h
      obtain ⟨hst, hrest⟩ := Step.display_append_inj h
      rw [List.map_cons, List.map_cons, hst, recognised_eq_of_continued hrest]

theorem map_display_eq {ss ts : List Step}
    (h : ss.map Step.recognised = ts.map Step.recognised) :
    ss.map Step.display = ts.map Step.display := by
  induction ss generalizing ts with
  | nil =>
    cases ts with
    | nil => rfl
    | cons t ts => cases h
  | cons s ss ih =>
    cases ts with
    | nil => cases h
    | cons t ts =>
      obtain ⟨hst, hrest⟩ := List.cons.inj h
      rw [List.map_cons, List.map_cons, Step.display_eq_of_recognised hst, ih hrest]

/-- Paths have one text exactly if they come to the same once the texts inside of their elements
that stand for unknown values are recognised. -/
theorem display_eq_iff (p q : Path) : p.display = q.display ↔ p.recognised = q.recognised := by
  constructor
  · intro h
    have hchars := congrArg String.toList h
    simp only [display, String.toList_intercalate, List.map_map] at hchars
    exact congrArg Path.mk (recognised_eq_of_intercalate hchars)
  · intro h
    rw [display, display, map_display_eq (Path.mk.inj h)]

end Path

end ProviderKit
