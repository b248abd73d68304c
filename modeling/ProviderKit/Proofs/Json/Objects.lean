import ProviderKit.Json.Parser
import ProviderKit.Proofs.Json.Texts
import ProviderKit.Proofs.Keyed

-- An object is read back from its compact text if each of its values is. The reader's steps
-- are counted from the length of the text, and there is one for each byte at least.

namespace ProviderKit.Json

open Bytes (ofChars)

/-- No number goes on in the bytes: they do not start with a digit, a point or the letter of a
power of ten. -/
def EndsNumber (rest : Bytes) : Prop :=
  ∀ b ∈ rest.head?, isDigit b = false ∧ b ≠ 46 ∧ b ≠ 101 ∧ b ≠ 69

theorem endsNumber_nil : EndsNumber [] := nofun

/-- The value is read back from its text, whatever follows it that ends a number, `depth` levels
above the refused one. -/
def ReadBack (depth : Nat) (x : Json) : Prop :=
  ∀ (steps : Nat) (rest : Bytes), (ofChars x.print).length ≤ steps → EndsNumber rest →
    readValue .strict steps depth (ofChars x.print ++ rest) = .ok (x, rest)

theorem skipBlanks_cons {b : UInt8} (h : isBlank b = false) (rest : Bytes) :
    skipBlanks (b :: rest) = b :: rest := by
  rw [skipBlanks, List.dropWhile_cons, h]
  rfl

/-! ## Texts -/

theorem ofChars_quote (text : String) (rest : Bytes) :
    ofChars (quote text) ++ rest = 34 :: (ofChars (text.toList.flatMap escape) ++ 34 :: rest) := by
  rw [quote, List.cons_append, Bytes.ofChars_cons, Bytes.ofChars_append, List.append_assoc,
    List.append_assoc]
  rfl

theorem readBack_string (depth : Nat) (text : String) : ReadBack depth (.string text) := by
  intro steps rest h _
  have hprint : (Json.string text).print = quote text := by rw [print]
  rw [hprint] at h ⊢
  cases steps with
  | zero =>
    have hlength := congrArg List.length (ofChars_quote text [])
    simp only [List.append_nil, List.length_cons] at hlength
    omega
  | succ steps =>
    rw [ofChars_quote, readValue, skipBlanks_cons rfl]
    change (readText .strict _ >>= _) = _
    rw [readText_quote]
    rfl

/-! ## Entries -/

/-- The bytes of an entry from its key's closing quote on. -/
theorem ofChars_entry (k : String) (x : Json) (more : List Char) (rest : Bytes) :
    ofChars (quote k ++ ':' :: x.print ++ more) ++ rest =
      34 :: (ofChars (k.toList.flatMap escape) ++
        34 :: 58 :: (ofChars x.print ++ (ofChars more ++ rest))) := by
  rw [List.append_assoc, Bytes.ofChars_append, List.append_assoc, ofChars_quote, List.cons_append,
    Bytes.ofChars_cons, Bytes.ofChars_append]
  simp only [List.append_assoc]
  rfl

theorem readEntry_of_value {steps depth : Nat} {k : String} {x : Json} {bytes rest : Bytes}
    (h : readValue .strict steps depth bytes = .ok (x, rest)) :
    readEntry .strict (steps + 1) depth (ofChars (k.toList.flatMap escape) ++ 34 :: 58 :: bytes) =
      .ok ((k, x), rest) := by
  have hcolon : skipBlanks (58 :: bytes) = 58 :: bytes := skipBlanks_cons rfl bytes
  simp only [readEntry, readText_quote, bind, Except.bind, hcolon, ↓reduceIte, h]
  rfl

section

variable {steps depth : Nat} {entry : String × Json} {es : List (String × Json)}
  {bytes more rest : Bytes}

theorem readEntries_of_entry (hentry : readEntry .strict steps depth bytes = .ok (entry, more))
    (hes : readEntries .strict steps depth more = .ok (es, rest)) :
    readEntries .strict (steps + 1) depth (44 :: 34 :: bytes) = .ok (entry :: es, rest) := by
  have hcomma : skipBlanks (44 :: 34 :: bytes) = 44 :: 34 :: bytes := skipBlanks_cons rfl _
  have hquote : skipBlanks (34 :: bytes) = 34 :: bytes := skipBlanks_cons rfl bytes
  rw [readEntries, hcomma]
  simp only [hquote, bind, Except.bind, hentry, hes]
  rfl

theorem readFirstEntry_of_entry (hentry : readEntry .strict steps depth bytes = .ok (entry, more))
    (hes : readEntries .strict steps depth more = .ok (es, rest)) :
    readFirstEntry .strict (steps + 1) depth (34 :: bytes) = .ok (entry :: es, rest) := by
  have hquote : skipBlanks (34 :: bytes) = 34 :: bytes := skipBlanks_cons rfl bytes
  rw [readFirstEntry, hquote]
  simp only [bind, Except.bind, hentry, hes]
  rfl

end

/-- A comma or the closing brace follows each value. -/
theorem endsNumber_printEntries (es : List (String × Json)) (rest : Bytes) :
    EndsNumber (ofChars (printEntries es) ++ rest) := by
  intro b hb
  cases es with
  | nil =>
    obtain rfl : 125 = b := Option.some.inj hb
    decide
  | cons e es =>
    obtain rfl : 44 = b := Option.some.inj hb
    decide

/-- The entries after the first are read back, together with the closing brace. -/
theorem readEntries_print {depth : Nat} {es : Keyed Json} (hes : ∀ e ∈ es, ReadBack depth e.2)
    (rest : Bytes) {steps : Nat} (h : (ofChars (printEntries es)).length ≤ steps) :
    readEntries .strict steps depth (ofChars (printEntries es) ++ rest) = .ok (es, rest) := by
  induction es generalizing steps with
  | nil =>
    rw [printEntries] at h ⊢
    cases steps with
    | zero => exact absurd h (Nat.not_succ_le_zero _)
    | succ steps =>
      rw [readEntries]
      rfl
  | cons e es ih =>
    obtain ⟨k, x⟩ := e
    have hbytes : ofChars (printEntries ((k, x) :: es)) ++ rest = 44 :: 34 ::
        (ofChars (k.toList.flatMap escape) ++
          34 :: 58 :: (ofChars x.print ++ (ofChars (printEntries es) ++ rest))) := by
      rw [printEntries, List.cons_append, List.cons_append, Bytes.ofChars_cons, List.append_assoc,
        ofChars_entry]
      rfl
    have hlength : (ofChars x.print).length + (ofChars (printEntries es)).length + 4 ≤ steps := by
      have hall := congrArg List.length hbytes
      simp only [List.length_append, List.length_cons] at hall
      omega
    have hx : ReadBack depth x := hes (k, x) List.mem_cons_self
    obtain ⟨left, rfl⟩ : ∃ left, steps = left + 2 := ⟨steps - 2, by omega⟩
    rw [hbytes]
    refine readEntries_of_entry
      (readEntry_of_value (hx left _ (by omega) (endsNumber_printEntries es rest))) ?_
    exact ih (fun e he => hes e (List.mem_cons_of_mem _ he)) (by omega)

/-! ## Objects -/

theorem readFirstEntry_print {depth : Nat} {es : Keyed Json} (hes : ∀ e ∈ es, ReadBack depth e.2)
    (rest : Bytes) {steps : Nat} (h : (ofChars (Json.object es).print).length ≤ steps + 1) :
    ∃ bytes, ofChars (Json.object es).print ++ rest = 123 :: bytes ∧
      readFirstEntry .strict steps depth bytes = .ok (es, rest) := by
  cases es with
  | nil =>
    rw [print] at h ⊢
    refine ⟨125 :: rest, rfl, ?_⟩
    cases steps with
    | zero => exact absurd h (by decide)
    | succ steps =>
      rw [readFirstEntry]
      rfl
  | cons e es =>
    obtain ⟨k, x⟩ := e
    have hbytes : ofChars (Json.object ((k, x) :: es)).print ++ rest = 123 :: 34 ::
        (ofChars (k.toList.flatMap escape) ++
          34 :: 58 :: (ofChars x.print ++ (ofChars (printEntries es) ++ rest))) := by
      rw [print, List.cons_append, List.cons_append, Bytes.ofChars_cons, List.append_assoc,
        ofChars_entry]
      rfl
    have hlength :
        (ofChars x.print).length + (ofChars (printEntries es)).length + 3 ≤ steps := by
      have hall := congrArg List.length hbytes
      simp only [List.length_append, List.length_cons] at hall
      omega
    have hx : ReadBack depth x := hes (k, x) List.mem_cons_self
    obtain ⟨left, rfl⟩ : ∃ left, steps = left + 2 := ⟨steps - 2, by omega⟩
    refine ⟨_, hbytes, readFirstEntry_of_entry
      (readEntry_of_value (hx left _ (by omega) (endsNumber_printEntries es rest))) ?_⟩
    exact readEntries_print (fun e he => hes e (List.mem_cons_of_mem _ he)) rest (by omega)

/-- An object one level up, whose keys ascend as those of a dictionary do. -/
theorem readBack_object {depth : Nat} {es : Keyed Json} (hdepth : 0 < depth)
    (hasc : Keyed.Ascending es) (hes : ∀ e ∈ es, ReadBack depth e.2) :
    ReadBack (depth + 1) (.object es) := by
  intro steps rest h _
  cases steps with
  | zero =>
    have hlength : (ofChars (Json.object es).print).length ≤ 0 + 1 := Nat.le_succ_of_le h
    obtain ⟨bytes, hbytes, _⟩ := readFirstEntry_print hes [] hlength
    rw [List.append_nil] at hbytes
    rw [hbytes] at h
    exact absurd h (Nat.not_succ_le_zero _)
  | succ steps =>
    obtain ⟨bytes, hbytes, hread⟩ := readFirstEntry_print hes rest h
    rw [hbytes, readValue, skipBlanks_cons rfl]
    change (if depth + 1 ≤ 1 then _ else readFirstEntry .strict steps depth bytes >>= _) = _
    rw [if_neg (by omega), hread]
    change Except.ok (Json.ofEntries es, rest) = _
    rw [Json.ofEntries, Keyed.ofEntries_of_ascending hasc]

/-- A whole text that is an object is read back. -/
theorem parseObjectBytes_render {es : Keyed Json} (hasc : Keyed.Ascending es)
    (hes : ∀ e ∈ es, ReadBack 127 e.2) :
    parseObjectBytes (Bytes.ofText (Json.object es).render) = .ok es := by
  have hread := readBack_object (by decide) hasc hes
    (stepsFor (ofChars (Json.object es).print)) [] (by rw [stepsFor]; omega) endsNumber_nil
  obtain ⟨bytes, hbytes, _⟩ := readFirstEntry_print hes [] (Nat.le_succ _)
  rw [List.append_nil] at hread hbytes
  rw [render, Bytes.ofText_ofList]
  rw [hbytes] at hread ⊢
  rw [parseObjectBytes, skipBlanks_cons rfl]
  change located _ (readValue .strict (stepsFor (123 :: bytes)) depthLimit (123 :: bytes) >>= _) = _
  rw [depthLimit, hread]
  rfl

end ProviderKit.Json
