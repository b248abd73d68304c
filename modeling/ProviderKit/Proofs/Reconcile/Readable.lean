import ProviderKit.Proofs.Json.Texts
import ProviderKit.Proofs.Reconcile.Numerals

-- Which texts are read as decimals: the numerals whose powers of ten have 64 bits, as they are
-- written, without the point, and without the zeros at the end. The parts are cut out of the text
-- at byte offsets, and no cut falls inside a character.

namespace ProviderKit.DecimalText

variable {p : Char → Bool} {cs xs ys : List Char} {a c : Char}

/-! ## Powers of ten -/

/-- How many zeros end the digits, of those that come after the zeros in front. There are none if
all digits are zeros. -/
def Numeral.trailingZeros (m : Numeral) : Nat :=
  ((m.digits.dropWhile (· = '0')).reverse.takeWhile (· = '0')).length

/-- The power of ten fits 64 bits wherever it is counted. -/
structure Numeral.Fits (m : Numeral) : Prop where
  written : InSigned64 m.exponent
  withoutPoint : InSigned64 (m.exponent - (m.fraction.getD []).length)
  withoutZeros : InSigned64 (m.exponent - (m.fraction.getD []).length + m.trailingZeros)

theorem signed64?_of_inSigned64 {n : Int} (h : InSigned64 n) : signed64? n = some n := if_pos h

theorem signed64?_of_not_inSigned64 {n : Int} (h : ¬ InSigned64 n) : signed64? n = none := if_neg h

/-- The parts are put together if both powers of ten that are counted on the way fit. -/
theorem isSome_ofParts?_iff (negative : Bool) (whole fraction : List Char) (exponent : Int) :
    (ofParts? negative whole fraction exponent).isSome = true ↔
      InSigned64 (exponent - fraction.length) ∧
        InSigned64 (exponent - fraction.length +
          (((whole ++ fraction).dropWhile (· = '0')).reverse.takeWhile (· = '0')).length) := by
  have htrimmed := length_trimZerosRight ((whole ++ fraction).dropWhile (· = '0'))
  generalize (((whole ++ fraction).dropWhile (· = '0')).reverse.takeWhile (· = '0')).length = zeros
    at htrimmed ⊢
  unfold ofParts?
  by_cases hpoint : InSigned64 (exponent - fraction.length)
  · rw [signed64?_of_inSigned64 hpoint]
    simp only [Option.bind_eq_bind, Option.bind_some, htrimmed]
    by_cases hfits : InSigned64 (exponent - fraction.length + zeros)
    · rw [signed64?_of_inSigned64 hfits]
      apply iff_of_true
      · simp only [Option.bind_some]
        split <;> rfl
      · exact ⟨hpoint, hfits⟩
    · rw [signed64?_of_not_inSigned64 hfits]
      exact iff_of_false Bool.false_ne_true fun h => hfits h.2
  · rw [signed64?_of_not_inSigned64 hpoint]
    exact iff_of_false Bool.false_ne_true fun h => hpoint h.1

/-- A numeral is read if its power of ten fits, and only then. -/
theorem Numeral.isSome_parse?_iff (m : Numeral) : (parse? m.text).isSome = true ↔ m.Fits := by
  rw [m.parse?_text]
  by_cases hwritten : InSigned64 m.exponent
  · rw [signed64?_of_inSigned64 hwritten]
    simp only [Option.bind_eq_bind, Option.bind_some]
    rw [isSome_ofParts?_iff]
    constructor
    · rintro ⟨hpoint, hzeros⟩
      exact ⟨hwritten, hpoint, hzeros⟩
    · intro h
      exact ⟨h.withoutPoint, h.withoutZeros⟩
  · rw [signed64?_of_not_inSigned64 hwritten]
    constructor
    · intro h
      cases h
    · intro h
      exact absurd h.written hwritten

/-! ## Cuts at byte offsets -/

/-- How many bytes characters take. -/
def byteLength (cs : List Char) : Nat := (Bytes.ofChars cs).length

theorem byteLength_append (xs ys : List Char) :
    byteLength (xs ++ ys) = byteLength xs + byteLength ys := by
  unfold byteLength
  rw [Bytes.ofChars_append, List.length_append]

theorem byteLength_cons (c : Char) (cs : List Char) :
    byteLength (c :: cs) = c.utf8Size + byteLength cs := by
  unfold byteLength
  rw [Bytes.ofChars_cons, List.length_append, String.length_utf8EncodeChar]

theorem byteLength_trimZerosRight_le (xs : List Char) :
    byteLength (trimZerosRight xs) ≤ byteLength xs := by
  have hbytes := congrArg byteLength (trimZerosRight_append_zeros xs)
  rw [byteLength_append] at hbytes
  omega

/-- Cut a text at a byte offset. There is no cut inside a character, or past the end. -/
def cut? : Nat → List Char → Option (List Char × List Char)
  | 0, cs => some ([], cs)
  | _ + 1, [] => none
  | n + 1, c :: cs =>
    if c.utf8Size ≤ n + 1 then (cut? (n + 1 - c.utf8Size) cs).map fun r => (c :: r.1, r.2)
    else none

/-- The byte offset of the first character that satisfies a test. -/
def offsetOf? (p : Char → Bool) : List Char → Option Nat
  | [] => none
  | c :: cs => if p c then some 0 else (offsetOf? p cs).map (c.utf8Size + ·)

theorem cut?_byteLength (xs ys : List Char) : cut? (byteLength xs) (xs ++ ys) = some (xs, ys) := by
  induction xs with
  | nil =>
    unfold cut? byteLength
    rfl
  | cons c xs ih =>
    have hpos := c.utf8Size_pos
    have hsize : byteLength (c :: xs) = (c.utf8Size - 1 + byteLength xs) + 1 := by
      rw [byteLength_cons]
      omega
    have hrest : c.utf8Size - 1 + byteLength xs + 1 - c.utf8Size = byteLength xs := by omega
    rw [hsize, List.cons_append, cut?, if_pos (by omega), hrest, ih]
    rfl

theorem offsetOf?_append (hxs : ∀ c ∈ xs, p c = false) (ha : p a = true) :
    offsetOf? p (xs ++ a :: ys) = some (byteLength xs) := by
  induction xs with
  | nil => exact if_pos ha
  | cons c xs ih =>
    have hc : ¬ p c = true := by
      rw [hxs c List.mem_cons_self]
      exact Bool.false_ne_true
    rw [List.cons_append, offsetOf?, if_neg hc, ih fun d hd => hxs d (List.mem_cons_of_mem _ hd),
      byteLength_cons]
    rfl

theorem offsetOf?_of_forall (hcs : ∀ c ∈ cs, p c = false) : offsetOf? p cs = none := by
  induction cs with
  | nil => rfl
  | cons c cs ih =>
    have hc : ¬ p c = true := by
      rw [hcs c List.mem_cons_self]
      exact Bool.false_ne_true
    rw [offsetOf?, if_neg hc, ih fun d hd => hcs d (List.mem_cons_of_mem _ hd)]
    rfl

/-- Split a text at the first character that satisfies a test, which is one byte long: one cut
before that byte and one after it. -/
def splitAtOffset? (p : Char → Bool) (cs : List Char) : Option (Option (List Char × List Char)) :=
  match offsetOf? p cs with
  | none => some none
  | some n => do
    let (front, _) ← cut? n cs
    let (_, back) ← cut? (n + 1) cs
    return some (front, back)

/-- Where the characters to be found have one byte, both cuts are between characters. -/
theorem splitAtOffset?_eq (hp : ∀ c, p c = true → c.utf8Size = 1) (cs : List Char) :
    splitAtOffset? p cs = some (splitAt? p cs) := by
  unfold splitAtOffset?
  by_cases hnone : ∀ c ∈ cs, p c = false
  · rw [offsetOf?_of_forall hnone, splitAt?_of_forall hnone]
  · have hdrop : cs.dropWhile (fun c => !p c) ≠ [] := by
      intro hnil
      apply hnone
      intro c hc
      simpa using List.dropWhile_eq_nil_iff.mp hnil c hc
    obtain ⟨a, ys, hys⟩ := List.exists_cons_of_ne_nil hdrop
    have hcs := List.takeWhile_append_dropWhile (p := fun c => !p c) (l := cs)
    have hxs : ∀ c ∈ cs.takeWhile (fun c => !p c), p c = false := by
      intro c hc
      simpa using List.mem_takeWhile_imp hc
    have ha : p a = true := by
      have hhead := List.head?_dropWhile_not (fun c => !p c) cs
      simpa [hys] using hhead
    rw [hys] at hcs
    generalize cs.takeWhile (fun c => !p c) = xs at hcs hxs
    subst hcs
    have hback : cut? (byteLength xs + 1) (xs ++ a :: ys) = some (xs ++ [a], ys) := by
      have hcut := cut?_byteLength (xs ++ [a]) ys
      rwa [byteLength_append, byteLength_cons, hp a ha, ← List.append_cons] at hcut
    rw [offsetOf?_append hxs ha, splitAt?_append hxs ha]
    simp only [cut?_byteLength, hback]
    rfl

/-- A byte of the first half of the table that starts a character is that character. -/
theorem toNat_of_head?_utf8EncodeChar {b : UInt8} (hb : b < 128)
    (h : (String.utf8EncodeChar c).head? = some b) : c.toNat = b.toNat := by
  have hlow : b.toNat < 128 := UInt8.lt_iff_toNat_lt.mp hb
  unfold String.utf8EncodeChar at h
  dsimp only at h
  split at h
  · simp only [List.head?_cons, Option.some.injEq] at h
    subst h
    simp only [Char.toNat, UInt8.toNat_ofNat']
    omega
  · exfalso
    split at h
    · simp only [List.head?_cons, Option.some.injEq] at h
      subst h
      simp only [UInt8.toNat_ofNat'] at hlow
      omega
    · split at h
      · simp only [List.head?_cons, Option.some.injEq] at h
        subst h
        simp only [UInt8.toNat_ofNat'] at hlow
        omega
      · simp only [List.head?_cons, Option.some.injEq] at h
        subst h
        simp only [UInt8.toNat_ofNat'] at hlow
        omega

/-! ## Reading at byte offsets -/

/-- Split off a sign, which is known by the first byte. -/
def splitSignByByte? (cs : List Char) : Option (Bool × List Char) :=
  match (Bytes.ofChars cs).head? with
  | some 45 => (cut? 1 cs).map fun r => (true, r.2)
  | some 43 => (cut? 1 cs).map fun r => (false, r.2)
  | _ => some (false, cs)

theorem splitSignByByte?_eq (cs : List Char) : splitSignByByte? cs = some (splitSign cs) := by
  rcases cs with _ | ⟨c, cs⟩
  · rfl
  unfold splitSignByByte?
  by_cases hminus : c = '-'
  · subst hminus
    change (cut? (byteLength ['-']) (['-'] ++ cs)).map _ = _
    rw [cut?_byteLength]
    rfl
  by_cases hplus : c = '+'
  · subst hplus
    change (cut? (byteLength ['+']) (['+'] ++ cs)).map _ = _
    rw [cut?_byteLength]
    rfl
  have hhead : (Bytes.ofChars (c :: cs)).head? = (String.utf8EncodeChar c).head? := by
    rw [Bytes.ofChars_cons, List.head?_append, Option.or_of_isSome]
    rw [List.isSome_head?]
    exact String.utf8EncodeChar_ne_nil
  have hsplit : splitSign (c :: cs) = (false, c :: cs) := by
    simp [splitSign, hminus, hplus]
  rw [hhead, hsplit]
  split
  · next h => exact absurd (Char.toNat_inj.mp (toNat_of_head?_utf8EncodeChar (by decide) h)) hminus
  · next h => exact absurd (Char.toNat_inj.mp (toNat_of_head?_utf8EncodeChar (by decide) h)) hplus
  · rfl

/-- Read a decimal, with its parts cut out at byte offsets, and the zeros at the end counted by the
bytes that are left without them. There is no result if a cut falls inside a character, or if more
is left than there was. -/
def parseByBytes? (cs : List Char) : Option (Option DecimalText) := do
  let (negative, unsigned) ← splitSignByByte? cs
  let split ← splitAtOffset? (fun c => c = 'e' || c = 'E') unsigned
  let parts := match split with
    | some (mantissa, power) => (readInteger? power).map fun e => (mantissa, e)
    | none => some (unsigned, 0)
  match parts with
  | none => some none
  | some (mantissa, exponent) =>
    let (whole, fraction) := (splitAt? (· = '.') mantissa).getD (mantissa, [])
    let significant := (whole ++ fraction).dropWhile (· = '0')
    if whole ++ fraction ≠ [] ∧ whole.all isDigit ∧ fraction.all isDigit then
      if byteLength (trimZerosRight significant) ≤ byteLength significant then
        some (ofParts? negative whole fraction exponent)
      else none
    else some none

/-- Every text is read at its byte offsets as it is read by its characters. -/
theorem parseByBytes?_eq (cs : List Char) : parseByBytes? cs = some (parse? cs) := by
  have hletter : ∀ c : Char, (decide (c = 'e') || decide (c = 'E')) = true → c.utf8Size = 1 := by
    intro c hc
    rcases Bool.or_eq_true_iff.mp hc with hc | hc
    · rw [of_decide_eq_true hc]
      rfl
    · rw [of_decide_eq_true hc]
      rfl
  unfold parseByBytes? parse?
  simp only [splitSignByByte?_eq, splitAtOffset?_eq hletter, Option.bind_eq_bind, Option.bind_some,
    byteLength_trimZerosRight_le, if_true]
  rcases splitAt? (fun c => decide (c = 'e') || decide (c = 'E')) (splitSign cs).2 with
    _ | ⟨mantissa, power⟩
  · dsimp only
    split <;> rfl
  · dsimp only
    cases readInteger? power with
    | none => rfl
    | some exponent =>
      dsimp only [Option.map_some, Option.bind_some]
      split <;> rfl

/-- A text is read as a decimal exactly if it is a numeral whose power of ten fits 64 bits, as it is
written, without the point, and without the zeros at the end. Whatever text it is, no part of it is
cut out inside a character. -/
theorem parse?_accepts_numerals (cs : List Char) :
    ((parse? cs).isSome = true ↔ ∃ m : Numeral, m.text = cs ∧ m.Fits) ∧
      parseByBytes? cs = some (parse? cs) := by
  refine ⟨?_, parseByBytes?_eq cs⟩
  constructor
  · intro h
    obtain ⟨d, hd⟩ := Option.isSome_iff_exists.mp h
    obtain ⟨m, rfl⟩ := exists_numeral_of_parse? hd
    exact ⟨m, rfl, m.isSome_parse?_iff.mp h⟩
  · rintro ⟨m, rfl, hm⟩
    exact m.isSome_parse?_iff.mpr hm

end ProviderKit.DecimalText
