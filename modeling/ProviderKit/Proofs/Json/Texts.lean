import ProviderKit.Json.Printer
import ProviderKit.Json.Token

-- A quoted text is read back as it was written, whatever characters it has: what is escaped
-- comes back as the character it stands for, and all other characters pass byte by byte.

namespace ProviderKit

/-! ## Characters as bytes -/

namespace Bytes

/-- The UTF-8 bytes of characters. -/
def ofChars (cs : List Char) : Bytes := cs.flatMap String.utf8EncodeChar

theorem ofText_ofList (cs : List Char) : ofText (String.ofList cs) = ofChars cs := by
  rw [ofText, String.toByteArray_ofList, List.utf8Encode, List.toList_data_toByteArray, ofChars]

theorem ofText_eq_ofChars (text : String) : ofText text = ofChars text.toList := by
  rw [← ofText_ofList, String.ofList_toList]

@[simp] theorem ofChars_nil : ofChars [] = [] := rfl

@[simp] theorem ofChars_cons (c : Char) (cs : List Char) :
    ofChars (c :: cs) = String.utf8EncodeChar c ++ ofChars cs := rfl

@[simp] theorem ofChars_append (cs ds : List Char) :
    ofChars (cs ++ ds) = ofChars cs ++ ofChars ds := List.flatMap_append

end Bytes

namespace Json

open Bytes (ofChars)

/-! ## Bytes that stand for themselves -/

/-- Inside a quoted text the byte stands for itself: it neither ends the text nor escapes
anything, and it is no control character. -/
def IsPlain (b : UInt8) : Prop := b ≠ 34 ∧ b ≠ 92 ∧ ¬ b < 32

theorem isPlain_ofNat {n : Nat} (hlow : 32 ≤ n) (hhigh : n < 256) (hquote : n ≠ 34)
    (hslash : n ≠ 92) : IsPlain (UInt8.ofNat n) := by
  have hn : (UInt8.ofNat n).toNat = n := by
    rw [UInt8.toNat_ofNat', Nat.mod_eq_of_lt hhigh]
  refine ⟨fun h => ?_, fun h => ?_, fun h => ?_⟩
  · have h34 := congrArg UInt8.toNat h
    rw [hn] at h34
    exact hquote h34
  · have h92 := congrArg UInt8.toNat h
    rw [hn] at h92
    exact hslash h92
  · have h32 : (UInt8.ofNat n).toNat < 32 := UInt8.lt_iff_toNat_lt.mp h
    omega

/-- Beyond the first half of the table, bytes belong to longer characters. -/
theorem isPlain_of_utf8EncodeChar {c : Char} (hquote : c ≠ '"') (hslash : c ≠ '\\')
    (hcontrol : ¬ c.toNat < 32) : ∀ b ∈ String.utf8EncodeChar c, IsPlain b := by
  have hne34 : c.val.toNat ≠ 34 := fun h => hquote (Char.toNat_inj.mp h)
  have hne92 : c.val.toNat ≠ 92 := fun h => hslash (Char.toNat_inj.mp h)
  have hlow : 32 ≤ c.val.toNat := Nat.not_lt.mp hcontrol
  intro b hb
  unfold String.utf8EncodeChar at hb
  dsimp only at hb
  split at hb
  · rw [List.mem_singleton.mp hb]
    exact isPlain_ofNat hlow (by omega) hne34 hne92
  · split at hb
    · simp only [List.mem_cons, List.not_mem_nil, or_false] at hb
      rcases hb with rfl | rfl <;> exact isPlain_ofNat (by omega) (by omega) (by omega) (by omega)
    · split at hb
      · simp only [List.mem_cons, List.not_mem_nil, or_false] at hb
        rcases hb with rfl | rfl | rfl <;>
          exact isPlain_ofNat (by omega) (by omega) (by omega) (by omega)
      · simp only [List.mem_cons, List.not_mem_nil, or_false] at hb
        rcases hb with rfl | rfl | rfl | rfl <;>
          exact isPlain_ofNat (by omega) (by omega) (by omega) (by omega)

theorem readQuotedBytes_plain {care : Care} {bs : Bytes} (h : ∀ b ∈ bs, IsPlain b) (steps : Nat)
    (rest : Bytes) :
    readQuotedBytes care (bs.length + steps) (bs ++ rest) =
      (readQuotedBytes care steps rest).map fun r => (bs ++ r.1, r.2) := by
  induction bs with
  | nil =>
    rw [List.length_nil, Nat.zero_add, List.nil_append]
    cases readQuotedBytes care steps rest <;> rfl
  | cons b bs ih =>
    obtain ⟨hquote, hslash, hcontrol⟩ := h b List.mem_cons_self
    have hrest := ih fun c hc => h c (List.mem_cons_of_mem _ hc)
    rw [List.length_cons, Nat.add_right_comm, List.cons_append, readQuotedBytes, if_neg hquote,
      if_neg hslash, if_neg hcontrol, hrest]
    cases readQuotedBytes care steps rest <;> rfl

/-! ## Escapes -/

theorem hexValue?_hexDigit : ∀ n < 16,
    (String.utf8EncodeChar (hexDigit n)).map hexValue? = [some n] := by
  decide

theorem exists_hexByte {n : Nat} (h : n < 16) :
    ∃ b, String.utf8EncodeChar (hexDigit n) = [b] ∧ hexValue? b = some n :=
  List.map_eq_singleton_iff.mp (hexValue?_hexDigit n h)

/-- An escape of four digits is read as the control character it was written for. -/
theorem readEscape_control {c : Char} (h : c.toNat < 32) (rest : Bytes) :
    readEscape .strict
        (ofChars ['u', '0', '0', hexDigit (c.toNat / 16), hexDigit (c.toNat % 16)] ++ rest) =
      .ok (String.utf8EncodeChar c, rest) := by
  obtain ⟨high, hhigh, hhighValue⟩ := exists_hexByte (n := c.toNat / 16) (by omega)
  obtain ⟨low, hlow, hlowValue⟩ := exists_hexByte (n := c.toNat % 16) (by omega)
  have hbytes : ofChars ['u', '0', '0', hexDigit (c.toNat / 16), hexDigit (c.toNat % 16)] =
      [117, 48, 48, high, low] := by
    simp only [Bytes.ofChars_cons, hhigh, hlow]
    rfl
  have hzero : hexValue? 48 = some 0 := rfl
  have hhex : readHex (48 :: 48 :: high :: low :: rest) = .ok (c.toNat, rest) := by
    simp only [readHex, hzero, hhighValue, hlowValue]
    congr 2
    omega
  have hpoint : readPoint .strict (48 :: 48 :: high :: low :: rest) =
      .ok (encodePoint c.toNat, rest) := by
    rw [readPoint, hhex]
    change (if 0xDC00 ≤ c.toNat ∧ c.toNat ≤ 0xDFFF then _ else _) = _
    rw [if_neg (by omega), if_neg (by omega)]
    rfl
  rw [hbytes]
  change readPoint .strict (48 :: 48 :: high :: low :: rest) = _
  rw [hpoint, encodePoint, Char.ofNat_toNat]

/-- A character is escaped, and the escape is read as the character, or it stands for itself. -/
theorem escape_cases (c : Char) :
    (∃ e, escape c = '\\' :: e ∧
      ∀ rest, readEscape .strict (ofChars e ++ rest) = .ok (String.utf8EncodeChar c, rest)) ∨
    (escape c = [c] ∧ ∀ b ∈ String.utf8EncodeChar c, IsPlain b) := by
  by_cases hquote : c = '"'
  · subst hquote
    exact .inl ⟨['"'], rfl, fun _ => rfl⟩
  by_cases hslash : c = '\\'
  · subst hslash
    exact .inl ⟨['\\'], rfl, fun _ => rfl⟩
  -- Five of the control characters are escaped by a letter.
  by_cases hback : c = '\x08'
  · subst hback
    exact .inl ⟨['b'], rfl, fun _ => rfl⟩
  by_cases htab : c = '\t'
  · subst htab
    exact .inl ⟨['t'], rfl, fun _ => rfl⟩
  by_cases hline : c = '\n'
  · subst hline
    exact .inl ⟨['n'], rfl, fun _ => rfl⟩
  by_cases hfeed : c = '\x0c'
  · subst hfeed
    exact .inl ⟨['f'], rfl, fun _ => rfl⟩
  by_cases hreturn : c = '\r'
  · subst hreturn
    exact .inl ⟨['r'], rfl, fun _ => rfl⟩
  rw [escape, if_neg hquote, if_neg hslash, if_neg hback, if_neg htab, if_neg hline, if_neg hfeed,
    if_neg hreturn]
  by_cases hcontrol : c.toNat < 32
  · rw [if_pos hcontrol]
    exact .inl ⟨_, rfl, readEscape_control hcontrol⟩
  · rw [if_neg hcontrol]
    exact .inr ⟨rfl, isPlain_of_utf8EncodeChar hquote hslash hcontrol⟩

/-! ## Texts -/

/-- The bytes between the quotes are read back up to the closing quote, given enough steps. -/
theorem readQuotedBytes_escaped (cs : List Char) (rest : Bytes) {steps : Nat}
    (h : (ofChars (cs.flatMap escape)).length < steps) :
    readQuotedBytes .strict steps (ofChars (cs.flatMap escape) ++ 34 :: rest) =
      .ok (ofChars cs, rest) := by
  induction cs generalizing steps with
  | nil =>
    cases steps with
    | zero => exact absurd h (Nat.not_lt_zero _)
    | succ steps => rfl
  | cons c cs ih =>
    rw [List.flatMap_cons, Bytes.ofChars_append, List.length_append] at h
    rw [List.flatMap_cons, Bytes.ofChars_append, List.append_assoc]
    rcases escape_cases c with ⟨e, he, hread⟩ | ⟨he, hplain⟩
    · -- The backslash is the one step that an escape takes.
      rw [he] at h ⊢
      cases steps with
      | zero => omega
      | succ steps =>
        have hlength : (ofChars ('\\' :: e)).length = (ofChars e).length + 1 := rfl
        change (readEscape .strict (ofChars e ++ _) >>= _) = _
        rw [hread]
        change (readQuotedBytes .strict steps _ >>= _) = _
        rw [ih (by omega)]
        rfl
    · have hchar : ofChars [c] = String.utf8EncodeChar c := List.append_nil _
      rw [he, hchar] at h ⊢
      obtain ⟨left, rfl⟩ : ∃ left, steps = (String.utf8EncodeChar c).length + left :=
        ⟨steps - (String.utf8EncodeChar c).length, by omega⟩
      rw [readQuotedBytes_plain hplain, ih (by omega)]
      rfl

/-- A text in quotes, after its opening quote, is read back. -/
theorem readText_quote (text : String) (rest : Bytes) :
    readText .strict (ofChars (text.toList.flatMap escape) ++ 34 :: rest) = .ok (text, rest) := by
  have hlength : (ofChars (text.toList.flatMap escape)).length <
      (ofChars (text.toList.flatMap escape) ++ 34 :: rest).length + 1 := by
    rw [List.length_append, List.length_cons]
    omega
  rw [readText, readQuotedBytes_escaped text.toList rest hlength, ← Bytes.ofText_eq_ofChars]
  simp only [bind, Except.bind, Bytes.toText?_ofText]
  rfl

end Json

end ProviderKit
