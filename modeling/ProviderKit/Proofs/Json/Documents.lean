import ProviderKit.Proofs.Json.Unambiguous

-- Documents are read back from their compact texts, as long as their numbers are integers: the text
-- of a double is read too, but not always as the nearest double.

namespace ProviderKit

/-! ## Digits as bytes -/

namespace Bytes

variable {c : Char} {cs : List Char}

/-- The one byte of a character of the first half of the table. -/
def ascii (c : Char) : UInt8 := UInt8.ofNat c.toNat

theorem toNat_ascii (hc : c.toNat < 128) : (ascii c).toNat = c.toNat := by
  rw [ascii, UInt8.toNat_ofNat', Nat.mod_eq_of_lt (by omega)]

theorem utf8EncodeChar_ascii (hc : c.toNat < 128) : String.utf8EncodeChar c = [ascii c] := by
  have hle : c.val.toNat ≤ 127 := Nat.le_of_lt_succ hc
  unfold String.utf8EncodeChar
  dsimp only
  rw [if_pos hle]
  rfl

theorem ofChars_ascii (hcs : ∀ c ∈ cs, c.toNat < 128) : ofChars cs = cs.map ascii := by
  induction cs with
  | nil => rfl
  | cons c cs ih =>
    rw [ofChars_cons, utf8EncodeChar_ascii (hcs c List.mem_cons_self),
      ih fun d hd => hcs d (List.mem_cons_of_mem _ hd)]
    rfl

end Bytes

namespace Json

open Bytes (ofChars ascii)

section

variable {c : Char} {cs : List Char} {rest : Bytes}

theorem toNat_lt_of_isDigit (hc : DecimalText.isDigit c = true) : c.toNat < 128 := by
  have hbounds := DecimalText.toNat_of_isDigit hc
  omega

theorem ofChars_digits (hcs : ∀ c ∈ cs, DecimalText.isDigit c = true) :
    ofChars cs = cs.map ascii :=
  Bytes.ofChars_ascii fun c hc => toNat_lt_of_isDigit (hcs c hc)

theorem isDigit_ascii (hc : DecimalText.isDigit c = true) : isDigit (ascii c) = true := by
  have hbounds := DecimalText.toNat_of_isDigit hc
  have hbyte := Bytes.toNat_ascii (toNat_lt_of_isDigit hc)
  unfold isDigit
  rw [Bool.and_eq_true, decide_eq_true_eq, decide_eq_true_eq, UInt8.le_iff_toNat_le,
    UInt8.le_iff_toNat_le, hbyte]
  exact hbounds

theorem digitValue_ascii (hc : DecimalText.isDigit c = true) :
    digitValue (ascii c) = DecimalText.digitOf c := by
  rw [digitValue, Bytes.toNat_ascii (toNat_lt_of_isDigit hc), DecimalText.digitOf]

theorem ascii_eq_zero_iff (hc : DecimalText.isDigit c = true) : ascii c = 48 ↔ c = '0' := by
  rw [← UInt8.toNat_inj, Bytes.toNat_ascii (toNat_lt_of_isDigit hc)]
  change c.toNat = '0'.toNat ↔ c = '0'
  exact Char.toNat_inj

theorem splitDigits_digits (hcs : ∀ c ∈ cs, DecimalText.isDigit c = true)
    (hrest : EndsNumber rest) :
    splitDigits (cs.map ascii ++ rest) = (cs.map DecimalText.digitOf, rest) := by
  have hdigits : ∀ b ∈ cs.map ascii, isDigit b = true := by
    intro b hb
    obtain ⟨c, hc, rfl⟩ := List.mem_map.mp hb
    exact isDigit_ascii (hcs c hc)
  have hvalues : (cs.map ascii).map digitValue = cs.map DecimalText.digitOf := by
    rw [List.map_map]
    exact List.map_congr_left fun c hc => digitValue_ascii (hcs c hc)
  unfold splitDigits
  rw [List.takeWhile_append_of_pos hdigits, List.dropWhile_append_of_pos hdigits]
  cases rest with
  | nil => simp [hvalues]
  | cons b rest =>
    have hb := (hrest b rfl).1
    simp [hb, hvalues]

/-! ## Integers -/

/-- Digits that do not start with a zero, or a zero alone, are the whole part of a number. -/
theorem readWhole_digits (hcs : ∀ d ∈ c :: cs, DecimalText.isDigit d = true)
    (hzero : c = '0' → cs = []) (hrest : EndsNumber rest) :
    readWhole (ofChars (c :: cs) ++ rest) = .ok ((c :: cs).map DecimalText.digitOf, rest) := by
  have hc := hcs c List.mem_cons_self
  rw [ofChars_digits hcs, List.map_cons, List.cons_append]
  unfold readWhole
  dsimp only
  by_cases hc0 : c = '0'
  · obtain rfl := hzero hc0
    subst hc0
    rw [if_pos ((ascii_eq_zero_iff hc).mpr rfl)]
    cases rest with
    | nil => rfl
    | cons b rest =>
      have hb := (hrest b rfl).1
      simp only [List.map_nil, List.nil_append, hb]
      rfl
  · rw [if_neg (mt (ascii_eq_zero_iff hc).mp hc0), if_pos (isDigit_ascii hc),
      splitDigits_digits (fun d hd => hcs d (List.mem_cons_of_mem _ hd)) hrest]
    rw [List.map_cons, ← digitValue_ascii hc]

theorem readFraction_of_endsNumber (hrest : EndsNumber rest) :
    readFraction rest = .ok (none, rest) := by
  unfold readFraction
  split
  · exact absurd rfl (hrest 46 rfl).2.1
  · rfl

theorem readExponent_of_endsNumber (hrest : EndsNumber rest) :
    readExponent rest = .ok (none, rest) := by
  cases rest with
  | nil => rfl
  | cons b rest =>
    obtain ⟨-, -, hlower, hupper⟩ := hrest b rfl
    unfold readExponent
    simp [hlower, hupper]

theorem le_foldl_digits (n : Nat) (ds : List Nat) :
    n ≤ ds.foldl (fun n d => n * 10 + d) n := by
  induction ds generalizing n with
  | nil => exact Nat.le_refl n
  | cons d ds ih =>
    have hle := ih (n * 10 + d)
    rw [List.foldl_cons]
    omega

/-- All digits are taken in if the number that they make fits. -/
theorem absorb_eq {n : Nat} {ds : List Nat}
    (h : ds.foldl (fun n d => n * 10 + d) n < 18446744073709551616) :
    Number.absorb n ds = (ds.foldl (fun n d => n * 10 + d) n, ds.length) := by
  induction ds generalizing n with
  | nil => rfl
  | cons d ds ih =>
    have hle := le_foldl_digits (n * 10 + d) ds
    rw [List.foldl_cons] at h
    unfold Number.absorb
    dsimp only
    rw [if_pos (by omega), ih h]
    rfl

/-- Nothing is left to scale by when all digits are taken in. -/
theorem scaled_of_absorb {whole : List Nat} {m : Nat}
    (h : Number.absorb 0 whole = (m, whole.length)) :
    Number.Scaled.ofDigits whole [] = ⟨m, 0⟩ := by
  unfold Number.Scaled.ofDigits
  rw [h]
  dsimp only [Number.absorb]
  congr 1
  omega

/-- The digits of an integer are read as the integer. -/
theorem ofWhole?_digits {n : Int} (h : InAny64 n) :
    Number.ofWhole? (decide (n < 0)) ((Decimal.digitsOf n.natAbs).map DecimalText.digitOf) =
      some (.integer n h) := by
  have hvalue : ((Decimal.digitsOf n.natAbs).map DecimalText.digitOf).foldl
      (fun n d => n * 10 + d) 0 = n.natAbs := by
    rw [List.foldl_map]
    exact (DecimalText.natOf_eq_countOf _).trans (Decimal.countOf_digitsOf _)
  have hfits : n.natAbs < 18446744073709551616 := by
    obtain ⟨hlow, hhigh⟩ := h
    omega
  rw [← hvalue] at hfits
  have habsorb := absorb_eq hfits
  rw [hvalue] at habsorb
  have hsigned : (if decide (n < 0) = true then -(n.natAbs : Int) else n.natAbs) = n := by
    simp only [decide_eq_true_eq]
    split <;> omega
  have hnumber : Number.ofInt? n = some (.integer n h) := dif_pos h
  have hzero : ¬ (decide (n < 0) = true ∧ n.natAbs = 0) := by
    rw [decide_eq_true_eq]
    omega
  unfold Number.ofWhole?
  rw [scaled_of_absorb habsorb]
  dsimp only
  rw [if_pos ⟨rfl, hzero⟩, hsigned, hnumber]

theorem digitsOf_head {n : Nat} (h : (Decimal.digitsOf n).head? = some '0') : n = 0 := by
  unfold Decimal.digitsOf at h
  induction n using Nat.strongRecOn with
  | ind n ih =>
    rw [Nat.toDigits_eq_if (by decide)] at h
    by_cases hn : n < 10
    · rw [if_pos hn] at h
      have hdigit : ∀ k < 10, Nat.digitChar k = '0' → k = 0 := by decide
      exact hdigit n hn (Option.some.inj h)
    · rw [if_neg hn, List.head?_append,
        Option.or_of_isSome (List.isSome_head?.mpr Nat.toDigits_ne_nil)] at h
      have hzero := ih (n / 10) (by omega) h
      omega

theorem digitsOf_eq_cons {n : Nat} (h : Decimal.digitsOf n = c :: cs) : c = '0' → cs = [] := by
  rintro rfl
  obtain rfl := digitsOf_head (n := n) (by rw [h]; rfl)
  exact (List.cons.inj h).2.symm

theorem readNumber_digits {n : Int} (h : InAny64 n) (hrest : EndsNumber rest) :
    readNumber .strict (decide (n < 0)) (ofChars (Decimal.digitsOf n.natAbs) ++ rest) =
      .ok (.integer n h, rest) := by
  obtain ⟨c, cs, hcons⟩ := List.exists_cons_of_ne_nil (Decimal.digitsOf_ne_nil n.natAbs)
  have hdigits : ∀ d ∈ c :: cs, DecimalText.isDigit d = true := by
    intro d hd
    rw [← hcons] at hd
    exact Decimal.isDigit_of_mem_digitsOf hd
  have hwhole := readWhole_digits hdigits (digitsOf_eq_cons hcons) hrest
  rw [← hcons] at hwhole
  unfold readNumber readNumeral
  simp only [hwhole, readFraction_of_endsNumber hrest, readExponent_of_endsNumber hrest, bind,
    Except.bind, pure, Except.pure, Numeral.number, ofWhole?_digits h]

/-- A value that starts with a digit is a number. -/
theorem readValue_digit {steps depth : Nat} {b : UInt8} {bytes : Bytes} (hb : isDigit b = true) :
    readValue .strict (steps + 1) depth (b :: bytes) =
      (readNumber .strict false (b :: bytes)).map fun r => (.number r.1, r.2) := by
  have hne {d : UInt8} (hd : isDigit d = false) : b ≠ d := by
    rintro rfl
    exact Bool.noConfusion (hb.symm.trans hd)
  have hblank : isBlank b = false := by
    have h32 : b ≠ 32 := hne rfl
    have h9 : b ≠ 9 := hne rfl
    have h10 : b ≠ 10 := hne rfl
    have h13 : b ≠ 13 := hne rfl
    simp [isBlank, h32, h9, h10, h13]
  rw [readValue, skipBlanks_cons hblank]
  dsimp only
  rw [if_neg (hne rfl), if_neg (hne rfl), if_neg (hne rfl), if_neg (hne rfl), if_pos hb]
  cases readNumber .strict false (b :: bytes) <;> rfl

theorem readBack_integer (depth : Nat) {n : Int} (h : InAny64 n) :
    ReadBack depth (.number (.integer n h)) := by
  intro steps rest hsteps hrest
  have hread := readNumber_digits h hrest
  obtain ⟨c, cs, hcons⟩ := List.exists_cons_of_ne_nil (Decimal.digitsOf_ne_nil n.natAbs)
  have hc : DecimalText.isDigit c = true :=
    Decimal.isDigit_of_mem_digitsOf (n := n.natAbs) (by rw [hcons]; exact List.mem_cons_self)
  have hbytes : ofChars (Decimal.digitsOf n.natAbs) = ascii c :: ofChars cs := by
    rw [hcons, Bytes.ofChars_cons, Bytes.utf8EncodeChar_ascii (toNat_lt_of_isDigit hc)]
    rfl
  rw [print, Number.render] at hsteps ⊢
  by_cases hneg : n < 0
  · rw [if_pos hneg] at hsteps ⊢
    rw [decide_eq_true hneg] at hread
    cases steps with
    | zero => cases hsteps
    | succ steps =>
      have hminus : ofChars ('-' :: Decimal.digitsOf n.natAbs) ++ rest =
          45 :: (ofChars (Decimal.digitsOf n.natAbs) ++ rest) := rfl
      rw [hminus, readValue, skipBlanks_cons rfl]
      change (readNumber .strict true _ >>= _) = _
      rw [hread]
      rfl
  · rw [if_neg hneg] at hsteps ⊢
    rw [decide_eq_false hneg] at hread
    rw [hbytes] at hsteps hread ⊢
    cases steps with
    | zero => cases hsteps
    | succ steps =>
      rw [List.cons_append] at hread ⊢
      rw [readValue_digit (isDigit_ascii hc), hread]
      rfl

end

/-! ## Words -/

section

variable (depth : Nat)

theorem readBack_null : ReadBack depth .null := by
  intro steps rest h _
  cases steps with
  | zero => exact absurd h (by decide)
  | succ steps =>
    rw [readValue]
    rfl

theorem readBack_bool (b : Bool) : ReadBack depth (.bool b) := by
  intro steps rest h _
  cases steps with
  | zero => cases b <;> exact absurd h (by decide)
  | succ steps =>
    rw [readValue]
    cases b <;> rfl

end

/-! ## Arrays -/

theorem toNat_lt_of_isNumeric {c : Char} (hc : Number.isNumeric c = true) : c.toNat < 128 := by
  simp only [Number.isNumeric, Bool.or_eq_true, decide_eq_true_eq] at hc
  rcases hc with ((((hdigit | rfl) | rfl) | rfl) | rfl) | rfl
  · exact toNat_lt_of_isDigit hdigit
  all_goals decide

theorem toNat_lt_of_kindOf? {c : Char} {k : Kind} (hc : kindOf? c = some k) : c.toNat < 128 := by
  unfold kindOf? at hc
  split_ifs at hc with hn htf hquote hbracket hbrace hnumeric
  · rw [hn]
    decide
  · rcases htf with rfl | rfl <;> decide
  · rw [hquote]
    decide
  · rw [hbracket]
    decide
  · rw [hbrace]
    decide
  · exact toNat_lt_of_isNumeric hnumeric

/-- The text of a document starts with a byte that is no blank and closes no array. -/
theorem exists_ofChars_print (j : Json) :
    ∃ b bytes, ofChars j.print = b :: bytes ∧ isBlank b = false ∧ b ≠ 93 := by
  obtain ⟨c, cs, hprint, hkind⟩ := exists_print_eq_cons j
  have hne {d : Char} (hd : kindOf? d = none) : c ≠ d := by
    rintro rfl
    rw [hkind] at hd
    cases hd
  have hascii := toNat_lt_of_kindOf? hkind
  have hbyte {d : Char} (hd : kindOf? d = none) (hlt : d.toNat < 128) : ascii c ≠ ascii d := by
    intro h
    have hnat := congrArg UInt8.toNat h
    rw [Bytes.toNat_ascii hascii, Bytes.toNat_ascii hlt] at hnat
    exact hne hd (Char.toNat_inj.mp hnat)
  have hspace : ascii c ≠ 32 := hbyte (d := ' ') (by decide) (by decide)
  have htab : ascii c ≠ 9 := hbyte (d := '\t') (by decide) (by decide)
  have hline : ascii c ≠ 10 := hbyte (d := '\n') (by decide) (by decide)
  have hreturn : ascii c ≠ 13 := hbyte (d := '\r') (by decide) (by decide)
  refine ⟨ascii c, ofChars cs, ?_, ?_, hbyte (d := ']') (by decide) (by decide)⟩
  · rw [hprint, Bytes.ofChars_cons, Bytes.utf8EncodeChar_ascii hascii]
    rfl
  · simp [isBlank, hspace, htab, hline, hreturn]

/-- A comma or the closing bracket follows each item. -/
theorem endsNumber_printItems (items : List Json) (rest : Bytes) :
    EndsNumber (ofChars (printItems items) ++ rest) := by
  intro b hb
  cases items with
  | nil =>
    obtain rfl : 93 = b := Option.some.inj hb
    decide
  | cons x items =>
    obtain rfl : 44 = b := Option.some.inj hb
    decide

section

variable {steps depth : Nat} {x : Json} {xs : List Json} {b : UInt8} {bytes more rest : Bytes}

theorem readItems_of_item (hblank : isBlank b = false) (hb : b ≠ 93)
    (hx : readValue .strict steps depth (b :: bytes) = .ok (x, more))
    (hxs : readItems .strict steps depth more = .ok (xs, rest)) :
    readItems .strict (steps + 1) depth (44 :: b :: bytes) = .ok (x :: xs, rest) := by
  have hcomma : skipBlanks (44 :: b :: bytes) = 44 :: b :: bytes := skipBlanks_cons rfl _
  rw [readItems, hcomma]
  simp only [skipBlanks_cons hblank, hb, bind, Except.bind, hx, hxs]
  rfl

theorem readFirstItem_of_item (hblank : isBlank b = false) (hb : b ≠ 93)
    (hx : readValue .strict steps depth (b :: bytes) = .ok (x, more))
    (hxs : readItems .strict steps depth more = .ok (xs, rest)) :
    readFirstItem .strict (steps + 1) depth (b :: bytes) = .ok (x :: xs, rest) := by
  rw [readFirstItem, skipBlanks_cons hblank]
  simp only [hb, if_false, bind, Except.bind, hx, hxs]
  rfl

end

/-- The items after the first are read back, together with the closing bracket. -/
theorem readItems_print {depth : Nat} {items : List Json} (hitems : ∀ x ∈ items, ReadBack depth x)
    (rest : Bytes) {steps : Nat} (h : (ofChars (printItems items)).length ≤ steps) :
    readItems .strict steps depth (ofChars (printItems items) ++ rest) = .ok (items, rest) := by
  induction items generalizing steps with
  | nil =>
    rw [printItems] at h ⊢
    cases steps with
    | zero => exact absurd h (Nat.not_succ_le_zero _)
    | succ steps =>
      rw [readItems]
      rfl
  | cons x items ih =>
    have hbytes : ofChars (printItems (x :: items)) ++ rest =
        44 :: (ofChars x.print ++ (ofChars (printItems items) ++ rest)) := by
      rw [printItems, List.cons_append, Bytes.ofChars_cons, Bytes.ofChars_append, List.append_assoc,
        List.append_assoc]
      rfl
    have hlength : (ofChars x.print).length + (ofChars (printItems items)).length + 1 ≤ steps := by
      have hall := congrArg List.length hbytes
      simp only [List.length_append, List.length_cons] at hall
      omega
    have hx : ReadBack depth x := hitems x List.mem_cons_self
    obtain ⟨left, rfl⟩ : ∃ left, steps = left + 1 := ⟨steps - 1, by omega⟩
    have hread := hx left (ofChars (printItems items) ++ rest) (by omega)
      (endsNumber_printItems items rest)
    obtain ⟨b, bytes, hfirst, hblank, hb⟩ := exists_ofChars_print x
    rw [hbytes]
    rw [hfirst, List.cons_append] at hread ⊢
    refine readItems_of_item hblank hb hread ?_
    exact ih (fun y hy => hitems y (List.mem_cons_of_mem _ hy)) (by omega)

theorem readFirstItem_print {depth : Nat} {items : List Json}
    (hitems : ∀ x ∈ items, ReadBack depth x) (rest : Bytes) {steps : Nat}
    (h : (ofChars (Json.array items).print).length ≤ steps + 1) :
    ∃ bytes, ofChars (Json.array items).print ++ rest = 91 :: bytes ∧
      readFirstItem .strict steps depth bytes = .ok (items, rest) := by
  cases items with
  | nil =>
    rw [print] at h ⊢
    refine ⟨93 :: rest, rfl, ?_⟩
    cases steps with
    | zero => exact absurd h (by decide)
    | succ steps =>
      rw [readFirstItem]
      rfl
  | cons x items =>
    have hbytes : ofChars (Json.array (x :: items)).print ++ rest =
        91 :: (ofChars x.print ++ (ofChars (printItems items) ++ rest)) := by
      rw [print, List.cons_append, Bytes.ofChars_cons, Bytes.ofChars_append, List.append_assoc,
        List.append_assoc]
      rfl
    have hlength : (ofChars x.print).length + (ofChars (printItems items)).length ≤ steps := by
      have hall := congrArg List.length hbytes
      simp only [List.length_append, List.length_cons] at hall
      omega
    have hx : ReadBack depth x := hitems x List.mem_cons_self
    obtain ⟨b, bytes, hfirst, hblank, hb⟩ := exists_ofChars_print x
    have hfirstLength := congrArg List.length hfirst
    rw [List.length_cons] at hfirstLength
    have hlast : 1 ≤ (ofChars (printItems items)).length := by
      cases items <;> exact Nat.succ_le_succ (Nat.zero_le _)
    obtain ⟨left, rfl⟩ : ∃ left, steps = left + 1 := ⟨steps - 1, by omega⟩
    have hread := hx left (ofChars (printItems items) ++ rest) (by omega)
      (endsNumber_printItems items rest)
    refine ⟨_, hbytes, ?_⟩
    rw [hfirst, List.cons_append] at hread ⊢
    refine readFirstItem_of_item hblank hb hread ?_
    exact readItems_print (fun y hy => hitems y (List.mem_cons_of_mem _ hy)) rest (by omega)

/-- An array one level up. -/
theorem readBack_array {depth : Nat} {items : List Json} (hdepth : 0 < depth)
    (hitems : ∀ x ∈ items, ReadBack depth x) : ReadBack (depth + 1) (.array items) := by
  intro steps rest h _
  cases steps with
  | zero =>
    obtain ⟨bytes, hbytes, _⟩ := readFirstItem_print hitems [] (Nat.le_succ_of_le h)
    rw [List.append_nil] at hbytes
    rw [hbytes] at h
    exact absurd h (Nat.not_succ_le_zero _)
  | succ steps =>
    obtain ⟨bytes, hbytes, hread⟩ := readFirstItem_print hitems rest h
    rw [hbytes, readValue, skipBlanks_cons rfl]
    change (if depth + 1 ≤ 1 then _ else readFirstItem .strict steps depth bytes >>= _) = _
    rw [if_neg (by omega), hread]
    rfl

/-! ## Whole texts -/

/-- A whole text that is a document is read back. -/
theorem parse_render {j : Json} (h : ReadBack depthLimit j) : parse j.render = .ok j := by
  have hread := h (stepsFor (ofChars j.print)) [] (by rw [stepsFor]; omega) endsNumber_nil
  rw [List.append_nil] at hread
  rw [parse, render, Bytes.ofText_ofList, parseBytes, hread]
  rfl

end Json

end ProviderKit
