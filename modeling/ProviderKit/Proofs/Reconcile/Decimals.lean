import Mathlib.Algebra.Order.Field.Power
import Mathlib.Algebra.Order.Field.Rat
import Mathlib.Data.List.DropRight
import Mathlib.Data.Nat.Digits.Defs
import Mathlib.Tactic.Ring
import ProviderKit.Proofs.Reconcile.Numerals
import ProviderKit.Proofs.Reconcile.Predicates

-- What decimals are worth, and that comparing them as they are read compares what they are worth.
-- Digits without zeros at either end and a power of ten are a canonical form.

namespace ProviderKit

namespace DecimalText

/-! ## Worth -/

/-- What digits and a power of ten are worth, with a sign. -/
def worthOf (negative : Bool) (digits : List Char) (exponent : Int) : ℚ :=
  (if negative then -1 else 1) * countOf digits * 10 ^ exponent

/-- What a decimal is worth. -/
def worth (d : DecimalText) : ℚ := worthOf d.negative d.digits d.exponent

/-- What a numeral is worth: each digit after the point lowers the power of ten by one. -/
def Numeral.worth (m : Numeral) : ℚ :=
  worthOf m.sign.isNegative m.digits (m.exponent - (m.fraction.getD []).length)

/-- The text is a numeral, and worth the number. -/
def Denotes (cs : List Char) (q : ℚ) : Prop := ∃ m : Numeral, m.text = cs ∧ m.worth = q

/-! ## Digits -/

variable {xs ys : List Char} {c : Char}

theorem toNat_of_isDigit (hc : isDigit c = true) : 48 ≤ c.toNat ∧ c.toNat ≤ 57 := by
  obtain ⟨hlow, hhigh⟩ := Bool.and_eq_true_iff.mp hc
  exact ⟨Char.le_def.mp (of_decide_eq_true hlow), Char.le_def.mp (of_decide_eq_true hhigh)⟩

theorem ofNat_digitOf (hc : isDigit c = true) : Char.ofNat (digitOf c + 48) = c := by
  rw [digitOf, Nat.sub_add_cancel (toNat_of_isDigit hc).1, Char.ofNat_toNat]

theorem countOf_cons_zero (xs : List Char) : countOf ('0' :: xs) = countOf xs := by
  rw [countOf, digitsOf, List.reverse_cons, List.map_append]
  exact Nat.ofDigits_append_zero _

theorem countOf_dropWhile_zero (xs : List Char) :
    countOf (xs.dropWhile (· = '0')) = countOf xs := by
  induction xs with
  | nil => rfl
  | cons c xs ih =>
    by_cases hc : c = '0'
    · subst hc
      rw [List.dropWhile_cons_of_pos (by decide), ih, countOf_cons_zero]
    · rw [List.dropWhile_cons_of_neg (by simpa using hc)]

theorem countOf_append_zeros (xs : List Char) (k : Nat) :
    countOf (xs ++ List.replicate k '0') = countOf xs * 10 ^ k := by
  induction k with
  | zero => simp
  | succ k ih =>
    rw [List.replicate_succ', ← List.append_assoc, countOf_append_singleton, ih, pow_succ,
      show digitOf '0' = 0 from rfl]
    ring

theorem digitOf_lt (hc : isDigit c = true) : digitOf c < 10 := by
  have hbounds := toNat_of_isDigit hc
  unfold digitOf
  omega

theorem digitOf_pos (hc : isDigit c = true) (h : c ≠ '0') : 0 < digitOf c := by
  refine Nat.pos_of_ne_zero fun h0 => h ?_
  rw [← ofNat_digitOf hc, h0]

/-- Digits without a zero in front are those of the number that they count for. -/
theorem digits_countOf (hxs : ∀ c ∈ xs, isDigit c = true) (h0 : xs.head? ≠ some '0') :
    Nat.digits 10 (countOf xs) = digitsOf xs := by
  refine Nat.digits_ofDigits 10 (by decide) _ (fun n hn => ?_) fun hne => ?_
  · obtain ⟨c, hc, rfl⟩ := List.mem_map.mp hn
    exact digitOf_lt (hxs c (List.mem_reverse.mp hc))
  · cases xs with
    | nil => exact absurd rfl hne
    | cons c xs =>
      have hpos := digitOf_pos (hxs c List.mem_cons_self) fun hc => h0 (hc ▸ rfl)
      simpa [digitsOf] using hpos.ne'

/-- Digits without a zero in front are told apart by what they count for. -/
theorem eq_of_countOf_eq (hxs : ∀ c ∈ xs, isDigit c = true) (hys : ∀ c ∈ ys, isDigit c = true)
    (hxs0 : xs.head? ≠ some '0') (hys0 : ys.head? ≠ some '0') (h : countOf xs = countOf ys) :
    xs = ys := by
  have hback {zs : List Char} (hzs : ∀ c ∈ zs, isDigit c = true) :
      (digitsOf zs).reverse.map (fun n => Char.ofNat (n + 48)) = zs := by
    rw [digitsOf, ← List.map_reverse, List.reverse_reverse, List.map_map]
    refine (List.map_congr_left fun c hc => ?_).trans (List.map_id zs)
    exact ofNat_digitOf (hzs c hc)
  rw [← hback hxs, ← hback hys, ← digits_countOf hxs hxs0, ← digits_countOf hys hys0, h]

/-- Digits whose last one is not zero do not count for a multiple of ten. -/
theorem not_dvd_countOf (hxs : ∀ c ∈ xs, isDigit c = true) (hne : xs ≠ [])
    (h0 : xs.getLast? ≠ some '0') : ¬ 10 ∣ countOf xs := by
  obtain ⟨ys, c, rfl⟩ := (List.eq_nil_or_concat' xs).resolve_left hne
  have hc := hxs c (List.mem_append_right ys List.mem_cons_self)
  have hpos := digitOf_pos hc fun h => h0 (by rw [h, List.getLast?_concat])
  have hlt := digitOf_lt hc
  rw [countOf_append_singleton]
  omega

/-! ## Canonical form -/

/-- The digits are digits, and no zero stands at either end of them. Zero has no digits, no sign and
exponent zero. -/
structure IsCanonical (d : DecimalText) : Prop where
  isDigits : ∀ c ∈ d.digits, isDigit c = true
  head : d.digits.head? ≠ some '0'
  last : d.digits.getLast? ≠ some '0'
  zero : d.digits = [] → d.negative = false ∧ d.exponent = 0

theorem exponent_le_of_eq {a b : Nat} {e f : Int} (ha : ¬ 10 ∣ a)
    (h : (a * 10 ^ e : ℚ) = b * 10 ^ f) : f ≤ e := by
  by_contra hlt
  obtain ⟨k, hk⟩ := Int.eq_ofNat_of_zero_le (show 0 ≤ f - e - 1 by omega)
  have hf : f = ((k + 1 : Nat) : Int) + e := by omega
  rw [hf, zpow_add₀ (by norm_num), zpow_natCast, ← mul_assoc] at h
  have hab : a = b * 10 ^ (k + 1) := by
    exact_mod_cast mul_right_cancel₀ (zpow_ne_zero e (by norm_num)) h
  exact ha ⟨b * 10 ^ k, by rw [hab, pow_succ]; ring⟩

theorem abs_worth (d : DecimalText) : |d.worth| = countOf d.digits * 10 ^ d.exponent := by
  have hnonneg : (0 : ℚ) ≤ countOf d.digits * 10 ^ d.exponent :=
    mul_nonneg (Nat.cast_nonneg _) (zpow_nonneg (by norm_num) _)
  rw [worth, worthOf, mul_assoc, abs_mul, abs_of_nonneg hnonneg]
  split <;> simp

theorem IsCanonical.worth_eq_zero_iff {d : DecimalText} (hd : d.IsCanonical) :
    d.worth = 0 ↔ d.digits = [] := by
  rw [← abs_eq_zero, abs_worth]
  constructor
  · intro h
    have hzero : countOf d.digits = 0 := by
      exact_mod_cast (mul_eq_zero.mp h).resolve_right (zpow_ne_zero _ (by norm_num))
    exact eq_of_countOf_eq hd.isDigits nofun hd.head nofun hzero
  · intro h
    rw [h]
    simp [countOf, digitsOf]

/-- In canonical form, decimals are told apart by what they are worth. -/
theorem IsCanonical.eq_of_worth_eq {d d' : DecimalText} (hd : d.IsCanonical) (hd' : d'.IsCanonical)
    (h : d.worth = d'.worth) : d = d' := by
  have hnil : d.digits = [] ↔ d'.digits = [] := by
    rw [← hd.worth_eq_zero_iff, ← hd'.worth_eq_zero_iff, h]
  have hmagnitude := (abs_worth d).symm.trans ((congrArg abs h).trans (abs_worth d'))
  obtain ⟨negative, digits, exponent⟩ := d
  obtain ⟨negative', digits', exponent'⟩ := d'
  dsimp only at hnil hmagnitude
  by_cases hdigits : digits = []
  · obtain ⟨rfl, rfl⟩ := hd.zero hdigits
    obtain ⟨rfl, rfl⟩ := hd'.zero (hnil.mp hdigits)
    rw [hdigits, hnil.mp hdigits]
  · have hlast := not_dvd_countOf hd.isDigits hdigits hd.last
    have hlast' := not_dvd_countOf hd'.isDigits (mt hnil.mpr hdigits) hd'.last
    -- with the lower power of ten, the digits would count for a multiple of ten
    obtain rfl : exponent = exponent' := le_antisymm
      (exponent_le_of_eq hlast' hmagnitude.symm) (exponent_le_of_eq hlast hmagnitude)
    have hcount : countOf digits = countOf digits' := by
      exact_mod_cast mul_right_cancel₀ (zpow_ne_zero _ (by norm_num)) hmagnitude
    obtain rfl := eq_of_countOf_eq hd.isDigits hd'.isDigits hd.head hd'.head hcount
    have hworth : worth ⟨negative, digits, exponent⟩ ≠ 0 := mt hd.worth_eq_zero_iff.mp hdigits
    have hsign : negative = negative' := by
      by_contra hne
      have hflip : worth ⟨negative', digits, exponent⟩ = -worth ⟨negative, digits, exponent⟩ := by
        cases negative <;> cases negative' <;> simp [worth, worthOf] at hne ⊢
      exact hworth (self_eq_neg.mp (h.trans hflip))
    rw [hsign]

/-! ## Reading -/

theorem eq_of_signed64? {n m : Int} (h : signed64? n = some m) : m = n := by
  unfold signed64? at h
  split at h
  · exact (Option.some.inj h).symm
  · cases h

/-- A zero behind the digits counts like one in the power of ten. -/
theorem worthOf_append_zeros (negative : Bool) (xs : List Char) (k : Nat) (e : Int) :
    worthOf negative (xs ++ List.replicate k '0') e = worthOf negative xs (e + k) := by
  rw [worthOf, worthOf, countOf_append_zeros, zpow_add₀ (by norm_num), zpow_natCast]
  push_cast
  ring

theorem worthOf_dropWhile_zero (negative : Bool) (xs : List Char) (e : Int) :
    worthOf negative (xs.dropWhile (· = '0')) e = worthOf negative xs e := by
  rw [worthOf, worthOf, countOf_dropWhile_zero]

theorem worthOf_trimZerosRight (negative : Bool) (xs : List Char) (e : Int) :
    worthOf negative (trimZerosRight xs)
      (e + ((xs.length - (trimZerosRight xs).length : Nat) : Int)) = worthOf negative xs e := by
  rw [length_trimZerosRight, ← worthOf_append_zeros, trimZerosRight_append_zeros]

theorem mem_of_mem_trimZerosRight (h : c ∈ trimZerosRight xs) : c ∈ xs := by
  rw [← trimZerosRight_append_zeros xs]
  exact List.mem_append_left _ h

theorem head?_trimZerosRight (h : trimZerosRight xs ≠ []) :
    (trimZerosRight xs).head? = xs.head? := by
  conv_rhs => rw [← trimZerosRight_append_zeros xs]
  rw [List.head?_append, Option.or_of_isSome (List.isSome_head?.mpr h)]

theorem getLast?_trimZerosRight (xs : List Char) : (trimZerosRight xs).getLast? ≠ some '0' := by
  intro h
  have hne : trimZerosRight xs ≠ [] := fun hnil => by rw [hnil] at h; cases h
  rw [List.getLast?_eq_some_getLast hne] at h
  have hlast := List.rdropWhile_last_not (fun c => decide (c = '0')) xs hne
  exact hlast (decide_eq_true (Option.some.inj h))

/-- Digits are put into canonical form, and are worth the same. -/
theorem ofParts?_spec {negative : Bool} {whole fraction : List Char} {exponent : Int}
    {d : DecimalText} (hdigits : (whole ++ fraction).all isDigit = true)
    (h : ofParts? negative whole fraction exponent = some d) :
    d.IsCanonical ∧
      d.worth = worthOf negative (whole ++ fraction) (exponent - fraction.length) := by
  unfold ofParts? at h
  obtain ⟨e, he, h⟩ := Option.bind_eq_some_iff.mp h
  obtain ⟨e', he', h⟩ := Option.bind_eq_some_iff.mp h
  have hworth : worthOf negative (trimZerosRight ((whole ++ fraction).dropWhile (· = '0'))) e' =
      worthOf negative (whole ++ fraction) (exponent - fraction.length) := by
    rw [eq_of_signed64? he', worthOf_trimZerosRight, worthOf_dropWhile_zero, eq_of_signed64? he]
  split at h
  · next hnil =>
    cases h
    refine ⟨⟨nofun, nofun, nofun, fun _ => ⟨rfl, rfl⟩⟩, ?_⟩
    rw [← hworth, hnil]
    simp [worth, worthOf, countOf, digitsOf]
  · next hne =>
    cases h
    refine ⟨⟨fun c hc => ?_, ?_, getLast?_trimZerosRight _, fun hnil => absurd hnil hne⟩, hworth⟩
    · have hmem := (List.dropWhile_sublist _).subset (mem_of_mem_trimZerosRight hc)
      exact List.all_eq_true.mp hdigits c hmem
    · dsimp only
      rw [head?_trimZerosRight hne]
      intro hzero
      have hnot := List.head?_dropWhile_not (fun c => decide (c = '0')) (whole ++ fraction)
      rw [hzero] at hnot
      cases hnot

variable {cs : List Char} {d : DecimalText}

theorem spec_of_parse? {m : Numeral} (h : parse? m.text = some d) :
    d.IsCanonical ∧ d.worth = m.worth := by
  rw [m.parse?_text] at h
  obtain ⟨e, he, hparts⟩ := Option.bind_eq_some_iff.mp h
  rw [eq_of_signed64? he] at hparts
  exact ofParts?_spec m.isDigits hparts

/-- A text that is read denotes one number, which is what the decimal read is worth. -/
theorem denotes_iff_of_parse? (h : parse? cs = some d) (q : ℚ) : Denotes cs q ↔ q = d.worth := by
  constructor
  · rintro ⟨m, rfl, rfl⟩
    exact (spec_of_parse? h).2.symm
  · rintro rfl
    obtain ⟨m, rfl⟩ := exists_numeral_of_parse? h
    exact ⟨m, rfl, (spec_of_parse? h).2.symm⟩

theorem isCanonical_of_parse? (h : parse? cs = some d) : d.IsCanonical := by
  obtain ⟨m, rfl⟩ := exists_numeral_of_parse? h
  exact (spec_of_parse? h).1

end DecimalText

/-! ## Comparing -/

namespace SemanticEquality

open DecimalText

/-- Two texts that are read, without the white space around them, denote one number each, and they
are equal exactly if the numbers are. If one of them is not read, they are not equal, and one error
is reported. -/
theorem numeric_exact {σ : Type} (a b : String) :
    ((parse? (Text.trim a.toList)).isSome = true → (parse? (Text.trim b.toList)).isSome = true →
      ∃ q r : ℚ, (∀ s, Denotes (Text.trim a.toList) s ↔ s = q) ∧
        (∀ s, Denotes (Text.trim b.toList) s ↔ s = r) ∧
        (numeric (.string a) (.string b) : StateM σ (Bool × Diagnostics)) =
          pure (decide (q = r), [])) ∧
    (parse? (Text.trim a.toList) = none ∨ parse? (Text.trim b.toList) = none →
      ∃ d : Diagnostic, d.isError = true ∧
        (numeric (.string a) (.string b) : StateM σ (Bool × Diagnostics)) = pure (false, [d])) := by
  constructor
  · intro hx hy
    obtain ⟨d, hd⟩ := Option.isSome_iff_exists.mp hx
    obtain ⟨d', hd'⟩ := Option.isSome_iff_exists.mp hy
    refine ⟨d.worth, d'.worth, denotes_iff_of_parse? hd, denotes_iff_of_parse? hd', ?_⟩
    have hiff : d = d' ↔ d.worth = d'.worth :=
      ⟨congrArg worth, (isCanonical_of_parse? hd).eq_of_worth_eq (isCanonical_of_parse? hd')⟩
    change pure (numericTexts a b) = _
    rw [numericTexts_eq hd hd', decide_eq_decide.mpr hiff]
  · intro hread
    obtain ⟨problem, hproblem⟩ := numericTexts_of_unreadable hread
    refine ⟨checkError problem, rfl, ?_⟩
    change pure (numericTexts a b) = _
    rw [hproblem]

/-- A tenth, written in two ways, and a text whose power of ten has no room for one more zero. -/
theorem numeric_exact_tenth :
    let x := Text.trim " +0.10 ".toList
    let y := Text.trim "1E-01".toList
    let z := Text.trim "10e9223372036854775807".toList
    let said (text : String) : StateM Nat (Bool × Diagnostics) :=
      numeric (.string " +0.10 ") (.string text)
    ((parse? x).isSome = true ∧ (parse? y).isSome = true ∧
      ∃ q r : ℚ, (∀ s, Denotes x s ↔ s = q) ∧ (∀ s, Denotes y s ↔ s = r) ∧
        said "1E-01" = pure (decide (q = r), [])) ∧
    parse? z = none ∧ ∃ d : Diagnostic, d.isError = true ∧
      said "10e9223372036854775807" = pure (false, [d]) := by
  intro x y z said
  have hx : (parse? x).isSome = true := by decide
  have hy : (parse? y).isSome = true := by decide
  have hz : parse? z = none := by decide
  exact ⟨⟨hx, hy, (numeric_exact " +0.10 " "1E-01").1 hx hy⟩, hz,
    (numeric_exact " +0.10 " "10e9223372036854775807").2 (.inr hz)⟩

end SemanticEquality

end ProviderKit
