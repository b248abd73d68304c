import ProviderKit.Proofs.Number.Shortest
import ProviderKit.Proofs.Reconcile.Decimals

-- How numbers are spelt. The text of a number is a numeral worth what is printed, and only that of a
-- double has a point or a power of ten. So numbers are told apart by their texts, also where the text
-- goes on after the number, unless it does so with a character that numbers are written with.

namespace ProviderKit

open DecimalText (Numeral Sign Power worthOf countOf)

/-! ## Digits -/

namespace Decimal

theorem isDigit_of_mem_digitsOf {n : Nat} {c : Char} (hc : c ∈ digitsOf n) :
    DecimalText.isDigit c = true :=
  Nat.isDigit_of_mem_toDigits (by decide) (by decide) hc

theorem all_isDigit_digitsOf (n : Nat) : (digitsOf n).all DecimalText.isDigit = true :=
  List.all_eq_true.mpr fun _ hc => isDigit_of_mem_digitsOf hc

theorem digitsOf_ne_nil (n : Nat) : digitsOf n ≠ [] := Nat.toDigits_ne_nil

/-- The digits of a number count for the number. -/
theorem countOf_digitsOf (n : Nat) : countOf (digitsOf n) = n := by
  rw [← DecimalText.natOf_eq_countOf]
  conv_rhs => rw [← Nat.ofDigitChars_ten_toDigits (n := n), Nat.ofDigitChars_eq_foldl]
  unfold DecimalText.natOf digitsOf
  congr 1
  funext k c
  rw [Nat.mul_comm]
  rfl

theorem all_isDigit_zeros (n : Nat) : (zeros n).all DecimalText.isDigit = true := by
  rw [List.all_eq_true]
  intro c hc
  rw [List.eq_of_mem_replicate hc]
  rfl

theorem countOf_zeros_append (n : Nat) (xs : List Char) :
    countOf (zeros n ++ xs) = countOf xs := by
  induction n with
  | zero => rfl
  | succ n ih =>
    rw [zeros, List.replicate_succ, List.cons_append, DecimalText.countOf_cons_zero]
    exact ih

/-! ## Decimals -/

/-- The power of ten of a leading digit, with a sign always. -/
def powerOf (lead : Int) : Power where
  letter := 'e'
  sign := if lead < 0 then .minus else .plus
  digits := digitsOf lead.natAbs
  isLetter := .inl rfl
  isDigits := all_isDigit_digitsOf _
  nonempty := digitsOf_ne_nil _

theorem exponent_powerOf (lead : Int) : (powerOf lead).exponent = lead := by
  unfold Power.exponent powerOf
  dsimp only
  rw [countOf_digitsOf]
  split
  · simp only [Sign.isNegative, if_true]
    omega
  · simp only [Sign.isNegative, Bool.false_eq_true, if_false]
    omega

theorem text_powerOf (lead : Int) : (powerOf lead).text =
    ['e'] ++ if lead < 0 then '-' :: digitsOf (-lead).toNat else '+' :: digitsOf lead.toNat := by
  unfold Power.text powerOf
  dsimp only
  split
  · rw [show lead.natAbs = (-lead).toNat by omega]
    rfl
  · rw [show lead.natAbs = lead.toNat by omega]
    rfl

/-- The text is a numeral without a sign, with a point or a power of ten, and it is worth what the
decimal is. -/
def Spells (cs : List Char) (x : Decimal) : Prop :=
  ∃ m : Numeral, m.text = cs ∧ m.sign = .bare ∧ (m.fraction ≠ none ∨ m.power ≠ none) ∧
    m.worth = x.worth

/-- A text is a numeral put together from parts, with `k` zeros more than the decimal has. -/
theorem spells_of_parts {x : Decimal} {cs : List Char} (whole : List Char)
    (fraction : Option (List Char)) (power : Option Power) (k : Nat)
    (htext : whole ++ (fraction.elim [] ('.' :: ·) ++ power.elim [] Power.text) = cs)
    (hne : whole ≠ []) (hmarked : fraction ≠ none ∨ power ≠ none)
    (hdigits : (whole ++ fraction.getD []).all DecimalText.isDigit = true)
    (hcount : countOf (whole ++ fraction.getD []) = x.digits * 10 ^ k)
    (hexponent : power.elim 0 Power.exponent - ((fraction.getD []).length : Int) + k = x.exponent) :
    Spells cs x := by
  refine ⟨⟨.bare, whole, fraction, power, hdigits, by simp [hne]⟩, ?_, rfl, hmarked, ?_⟩
  · rw [← htext]
    simp [Numeral.text, Numeral.mantissa, Sign.text]
  · unfold Numeral.worth Numeral.digits Numeral.exponent worthOf worth
    dsimp only
    rw [hcount, ← hexponent, zpow_add₀ (by norm_num), zpow_natCast]
    simp only [Sign.isNegative, Bool.false_eq_true, if_false]
    push_cast
    ring

section

variable {x : Decimal}

/-- The zeros of the power of ten are written out in front of the point. -/
theorem spells_padded (h : 0 ≤ x.exponent) :
    Spells (digitsOf x.digits ++ zeros x.exponent.toNat ++ ['.', '0']) x := by
  have hzeros : digitsOf x.digits ++ zeros x.exponent.toNat ++ ['0'] =
      digitsOf x.digits ++ List.replicate (x.exponent.toNat + 1) '0' := by
    rw [List.append_assoc, zeros, ← List.replicate_succ']
  apply spells_of_parts (digitsOf x.digits ++ zeros x.exponent.toNat) (some ['0']) none
    (x.exponent.toNat + 1)
  · simp
  · simp [digitsOf_ne_nil]
  · simp
  · rw [Option.getD_some, List.all_append, List.all_append, all_isDigit_digitsOf,
      all_isDigit_zeros]
    rfl
  · rw [Option.getD_some, hzeros, DecimalText.countOf_append_zeros, countOf_digitsOf]
  · simp only [Option.elim_none, Option.getD_some, List.length_singleton]
    omega

/-- The point stands among the digits. -/
theorem spells_pointed {n : Nat} (hpos : 0 < n)
    (hn : ((digitsOf x.digits).length : Int) + x.exponent = n) (hexponent : x.exponent < 0) :
    Spells ((digitsOf x.digits).take n ++ ['.'] ++ (digitsOf x.digits).drop n) x := by
  have hlength := List.length_pos_of_ne_nil (digitsOf_ne_nil x.digits)
  apply spells_of_parts ((digitsOf x.digits).take n) (some ((digitsOf x.digits).drop n)) none 0
  · simp
  · apply List.ne_nil_of_length_pos
    rw [List.length_take]
    omega
  · simp
  · rw [Option.getD_some, List.take_append_drop, all_isDigit_digitsOf]
  · rw [Option.getD_some, List.take_append_drop, countOf_digitsOf, Nat.pow_zero, Nat.mul_one]
  · simp only [Option.elim_none, Option.getD_some, List.length_drop]
    omega

/-- All digits stand after the point. -/
theorem spells_fraction {n : Nat} (hn : x.exponent = -(n + (digitsOf x.digits).length : Int)) :
    Spells (['0', '.'] ++ zeros n ++ digitsOf x.digits) x := by
  apply spells_of_parts ['0'] (some (zeros n ++ digitsOf x.digits)) none 0
  · simp
  · simp
  · simp
  · rw [Option.getD_some, List.all_append, List.all_append, all_isDigit_digitsOf,
      all_isDigit_zeros]
    rfl
  · rw [Option.getD_some, List.singleton_append, DecimalText.countOf_cons_zero,
      countOf_zeros_append, countOf_digitsOf, Nat.pow_zero, Nat.mul_one]
  · simp only [Option.elim_none, Option.getD_some, List.length_append, zeros, List.length_replicate]
    omega

/-- One digit stands in front of the point, which is left out if there is no other digit. -/
theorem spells_powered {lead : Int}
    (hlead : ((digitsOf x.digits).length : Int) + x.exponent - 1 = lead) :
    Spells ((match digitsOf x.digits with
      | [] => []
      | [c] => [c]
      | c :: rest => c :: '.' :: rest) ++ ['e'] ++
        if lead < 0 then '-' :: digitsOf (-lead).toNat else '+' :: digitsOf lead.toNat) x := by
  have hdigits := all_isDigit_digitsOf x.digits
  have hcount := countOf_digitsOf x.digits
  obtain ⟨c, rest, hcons⟩ := List.exists_cons_of_ne_nil (digitsOf_ne_nil x.digits)
  rw [hcons] at hlead hdigits hcount ⊢
  rw [List.append_assoc, ← text_powerOf]
  cases rest with
  | nil =>
    apply spells_of_parts [c] none (some (powerOf lead)) 0
    · simp
    · simp
    · simp
    · exact hdigits
    · simpa using hcount
    · simp only [List.length_singleton] at hlead
      simp only [Option.elim_some, Option.getD_none, List.length_nil, exponent_powerOf]
      omega
  | cons d rest =>
    apply spells_of_parts [c] (some (d :: rest)) (some (powerOf lead)) 0
    · simp
    · simp
    · simp
    · exact hdigits
    · simpa using hcount
    · simp only [List.length_cons] at hlead
      simp only [Option.elim_some, Option.getD_some, List.length_cons, exponent_powerOf]
      omega

end

theorem spells_render (x : Decimal) : Spells (x.render layout) x := by
  have hpos := List.length_pos_of_ne_nil (digitsOf_ne_nil x.digits)
  unfold render
  dsimp only
  split
  · split
    · next hexponent => exact spells_padded hexponent
    · split
      · next hexponent hlead =>
        apply spells_pointed <;> omega
      · next hexponent hlead =>
        apply spells_fraction
        omega
  · exact spells_powered rfl

end Decimal

/-! ## Numbers -/

namespace Double

/-- The decimal that a double is written as, without its sign. -/
def decimal (d : Double) : Decimal := if d.isZero then ⟨0, 0⟩ else Decimal.shortest d.magnitude

theorem spells_decimal (d : Double) : Decimal.Spells
    (if d.isZero then ['0', '.', '0'] else (Decimal.shortest d.magnitude).render Decimal.layout)
    d.decimal := by
  unfold decimal
  split
  · exact Decimal.spells_padded (x := ⟨0, 0⟩) (le_refl _)
  · exact Decimal.spells_render _

theorem worth_decimal_of_ne_zero {d : Double} (hd : d.magnitude ≠ 0) :
    d.decimal = Decimal.shortest d.magnitude ∧ d.decimal.worth ≠ 0 := by
  have hdecimal : d.decimal = Decimal.shortest d.magnitude := if_neg (by simp [isZero, hd])
  have hdigits : ((Decimal.shortest d.magnitude).digits : ℚ) ≠ 0 := by
    exact_mod_cast (Decimal.contains_shortest hd).1
  rw [hdecimal]
  exact ⟨rfl, mul_ne_zero hdigits (zpow_ne_zero _ (by norm_num))⟩

theorem worth_decimal_of_zero {d : Double} (hd : d.magnitude = 0) : d.decimal.worth = 0 := by
  have hdecimal : d.decimal = ⟨0, 0⟩ := if_pos (by simp [isZero, hd])
  rw [hdecimal]
  simp [Decimal.worth]

/-- But for their signs, doubles are told apart by what they are written as. -/
theorem magnitude_eq_of_worth {d e : Double} (h : d.decimal.worth = e.decimal.worth) :
    d.magnitude = e.magnitude := by
  by_cases hd : d.magnitude = 0
  · by_cases he : e.magnitude = 0
    · rw [hd, he]
    · rw [worth_decimal_of_zero hd] at h
      exact absurd h.symm (worth_decimal_of_ne_zero he).2
  · by_cases he : e.magnitude = 0
    · rw [worth_decimal_of_zero he] at h
      exact absurd h (worth_decimal_of_ne_zero hd).2
    · rw [(worth_decimal_of_ne_zero hd).1, (worth_decimal_of_ne_zero he).1] at h
      exact Decimal.eq_of_worth_shortest hd he h

end Double

namespace Number

/-- How a number is spelt: an integer without a point or a power of ten, and a double with one of
them, and with its sign also where it is zero. -/
def IsSpelt (m : Numeral) : Number → Prop
  | .integer n _ => m.fraction = none ∧ m.power = none ∧ m.worth = n
  | .double d => (m.fraction ≠ none ∨ m.power ≠ none) ∧ m.sign.isNegative = d.negative ∧
    m.worth = (if d.negative then -1 else 1) * d.decimal.worth

theorem eq_of_isSpelt {m : Numeral} {a b : Number} (ha : IsSpelt m a) (hb : IsSpelt m b) :
    a = b := by
  cases a with
  | integer i hi =>
    obtain ⟨hfraction, hpower, hworth⟩ := ha
    cases b with
    | integer j hj =>
      obtain rfl : i = j := by exact_mod_cast hworth.symm.trans hb.2.2
      rfl
    | double e =>
      rcases hb.1 with h | h
      · exact absurd hfraction h
      · exact absurd hpower h
  | double d =>
    cases b with
    | integer j hj =>
      rcases ha.1 with h | h
      · exact absurd hb.1 h
      · exact absurd hb.2.1 h
    | double e =>
      obtain ⟨-, hsign, hworth⟩ := ha
      obtain ⟨-, hsign', hworth'⟩ := hb
      have hnegative : d.negative = e.negative := hsign.symm.trans hsign'
      rw [hworth, hnegative] at hworth'
      have hdecimal : d.decimal.worth = e.decimal.worth := by
        apply mul_left_cancel₀ _ hworth'
        split <;> norm_num
      have hmagnitude := Double.magnitude_eq_of_worth hdecimal
      cases d
      cases e
      simp_all

/-- A sign in front of digits. -/
theorem exists_numeral_signed {m : Numeral} (hm : m.sign = .bare) (negative : Bool) :
    ∃ m' : Numeral, m'.text = (if negative then '-' :: m.text else m.text) ∧
      m'.sign.isNegative = negative ∧ m'.fraction = m.fraction ∧ m'.power = m.power ∧
      m'.worth = (if negative then -1 else 1) * m.worth := by
  cases negative with
  | true =>
    refine ⟨{ m with sign := .minus }, ?_, rfl, rfl, rfl, ?_⟩
    · simp [Numeral.text, Numeral.mantissa, hm, Sign.text]
    · simp [Numeral.worth, Numeral.digits, Numeral.exponent, hm, Sign.isNegative, worthOf]
  | false =>
    refine ⟨m, rfl, by rw [hm]; rfl, rfl, rfl, ?_⟩
    simp

/-- The digits of a natural number. -/
def naturalNumeral (n : Nat) : Numeral where
  sign := .bare
  whole := Decimal.digitsOf n
  fraction := none
  power := none
  isDigits := by rw [Option.getD_none, List.append_nil]; exact Decimal.all_isDigit_digitsOf n
  nonempty := by simp [Decimal.digitsOf_ne_nil]

theorem text_naturalNumeral (n : Nat) : (naturalNumeral n).text = Decimal.digitsOf n := by
  simp [Numeral.text, Numeral.mantissa, naturalNumeral, Sign.text]

theorem worth_naturalNumeral (n : Nat) : (naturalNumeral n).worth = n := by
  simp [Numeral.worth, Numeral.digits, Numeral.exponent, naturalNumeral, worthOf,
    Sign.isNegative, Decimal.countOf_digitsOf]

/-- The text of a number is a numeral that spells it. -/
theorem exists_numeral_render (n : Number) : ∃ m : Numeral, m.text = n.render ∧ IsSpelt m n := by
  cases n with
  | integer i hi =>
    obtain ⟨m, htext, -, hfraction, hpower, hworth⟩ :=
      exists_numeral_signed (m := naturalNumeral i.natAbs) rfl (decide (i < 0))
    rw [text_naturalNumeral] at htext
    rw [worth_naturalNumeral, ← Int.cast_natCast] at hworth
    refine ⟨m, ?_, hfraction, hpower, ?_⟩
    · rw [htext, render]
      simp
    · rw [hworth]
      by_cases hneg : i < 0
      · simp only [hneg, decide_true, if_true, neg_one_mul, ← Int.cast_neg]
        rw [Int.cast_inj]
        omega
      · simp only [hneg, decide_false, Bool.false_eq_true, if_false, one_mul]
        rw [Int.cast_inj]
        omega
  | double d =>
    obtain ⟨m, hunsigned, hbare, hmarked, hvalue⟩ := d.spells_decimal
    obtain ⟨m', htext, hsign, hfraction, hpower, hworth⟩ := exists_numeral_signed hbare d.negative
    refine ⟨m', ?_, ?_, hsign, ?_⟩
    · rw [htext, hunsigned]
      rfl
    · rwa [hfraction, hpower]
    · rw [hworth, hvalue]

/-! ## Numbers in texts -/

/-- A character that a number may be written with. -/
def isNumeric (c : Char) : Bool :=
  DecimalText.isDigit c || c = '.' || c = 'e' || c = 'E' || c = '+' || c = '-'

theorem isNumeric_of_isDigit {c : Char} (hc : DecimalText.isDigit c = true) :
    isNumeric c = true := by
  simp [isNumeric, hc]

theorem isNumeric_of_mem_sign {s : Sign} {c : Char} (hc : c ∈ s.text) : isNumeric c = true := by
  cases s <;> simp_all [Sign.text, isNumeric]

theorem isNumeric_of_mem_text {m : Numeral} {c : Char} (hc : c ∈ m.text) :
    isNumeric c = true := by
  unfold Numeral.text at hc
  rw [List.mem_append, List.mem_append] at hc
  rcases hc with hc | hc | hc
  · exact isNumeric_of_mem_sign hc
  · rcases m.mem_mantissa hc with hdigit | rfl
    · exact isNumeric_of_isDigit hdigit
    · rfl
  · cases hp : m.power with
    | none => simp [hp] at hc
    | some p =>
      rw [hp, Option.elim_some, Power.text, List.mem_cons, List.mem_append] at hc
      rcases hc with rfl | hc | hc
      · rcases p.isLetter with h | h <;> simp [isNumeric, h]
      · exact isNumeric_of_mem_sign hc
      · exact isNumeric_of_isDigit (List.all_eq_true.mp p.isDigits c hc)

theorem isNumeric_of_mem_render {n : Number} {c : Char} (hc : c ∈ n.render) :
    isNumeric c = true := by
  obtain ⟨m, hm, -⟩ := exists_numeral_render n
  rw [← hm] at hc
  exact isNumeric_of_mem_text hc

theorem render_ne_nil (n : Number) : n.render ≠ [] := by
  obtain ⟨m, hm, -⟩ := exists_numeral_render n
  rw [← hm, Numeral.text]
  simp [m.mantissa_ne_nil]

/-- Numbers are told apart by their texts. -/
theorem render_injective {a b : Number} (h : a.render = b.render) : a = b := by
  obtain ⟨m, hm, ha⟩ := exists_numeral_render a
  obtain ⟨m', hm', hb⟩ := exists_numeral_render b
  obtain rfl : m = m' := Numeral.text_injective (by rw [hm, hm', h])
  exact eq_of_isSpelt ha hb

/-- A number is told from a text that goes on with a character of no number. -/
theorem render_append_inj {a b : Number} {xs ys : List Char}
    (hxs : ∀ c ∈ xs.head?, isNumeric c = false) (hys : ∀ c ∈ ys.head?, isNumeric c = false)
    (h : a.render ++ xs = b.render ++ ys) : a = b ∧ xs = ys := by
  obtain ⟨hab, hxy⟩ := DecimalText.append_inj_of_head? (fun _ => isNumeric_of_mem_render)
    (fun _ => isNumeric_of_mem_render) (fun c hc => ne_true_of_eq_false (hxs c hc))
    (fun c hc => ne_true_of_eq_false (hys c hc)) h
  exact ⟨render_injective hab, hxy⟩

end Number

end ProviderKit
