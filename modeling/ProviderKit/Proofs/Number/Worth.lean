import Mathlib.Algebra.Order.Field.Power
import Mathlib.Algebra.Order.Field.Rat
import Mathlib.Tactic.NormNum
import Mathlib.Tactic.Ring
import ProviderKit.Schema.ValidateType

-- What numbers are worth, and which of them count as integers of 64 bits. An integer is asked
-- for the double nearest to it when it is past the signed range, so some integers past the end
-- count as the end itself.

namespace ProviderKit

/-! ## Doubles -/

namespace Double

/-- What a magnitude is worth. -/
def worthOf (magnitude : Nat) : ℚ := significandOf magnitude * 2 ^ exponentOf magnitude

/-- What a double is worth. -/
def worth (d : Double) : ℚ := (if d.negative then -1 else 1) * worthOf d.magnitude

theorem scaled_eq (n : Nat) (e : Int) :
    0 < (scaled n e).2 ∧ (n * 2 ^ e : ℚ) = (scaled n e).1 / (scaled n e).2 := by
  unfold scaled
  by_cases he : 0 ≤ e
  · obtain ⟨k, rfl⟩ := Int.eq_ofNat_of_zero_le he
    simp
  · obtain ⟨k, hk⟩ := Int.eq_ofNat_of_zero_le (show 0 ≤ -e by omega)
    obtain rfl : e = -k := by omega
    rw [if_neg he]
    simp [div_eq_mul_inv]

theorem ratio_eq_natCast_iff {n q k : Nat} (hq : 0 < q) :
    (n / q : ℚ) = k ↔ n % q = 0 ∧ n / q = k := by
  have hne : (q : ℚ) ≠ 0 := by exact_mod_cast hq.ne'
  rw [div_eq_iff hne]
  constructor
  · intro h
    have hn : n = k * q := by exact_mod_cast h
    rw [hn]
    exact ⟨Nat.mul_mod_left k q, Nat.mul_div_cancel k hq⟩
  · rintro ⟨hmod, rfl⟩
    exact_mod_cast (Nat.div_mul_cancel (Nat.dvd_of_mod_eq_zero hmod)).symm

theorem worthOf_eq_intCast_iff {magnitude : Nat} {i : Int} : worthOf magnitude = i ↔
    (ratioOf magnitude).1 % (ratioOf magnitude).2 = 0 ∧
      (((ratioOf magnitude).1 / (ratioOf magnitude).2 : Nat) : Int) = i := by
  obtain ⟨hq, hworth⟩ := scaled_eq (significandOf magnitude) (exponentOf magnitude)
  rw [show worthOf magnitude = _ from hworth]
  constructor
  · intro h
    have hnonneg : (0 : ℚ) ≤ i := by
      rw [← h]
      exact div_nonneg (Nat.cast_nonneg _) (Nat.cast_nonneg _)
    obtain ⟨k, rfl⟩ := Int.eq_ofNat_of_zero_le (Int.cast_nonneg_iff.mp hnonneg)
    rw [Int.cast_natCast, ratio_eq_natCast_iff hq] at h
    exact ⟨h.1, congrArg Nat.cast h.2⟩
  · rintro ⟨hmod, rfl⟩
    rw [Int.cast_natCast]
    exact (ratio_eq_natCast_iff hq).mpr ⟨hmod, rfl⟩

/-- The integer that a double is equal to is the one that it is worth. -/
theorem toInt?_eq_some_iff {d : Double} {i : Int} : d.toInt? = some i ↔ d.worth = i := by
  have hworth : d.worth = i ↔ worthOf d.magnitude = ((if d.negative then -i else i : Int) : ℚ) := by
    unfold worth
    cases d.negative <;> simp [neg_eq_iff_eq_neg]
  rw [hworth, worthOf_eq_intCast_iff]
  unfold toInt?
  by_cases hmod : (ratioOf d.magnitude).1 % (ratioOf d.magnitude).2 = 0
  · simp only [hmod, if_true, true_and, Option.some.injEq]
    cases d.negative with
    | false => simp
    | true =>
      simp only [if_true]
      omega
  · simp [hmod]

/-- The doubles that count as integers are whole, and the upper end counts too. -/
theorem isInt64_iff {d : Double} : d.isInt64 = true ↔
    ∃ i : Int, d.worth = i ∧ -9223372036854775808 ≤ i ∧ i ≤ 9223372036854775808 := by
  unfold isInt64
  cases hd : d.toInt? with
  | some n =>
    rw [toInt?_eq_some_iff] at hd
    simp [hd]
  | none =>
    constructor
    · intro h
      cases h
    · rintro ⟨i, hi, _⟩
      rw [toInt?_eq_some_iff.mpr hi] at hd
      cases hd

/-! ## Rounding integers of 64 bits -/

theorem binade_of_top {n : Nat} (hlow : 9223372036854775808 ≤ n)
    (hhigh : n < 18446744073709551616) : binade n 1 = 63 := by
  have hlog : n.log2 = 63 := (Nat.log2_eq_iff (by omega)).mpr ⟨hlow, hhigh⟩
  have hone : Nat.log2 1 = 0 := rfl
  have hscaled : scaled 1 63 = (9223372036854775808, 1) := rfl
  unfold binade
  simp only [hlog, hone, Nat.cast_ofNat, Nat.cast_zero, sub_zero, hscaled]
  exact if_neg (by omega)

/-- The doubles nearest to the integers past the signed range are 2048 apart. -/
theorem ofNatMagnitude_of_top {n : Nat} (hlow : 9223372036854775808 ≤ n)
    (hhigh : n < 18446744073709551616) :
    ofNatMagnitude n = roundDiv n 2048 + 1085 * step := by
  unfold ofNatMagnitude nearest
  rw [if_neg (by omega), binade_of_top hlow hhigh]
  rfl

/-- In that range a magnitude is worth its significand times 2048, also where the significand has
carried over into the next exponent. -/
theorem worthOf_of_top {s : Nat} (hlow : 4503599627370496 ≤ s) (hhigh : s ≤ 9007199254740992) :
    worthOf (s + 1085 * step) = (2048 * s : Nat) := by
  have hstep : step = 4503599627370496 := rfl
  rcases Nat.lt_or_eq_of_le hhigh with hlt | rfl
  · have hdiv : (s + 1085 * step) / step = 1086 := by
      rw [hstep]
      omega
    have hmod : step + (s + 1085 * step) % step = s := by
      rw [hstep]
      omega
    rw [worthOf, significandOf, exponentOf, if_neg (by omega), if_neg (by omega), hdiv, hmod]
    norm_num
    ring
  · rw [worthOf, significandOf, exponentOf, if_neg (by omega), if_neg (by omega), hstep]
    norm_num

/-- The double nearest to an integer past the signed range. -/
theorem exists_nearest_of_top {n : Nat} (hlow : 9223372036854775808 ≤ n)
    (hhigh : n < 18446744073709551616) : ∃ d, ofMagnitude? false (ofNatMagnitude n) = some d ∧
      d.worth = (2048 * roundDiv n 2048 : Nat) := by
  have hlower : 4503599627370496 ≤ roundDiv n 2048 := by
    simp only [roundDiv]
    split_ifs <;> omega
  have hupper : roundDiv n 2048 ≤ 9007199254740992 := by
    simp only [roundDiv]
    split_ifs <;> omega
  have hfinite : roundDiv n 2048 + 1085 * step < 2047 * step := by
    have hstep : step = 4503599627370496 := rfl
    omega
  rw [ofNatMagnitude_of_top hlow hhigh]
  refine ⟨⟨false, _, hfinite⟩, dif_pos hfinite, ?_⟩
  rw [worth, worthOf_of_top hlower hupper]
  simp

/-- A half is rounded to the even neighbour, which at the upper end is the end. -/
theorem roundDiv_le_iff {n : Nat} (hlow : 9223372036854775808 ≤ n) :
    roundDiv n 2048 ≤ 4503599627370496 ↔ n ≤ 9223372036854776832 := by
  simp only [roundDiv]
  split_ifs <;> omega

end Double

/-! ## Numbers -/

namespace Number

/-- What a number is worth. -/
def worth : Number → ℚ
  | .integer n _ => n
  | .double d => d.worth

/-- The number is worth an integer of 64 bits with a sign. -/
def IsSigned64 (n : Number) : Prop := ∃ i : Int, n.worth = i ∧ InSigned64 i

/-- The number is past the upper end of the signed range, and yet is rounded to it. -/
def RoundsToEnd : Number → Prop
  | .integer n _ => 9223372036854775808 ≤ n ∧ n ≤ 9223372036854776832
  | .double d => d.worth = 9223372036854775808

theorem isInt64_integer_iff {n : Int} {hn : InAny64 n} :
    (integer n hn).isInt64 = true ↔ n ≤ 9223372036854776832 := by
  by_cases hs : InSigned64 n
  · have htrue : (integer n hn).isInt64 = true := by
      rw [isInt64, decide_eq_true hs, Bool.true_or]
    simp only [htrue, true_iff]
    omega
  · obtain ⟨m, rfl⟩ := Int.eq_ofNat_of_zero_le (show 0 ≤ n by omega)
    obtain ⟨d, hd, hworth⟩ := Double.exists_nearest_of_top (n := m) (by omega) (by omega)
    have hnearest : nearestDouble (integer m hn) = some d := by
      rw [← hd]
      rfl
    have hround := Double.roundDiv_le_iff (n := m) (by omega)
    rw [isInt64, decide_eq_false hs, Bool.false_or, hnearest, Option.map_some, Option.getD_some,
      Double.isInt64_iff]
    constructor
    · rintro ⟨i, hi, _, hle⟩
      have hi : ((2048 * Double.roundDiv m 2048 : Nat) : Int) = i := by
        exact_mod_cast hworth.symm.trans hi
      omega
    · intro hle
      exact ⟨_, hworth.trans (Int.cast_natCast _).symm, by omega, by omega⟩

example : (integer 9223372036854776832 (by decide)).isInt64 = true ∧
    (integer 9223372036854776833 (by decide)).isInt64 = false := ⟨rfl, rfl⟩

/-- What counts as an integer of 64 bits is one, or is past the upper end and rounded to it. -/
theorem isInt64_iff {n : Number} : n.isInt64 = true ↔ n.IsSigned64 ∨ n.RoundsToEnd := by
  cases n with
  | integer n hn =>
    rw [isInt64_integer_iff]
    have hsigned : (integer n hn).IsSigned64 ↔ InSigned64 n := by
      constructor
      · rintro ⟨i, hi, hs⟩
        obtain rfl : n = i := Rat.intCast_inj.mp hi
        exact hs
      · intro hs
        exact ⟨n, rfl, hs⟩
    rw [hsigned, RoundsToEnd]
    omega
  | double d =>
    rw [isInt64, Double.isInt64_iff]
    constructor
    · rintro ⟨i, hi, hlow, hhigh⟩
      rcases Int.lt_or_eq_of_le hhigh with hlt | rfl
      · exact .inl ⟨i, hi, hlow, hlt⟩
      · exact .inr (by rw [RoundsToEnd, hi]; norm_num)
    · rintro (⟨i, hi, hlow, hlt⟩ | hend)
      · exact ⟨i, hi, hlow, by omega⟩
      · have hworth : d.worth = ((9223372036854775808 : Int) : ℚ) := by
          rw [show d.worth = _ from hend]
          norm_num
        exact ⟨_, hworth, by omega, by omega⟩

/-- What is past the end is not in the range. -/
theorem RoundsToEnd.not_isSigned64 {n : Number} (h : n.RoundsToEnd) : ¬ n.IsSigned64 := by
  rintro ⟨i, hi, hlow, hlt⟩
  cases n with
  | integer n hn =>
    obtain rfl : n = i := Rat.intCast_inj.mp hi
    obtain ⟨hend, _⟩ := h
    omega
  | double d =>
    have hi : (9223372036854775808 : ℚ) = i := h.symm.trans hi
    have hi : (9223372036854775808 : Int) = i := by exact_mod_cast hi
    omega

end Number

end ProviderKit
