import Mathlib.Tactic.FieldSimp
import ProviderKit.Proofs.Number.Worth

-- The decimals that doubles are written as. Each lies among the numbers that round to its double,
-- and no number rounds to two doubles. So doubles are told apart by what their decimals are worth.

namespace ProviderKit

namespace Double

/-! ## Magnitudes -/

theorem significandOf_eq (m : Nat) : significandOf m =
    if m < 4503599627370496 then m else 4503599627370496 + m % 4503599627370496 := rfl

theorem exponentOf_eq (m : Nat) : exponentOf m =
    if m < 4503599627370496 then -1074 else ((m / 4503599627370496 : Nat) : Int) - 1075 := rfl

/-- A magnitude other than zero has a significand other than zero, of 53 bits at most. -/
theorem significandOf_bounds {m : Nat} (hm : m ≠ 0) :
    0 < significandOf m ∧ significandOf m < 9007199254740992 := by
  rw [significandOf_eq]
  split <;> omega

/-- The significands of neighbours are an even and an odd one. -/
theorem significandOf_succ_mod_two (m : Nat) :
    significandOf (m + 1) % 2 ≠ significandOf m % 2 := by
  rw [significandOf_eq, significandOf_eq]
  split <;> split <;> omega

end Double

namespace Decimal

open Double (significandOf exponentOf scaled step)

/-- What a decimal is worth. -/
def worth (x : Decimal) : ℚ := x.digits * 10 ^ x.exponent

/-! ## Intervals -/

namespace Interval

def lower (i : Interval) : ℚ := i.low * 2 ^ i.exponent

def upper (i : Interval) : ℚ := i.high * 2 ^ i.exponent

/-- The number lies in the interval, which has its ends when it is closed. -/
def Contains (i : Interval) (q : ℚ) : Prop :=
  if i.closed then i.lower ≤ q ∧ q ≤ i.upper else i.lower < q ∧ q < i.upper

theorem Contains.between {i : Interval} {q : ℚ} (h : i.Contains q) :
    i.lower ≤ q ∧ q ≤ i.upper := by
  unfold Contains at h
  split at h
  · exact h
  · exact ⟨h.1.le, h.2.le⟩

theorem Contains.closed_of_end {i : Interval} {q : ℚ} (h : i.Contains q)
    (hend : q = i.lower ∨ q = i.upper) : i.closed = true := by
  by_contra hopen
  rw [Contains, if_neg hopen] at h
  rcases hend with rfl | rfl
  · exact lt_irrefl _ h.1
  · exact lt_irrefl _ h.2

/-- A number in quarters lies in the interval exactly if what it is worth does. -/
theorem holds_iff {i : Interval} {n d : Nat} (hd : 0 < d) :
    i.holds n d = true ↔ i.Contains (n / d * 2 ^ i.exponent) := by
  have hunit : (0 : ℚ) < 2 ^ i.exponent := zpow_pos (by norm_num) _
  have hd' : (0 : ℚ) < d := by exact_mod_cast hd
  have hle (a : Nat) : (a * 2 ^ i.exponent : ℚ) ≤ n / d * 2 ^ i.exponent ↔ a * d ≤ n := by
    rw [mul_le_mul_iff_left₀ hunit, le_div_iff₀ hd']
    exact_mod_cast Iff.rfl
  have hge (a : Nat) : (n / d * 2 ^ i.exponent : ℚ) ≤ a * 2 ^ i.exponent ↔ n ≤ a * d := by
    rw [mul_le_mul_iff_left₀ hunit, div_le_iff₀ hd']
    exact_mod_cast Iff.rfl
  unfold holds Contains lower upper
  cases i.closed with
  | true => simp [hle, hge]
  | false =>
    simp only [Bool.false_eq_true, if_false, Bool.and_eq_true, decide_eq_true_eq, ← not_le, hle,
      hge]

/-! ## The intervals of magnitudes -/

/-- The numbers that round to a magnitude end where those of the next one start. -/
theorem upper_ofMagnitude (m : Nat) : (ofMagnitude m).upper = (ofMagnitude (m + 1)).lower := by
  have hs := Double.significandOf_eq m
  have hs' := Double.significandOf_eq (m + 1)
  have he := Double.exponentOf_eq m
  have he' := Double.exponentOf_eq (m + 1)
  unfold upper lower ofMagnitude
  dsimp only
  by_cases hcarry : m % 4503599627370496 = 4503599627370495 ∧ 4503599627370496 ≤ m
  · -- The next magnitude is a power of two, and half of its own unit is one of this one.
    rw [if_neg (by omega)] at hs hs' he he'
    have hexponent : exponentOf (m + 1) - 2 = exponentOf m - 2 + 1 := by omega
    have hnarrow : significandOf (m + 1) = step ∧ step < m + 1 := by
      rw [step]
      omega
    rw [if_pos hnarrow, hexponent, zpow_add_one₀ (by norm_num), hnarrow.1,
      show significandOf m = 9007199254740991 by omega]
    norm_num
    ring
  · have hs : significandOf (m + 1) = significandOf m + 1 := by
      split at hs <;> split at hs' <;> omega
    have he : exponentOf (m + 1) = exponentOf m := by
      split at he <;> split at he' <;> omega
    have hwide : ¬ (significandOf (m + 1) = step ∧ step < m + 1) := by
      rw [step]
      split at hs' <;> omega
    rw [if_neg hwide, he, hs, show 4 * (significandOf m + 1) - 2 = 4 * significandOf m + 2 by omega]

theorem lower_lt_upper (m : Nat) : (ofMagnitude m).lower < (ofMagnitude m).upper := by
  have hunit : (0 : ℚ) < 2 ^ (ofMagnitude m).exponent := zpow_pos (by norm_num) _
  have hlt : (ofMagnitude m).low < (ofMagnitude m).high := by
    unfold ofMagnitude
    dsimp only
    split <;> omega
  exact mul_lt_mul_of_pos_right (by exact_mod_cast hlt) hunit

theorem lower_strictMono : StrictMono fun m => (ofMagnitude m).lower := by
  refine strictMono_nat_of_lt_succ fun m => ?_
  rw [← upper_ofMagnitude]
  exact lower_lt_upper m

/-- No number rounds to two magnitudes: the greater one has the greater numbers. -/
theorem lt_of_contains {m n : Nat} {q r : ℚ} (hmn : m < n) (hq : (ofMagnitude m).Contains q)
    (hr : (ofMagnitude n).Contains r) : q < r := by
  have hend : q ≤ (ofMagnitude (m + 1)).lower := upper_ofMagnitude m ▸ hq.between.2
  have hstart : (ofMagnitude (m + 1)).lower ≤ (ofMagnitude n).lower :=
    lower_strictMono.monotone hmn
  refine lt_of_le_of_ne (hend.trans (hstart.trans hr.between.1)) fun hqr => ?_
  subst hqr
  have hq' : q = (ofMagnitude (m + 1)).lower := le_antisymm hend (hstart.trans hr.between.1)
  have hr' : q = (ofMagnitude n).lower := le_antisymm (hend.trans hstart) hr.between.1
  obtain rfl : m + 1 = n := lower_strictMono.injective (hq'.symm.trans hr')
  -- Two neighbours would both have the end that they share, but only one of them is even.
  have hm := hq.closed_of_end (.inr (hq'.trans (upper_ofMagnitude m).symm))
  have hn := hr.closed_of_end (.inl hr')
  simp only [ofMagnitude, decide_eq_true_eq] at hm hn
  exact Double.significandOf_succ_mod_two m (hn.trans hm.symm)

end Interval

/-! ## Powers of ten -/

theorem width_pos (n : Nat) : 0 < width n := Nat.length_toDigits_pos

theorem lt_ten_pow_width (n : Nat) : n < 10 ^ width n :=
  (Nat.length_toDigits_le_iff (by decide) (width_pos n)).mp (le_refl _)

theorem ten_pow_le_of_width {n : Nat} (hn : n ≠ 0) : 10 ^ (width n - 1) ≤ n := by
  by_cases hw : width n - 1 = 0
  · rw [hw]
    omega
  · by_contra hlt
    have hle := (Nat.length_toDigits_le_iff (n := n) (by decide) (Nat.pos_of_ne_zero hw)).mpr
      (Nat.not_le.mp hlt)
    change width n ≤ width n - 1 at hle
    omega

/-- The leading power is no greater than the number. -/
theorem leadingPower_le {n d : Nat} (hn : 0 < n) (hd : 0 < d) :
    (10 : ℚ) ^ leadingPower n d ≤ n / d := by
  have hd' : (0 : ℚ) < d := by exact_mod_cast hd
  -- A number below one is compared by what it takes to reach one.
  have hsmall (w : Nat) (h : d ≤ n * 10 ^ w) : (10 : ℚ) ^ (-(w : Int)) ≤ n / d := by
    rw [zpow_neg, zpow_natCast, le_div_iff₀ hd', inv_mul_le_iff₀ (by positivity), mul_comm]
    exact_mod_cast h
  unfold leadingPower
  split
  · next hle =>
    have hdiv : n / d ≠ 0 := (Nat.div_pos hle hd).ne'
    have hpow : 10 ^ (width (n / d) - 1) * d ≤ n :=
      (Nat.mul_le_mul_right d (ten_pow_le_of_width hdiv)).trans (Nat.div_mul_le_self n d)
    rw [← Nat.cast_pred (width_pos _), zpow_natCast, le_div_iff₀ hd']
    exact_mod_cast hpow
  · dsimp only
    split
    · refine hsmall _ ?_
      rw [Nat.mul_comm]
      exact (Nat.div_lt_iff_lt_mul hn).mp (lt_ten_pow_width _) |>.le
    · next hge =>
      rw [← Nat.cast_pred (width_pos _)]
      exact hsmall _ (Nat.not_lt.mp hge)

/-! ## The grid of one power of ten -/

/-- A power of ten as numerator and denominator. -/
def tenTo (k : Int) : Nat × Nat :=
  if 0 ≤ k then (Nat.pow 10 k.toNat, 1) else (1, Nat.pow 10 (-k).toNat)

theorem tenTo_eq (k : Int) :
    0 < (tenTo k).1 ∧ 0 < (tenTo k).2 ∧ ((tenTo k).1 / (tenTo k).2 : ℚ) = 10 ^ k := by
  unfold tenTo
  by_cases hk : 0 ≤ k
  · obtain ⟨n, rfl⟩ := Int.eq_ofNat_of_zero_le hk
    simp
  · obtain ⟨n, hn⟩ := Int.eq_ofNat_of_zero_le (show 0 ≤ -k by omega)
    obtain rfl : k = -n := by omega
    rw [if_neg hk, hn]
    simp

/-- The unit of a grid in quarters, as numerator and denominator. -/
def gridUnit (i : Interval) (k : Int) : Nat × Nat :=
  ((tenTo k).1 * (scaled 1 i.exponent).2, (tenTo k).2 * (scaled 1 i.exponent).1)

theorem gridUnit_eq (i : Interval) (k : Int) : 0 < (gridUnit i k).1 ∧ 0 < (gridUnit i k).2 ∧
    ((gridUnit i k).1 / (gridUnit i k).2 * 2 ^ i.exponent : ℚ) = 10 ^ k := by
  obtain ⟨hp, hp', hten⟩ := tenTo_eq k
  obtain ⟨hq', htwo⟩ := Double.scaled_eq 1 i.exponent
  have hq : 0 < (scaled 1 i.exponent).1 := by
    unfold Double.scaled
    split <;> simp
  refine ⟨Nat.mul_pos hp hq', Nat.mul_pos hp' hq, ?_⟩
  have hpd : ((tenTo k).2 : ℚ) ≠ 0 := by exact_mod_cast hp'.ne'
  have hqn : ((scaled 1 i.exponent).1 : ℚ) ≠ 0 := by exact_mod_cast hq.ne'
  have hqd : ((scaled 1 i.exponent).2 : ℚ) ≠ 0 := by exact_mod_cast hq'.ne'
  rw [Nat.cast_one, one_mul] at htwo
  rw [← hten, htwo, gridUnit]
  push_cast
  field_simp

/-- Of the two multiples of a unit around the value, the nearest one that lies in the interval. -/
def Interval.multiple? (i : Interval) (gn gd : Nat) : Option Nat :=
  let below := i.value * gd / gn
  let rest := i.value * gd % gn
  if i.holds (below * gn) gd && i.holds ((below + 1) * gn) gd then
    if 2 * rest < gn then some below
    else if gn < 2 * rest then some (below + 1)
    else some (below + below % 2)
  else if i.holds (below * gn) gd then some below
  else if i.holds ((below + 1) * gn) gd then some (below + 1)
  else none

theorem onGrid_eq (i : Interval) (k : Int) : onGrid i k =
    (i.multiple? (gridUnit i k).1 (gridUnit i k).2).bind fun m =>
      if m = 0 then none else some ⟨m, k⟩ := rfl

theorem Interval.holds_of_multiple? {i : Interval} {gn gd m : Nat}
    (h : i.multiple? gn gd = some m) : i.holds (m * gn) gd = true := by
  unfold multiple? at h
  dsimp only at h
  generalize i.value * gd / gn = below at h
  split at h
  · next hboth =>
    obtain ⟨hbelow, habove⟩ := Bool.and_eq_true_iff.mp hboth
    split at h
    · cases h
      exact hbelow
    · split at h
      · cases h
        exact habove
      · -- The even one of the two is the one below or the one above.
        cases h
        rcases Nat.mod_two_eq_zero_or_one below with heven | hodd
        · rwa [heven]
        · rwa [hodd]
  · split at h
    · next hbelow =>
      cases h
      exact hbelow
    · split at h
      · next habove =>
        cases h
        exact habove
      · cases h

theorem Interval.exists_multiple? {i : Interval} {gn gd : Nat}
    (h : i.holds (i.value * gd / gn * gn) gd = true) :
    ∃ m, i.multiple? gn gd = some m ∧ i.value * gd / gn ≤ m := by
  unfold multiple?
  dsimp only
  generalize i.value * gd / gn = below at h ⊢
  rw [h, Bool.true_and, if_pos rfl]
  split
  · split
    · exact ⟨_, rfl, Nat.le_refl _⟩
    · split
      · exact ⟨_, rfl, Nat.le_add_right _ _⟩
      · exact ⟨_, rfl, Nat.le_add_right _ _⟩
  · exact ⟨_, rfl, Nat.le_refl _⟩

theorem contains_of_onGrid {i : Interval} {k : Int} {x : Decimal} (h : onGrid i k = some x) :
    x.digits ≠ 0 ∧ i.Contains x.worth := by
  obtain ⟨-, hgd, hunit⟩ := gridUnit_eq i k
  rw [onGrid_eq] at h
  obtain ⟨m, hm, hx⟩ := Option.bind_eq_some_iff.mp h
  have hholds := (Interval.holds_iff hgd).mp (Interval.holds_of_multiple? hm)
  by_cases hzero : m = 0
  · rw [if_pos hzero] at hx
    cases hx
  · rw [if_neg hzero] at hx
    cases hx
    refine ⟨hzero, ?_⟩
    have hworth : worth ⟨m, k⟩ =
        ((m * (gridUnit i k).1 : Nat) : ℚ) / (gridUnit i k).2 * 2 ^ i.exponent := by
      rw [worth, ← hunit]
      push_cast
      ring
    rwa [hworth]

/-- On a grid of at least 17 digits, the unit is less than a quarter of the double's own. -/
theorem isSome_onGrid {m : Nat} (hm : m ≠ 0) {k : Int}
    (hk : (10 : ℚ) ^ (k + 17) ≤
      (Interval.ofMagnitude m).value * 2 ^ (Interval.ofMagnitude m).exponent) :
    (onGrid (Interval.ofMagnitude m) k).isSome = true := by
  obtain ⟨hpos, hlt⟩ := Double.significandOf_bounds hm
  obtain ⟨hgn, hgd, hunit⟩ := gridUnit_eq (Interval.ofMagnitude m) k
  have hvalue : (Interval.ofMagnitude m).value < 100000000000000000 := by
    unfold Interval.ofMagnitude
    dsimp only
    omega
  have hlow : (Interval.ofMagnitude m).low + 1 ≤ (Interval.ofMagnitude m).value := by
    unfold Interval.ofMagnitude
    dsimp only
    split <;> omega
  have hhigh : (Interval.ofMagnitude m).value < (Interval.ofMagnitude m).high := by
    unfold Interval.ofMagnitude
    dsimp only
    omega
  rw [onGrid_eq]
  generalize gridUnit (Interval.ofMagnitude m) k = g at *
  generalize Interval.ofMagnitude m = i at *
  obtain ⟨gn, gd⟩ := g
  dsimp only at hgn hgd hunit ⊢
  have hfine : gn * 100000000000000000 ≤ i.value * gd := by
    have htwo : (0 : ℚ) < 2 ^ i.exponent := zpow_pos (by norm_num) _
    have hgd' : (0 : ℚ) < gd := by exact_mod_cast hgd
    rw [zpow_add₀ (by norm_num), ← hunit, mul_right_comm, mul_le_mul_iff_left₀ htwo,
      div_mul_eq_mul_div, div_le_iff₀ hgd'] at hk
    norm_num at hk
    exact_mod_cast hk
  have hgrid : gn ≤ gd := by
    have hmul : i.value * gd ≤ 100000000000000000 * gd := Nat.mul_le_mul_right gd hvalue.le
    omega
  have hdiv := Nat.div_add_mod' (i.value * gd) gn
  have hmod := Nat.mod_lt (i.value * gd) hgn
  have habove : i.value * gd < i.high * gd := Nat.mul_lt_mul_of_pos_right hhigh hgd
  have hbelow : i.low * gd + gd ≤ i.value * gd := by
    rw [← Nat.succ_mul]
    exact Nat.mul_le_mul_right gd hlow
  have hholds : i.holds (i.value * gd / gn * gn) gd = true := by
    unfold Interval.holds
    split <;> simp only [Bool.and_eq_true, decide_eq_true_eq] <;> omega
  obtain ⟨n, hn, hle⟩ := Interval.exists_multiple? hholds
  have hpositive : 0 < i.value * gd / gn := Nat.div_pos (by omega) hgn
  rw [hn, Option.bind_some, if_neg (by omega)]
  rfl

/-! ## The shortest decimal -/

theorem worth_stripZeros (steps : Nat) (x : Decimal) (hx : x.digits ≠ 0) :
    (stripZeros steps x).digits ≠ 0 ∧ (stripZeros steps x).worth = x.worth := by
  induction steps generalizing x with
  | zero => exact ⟨hx, rfl⟩
  | succ steps ih =>
    rw [stripZeros]
    split
    · next hten =>
      have hdigits : x.digits / 10 ≠ 0 := by omega
      obtain ⟨hne, hworth⟩ := ih ⟨x.digits / 10, x.exponent + 1⟩ hdigits
      refine ⟨hne, hworth.trans ?_⟩
      have hmul : x.digits = x.digits / 10 * 10 := by omega
      rw [worth, worth, zpow_add_one₀ (by norm_num)]
      conv_rhs => rw [hmul]
      push_cast
      ring
    · exact ⟨hx, rfl⟩

/-- One of the 18 grids has a decimal for a magnitude, and the last one if no other has. -/
theorem exists_onGrid {m : Nat} (hm : m ≠ 0) {n d : Nat} (hn : 0 < n) (hd : 0 < d)
    (hvalue : ((Interval.ofMagnitude m).value : ℚ) * 2 ^ (Interval.ofMagnitude m).exponent =
      n / d) :
    ∃ x, (List.range 18).findSome? (fun k : Nat =>
        onGrid (Interval.ofMagnitude m) (leadingPower n d - k)) = some x ∧
      x.digits ≠ 0 ∧ (Interval.ofMagnitude m).Contains x.worth := by
  have hlast : (onGrid (Interval.ofMagnitude m) (leadingPower n d - (17 : Nat))).isSome = true := by
    apply isSome_onGrid hm
    rw [hvalue, show leadingPower n d - (17 : Nat) + 17 = leadingPower n d by omega]
    exact leadingPower_le hn hd
  cases hfound : (List.range 18).findSome? fun k : Nat =>
      onGrid (Interval.ofMagnitude m) (leadingPower n d - k) with
  | none =>
    rw [List.findSome?_eq_none_iff] at hfound
    rw [hfound 17 (by decide)] at hlast
    cases hlast
  | some x =>
    obtain ⟨k, -, hx⟩ := List.exists_of_findSome?_eq_some hfound
    exact ⟨x, rfl, contains_of_onGrid hx⟩

/-- The shortest decimal of a magnitude rounds to it. -/
theorem contains_shortest {m : Nat} (hm : m ≠ 0) :
    (shortest m).digits ≠ 0 ∧ (Interval.ofMagnitude m).Contains (shortest m).worth := by
  have hpos : 0 < (Interval.ofMagnitude m).value :=
    Nat.mul_pos (by decide) (Double.significandOf_bounds hm).1
  obtain ⟨hd, hvalue⟩ :=
    Double.scaled_eq (Interval.ofMagnitude m).value (Interval.ofMagnitude m).exponent
  have hn : 0 < (scaled (Interval.ofMagnitude m).value (Interval.ofMagnitude m).exponent).1 := by
    unfold Double.scaled
    split
    · exact Nat.mul_pos hpos (Nat.pow_pos (by decide))
    · exact hpos
  obtain ⟨x, hfound, hne, hcontains⟩ := exists_onGrid hm hn hd hvalue
  obtain ⟨hstripped, hworth⟩ := worth_stripZeros 18 x hne
  unfold shortest
  dsimp only
  rw [hfound, Option.getD_some, hworth]
  exact ⟨hstripped, hcontains⟩

/-- Magnitudes are told apart by what their shortest decimals are worth. -/
theorem eq_of_worth_shortest {m n : Nat} (hm : m ≠ 0) (hn : n ≠ 0)
    (h : (shortest m).worth = (shortest n).worth) : m = n := by
  have hm := (contains_shortest hm).2
  have hn := (contains_shortest hn).2
  rcases lt_trichotomy m n with hlt | heq | hgt
  · exact absurd h (Interval.lt_of_contains hlt hm hn).ne
  · exact heq
  · exact absurd h (Interval.lt_of_contains hgt hn hm).ne'

end Decimal

end ProviderKit
