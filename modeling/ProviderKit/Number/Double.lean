-- Finite binary floating-point numbers of 64 bits: what they are worth, and the nearest
-- one to a given fraction. Everything is exact arithmetic on natural numbers; nothing
-- here rounds except `nearest`, which rounds a half to the even neighbour.

namespace ProviderKit

/-- Two to the 52nd: the magnitudes of one binary exponent are as many, and a significand
other than those of the least exponent is no smaller. -/
abbrev Double.step : Nat := 4503599627370496

/-- A finite double. The magnitude is the bit pattern without the sign, which orders
doubles of one sign as their absolute values. -/
structure Double where
  negative : Bool
  magnitude : Nat
  finite : magnitude < 2047 * Double.step
  deriving DecidableEq

namespace Double

/-! ## The value -/

/-- The integer `s` of the absolute value `s * 2 ^ e`. -/
def significandOf (magnitude : Nat) : Nat :=
  if magnitude < step then magnitude else step + magnitude % step

/-- The exponent `e` of the absolute value `s * 2 ^ e`. -/
def exponentOf (magnitude : Nat) : Int :=
  if magnitude < step then -1074 else (magnitude / step : Nat) - 1075

/-- A natural number times a power of two, as numerator and denominator. -/
def scaled (n : Nat) (e : Int) : Nat × Nat :=
  if 0 ≤ e then (n * Nat.pow 2 e.toNat, 1) else (n, Nat.pow 2 (-e).toNat)

/-- The absolute value, as numerator and denominator. -/
def ratioOf (magnitude : Nat) : Nat × Nat :=
  scaled (significandOf magnitude) (exponentOf magnitude)

def isZero (d : Double) : Bool := d.magnitude = 0

/-- Equal as numbers: both zeros are one number. -/
def sameNumber (a b : Double) : Bool :=
  (a.isZero && b.isZero) || (a.negative = b.negative && a.magnitude = b.magnitude)

/-- The integer a double is equal to, when it is one. -/
def toInt? (d : Double) : Option Int :=
  let (n, q) := ratioOf d.magnitude
  if n % q = 0 then
    let a : Int := (n / q : Nat)
    some (if d.negative then -a else a)
  else none

theorem sameNumber_self (d : Double) : d.sameNumber d = true := by
  simp [sameNumber]

theorem sameNumber_comm (a b : Double) : a.sameNumber b = b.sameNumber a := by
  simp only [sameNumber, Bool.and_comm, eq_comm]

/-! ## Rounding to the nearest double -/

/-- The quotient rounded to the nearest integer, a half to the even one. -/
def roundDiv (n d : Nat) : Nat :=
  let q := n / d
  let r := n % d
  if 2 * r < d then q
  else if d < 2 * r then q + 1
  else q + q % 2

/-- The greatest `g` with `2 ^ g ≤ n / d`. -/
def binade (n d : Nat) : Int :=
  let g : Int := (n.log2 : Int) - d.log2
  let (p, q) := scaled d g
  if n * q < p then g - 1 else g

/-- The magnitude nearest to `n / d`, counting past the greatest finite one as if the
exponent had no end. -/
def nearest (n d : Nat) : Nat :=
  if n = 0 then 0
  else
    let e : Int := max (-1074) (binade n d - 52)
    let (p, q) := scaled n (-e)
    roundDiv p (q * d) + (e + 1074).toNat * step

/-- The double of a sign and a magnitude, unless the magnitude is past the finite ones. -/
def ofMagnitude? (negative : Bool) (magnitude : Nat) : Option Double :=
  if h : magnitude < 2047 * step then some ⟨negative, magnitude, h⟩ else none

/-- The magnitude nearest to the product of two. -/
def product (a b : Nat) : Nat :=
  nearest ((ratioOf a).1 * (ratioOf b).1) ((ratioOf a).2 * (ratioOf b).2)

/-- The magnitude nearest to the quotient of two. -/
def quotient (a b : Nat) : Nat :=
  nearest ((ratioOf a).1 * (ratioOf b).2) ((ratioOf a).2 * (ratioOf b).1)

/-- The magnitude nearest to an integer. -/
def ofNatMagnitude (n : Nat) : Nat := nearest n 1

/-! ## Reading a decimal -/

/-- The magnitude nearest to a power of ten. -/
def powerOfTen (k : Nat) : Nat := nearest (Nat.pow 10 k) 1

/-- The magnitude read from `significand * 10 ^ exponent`: the significand and the power
of ten are rounded, then their product or quotient. Powers below the 308th are divided
away 308 at a time. -/
def descend : Nat → Nat → Nat → Nat
  | 0, m, _ => m
  | steps + 1, m, k =>
    if k ≤ 308 then quotient m (powerOfTen k)
    else if m = 0 then 0
    else descend steps (quotient m (powerOfTen 308)) (k - 308)

/-- Read `significand * 10 ^ exponent`. There is no result when the number is past the
greatest finite double. -/
def ofDecimal? (negative : Bool) (significand : Nat) (exponent : Int) : Option Double :=
  let m := ofNatMagnitude significand
  if exponent < 0 then
    ofMagnitude? negative (descend 4 m (-exponent).toNat)
  else if exponent ≤ 308 then
    ofMagnitude? negative (product m (powerOfTen exponent.toNat))
  else if m = 0 then ofMagnitude? negative 0
  else none

def zero (negative : Bool) : Double := ⟨negative, 0, by decide⟩

end Double

end ProviderKit
