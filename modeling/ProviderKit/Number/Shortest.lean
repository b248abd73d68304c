import ProviderKit.Number.Double

-- The shortest decimal that reads back as a given double, and its text. Of the decimals
-- with the fewest digits that lie within half a gap of the double, the nearest one is
-- taken; a tie goes to the even last digit.

namespace ProviderKit

/-- A decimal `digits * 10 ^ exponent`. -/
structure Decimal where
  digits : Nat
  exponent : Int
  deriving DecidableEq, Repr

namespace Decimal

/-- The decimal digits of a natural number, most significant first. -/
def digitsOf (n : Nat) : List Char := Nat.toDigits 10 n

/-- How many decimal digits a natural number has. -/
def width (n : Nat) : Nat := (digitsOf n).length

/-- The greatest `k` with `10 ^ k ≤ n / d`. -/
def leadingPower (n d : Nat) : Int :=
  if d ≤ n then (width (n / d) : Int) - 1
  else
    let w := width (d / n)
    if n * Nat.pow 10 (w - 1) < d then -(w : Int) else -((w : Int) - 1)

/-- The same number without trailing zeros among its digits. -/
def stripZeros : Nat → Decimal → Decimal
  | 0, x => x
  | steps + 1, x =>
    if x.digits ≠ 0 ∧ x.digits % 10 = 0 then stripZeros steps ⟨x.digits / 10, x.exponent + 1⟩ else x

/-! ## The interval of a double -/

/-- The numbers that round to one double, in quarters of the double's own unit: from
`low` to `high`, with the ends when `closed`. -/
structure Interval where
  low : Nat
  value : Nat
  high : Nat
  closed : Bool
  /-- The binary exponent of a quarter. -/
  exponent : Int

/-- The numbers that round to a magnitude. Below a power of two the next double is only
half as far away, except at the least exponent. -/
def Interval.ofMagnitude (magnitude : Nat) : Interval :=
  let s := Double.significandOf magnitude
  let narrow := s = Double.step ∧ Double.step < magnitude
  { low := if narrow then 4 * s - 1 else 4 * s - 2
    value := 4 * s
    high := 4 * s + 2
    closed := s % 2 = 0
    exponent := Double.exponentOf magnitude - 2 }

/-- A number, given as numerator and denominator in quarters, lies in the interval. -/
def Interval.holds (i : Interval) (n d : Nat) : Bool :=
  if i.closed then i.low * d ≤ n && n ≤ i.high * d else i.low * d < n && n < i.high * d

/-! ## The grid of one power of ten -/

/-- The nearest multiple of `10 ^ k` that lies in the interval, when one of the two
multiples around the value does. -/
def onGrid (i : Interval) (k : Int) : Option Decimal :=
  -- one unit of the grid is `gn / gd` quarters
  let (pn, pd) : Nat × Nat := if 0 ≤ k then (Nat.pow 10 k.toNat, 1) else (1, Nat.pow 10 (-k).toNat)
  let (qn, qd) := Double.scaled 1 i.exponent
  let gn := pn * qd
  let gd := pd * qn
  let below := i.value * gd / gn
  let above := below + 1
  let rest := i.value * gd % gn
  let belowIn := i.holds (below * gn) gd
  let aboveIn := i.holds (above * gn) gd
  let pick :=
    if belowIn && aboveIn then
      if 2 * rest < gn then some below
      else if gn < 2 * rest then some above
      else some (below + below % 2)
    else if belowIn then some below
    else if aboveIn then some above
    else none
  pick.bind fun m => if m = 0 then none else some ⟨m, k⟩

/-- The shortest decimal that rounds to a magnitude other than zero. -/
def shortest (magnitude : Nat) : Decimal :=
  let i := Interval.ofMagnitude magnitude
  let (qn, qd) := Double.scaled i.value i.exponent
  let top := leadingPower qn qd
  let found := (List.range 18).findSome? fun (n : Nat) => onGrid i (top - n)
  stripZeros 18 (found.getD ⟨i.value, 0⟩)

/-! ## The text -/

/-- Doubles from `10 ^ positionalFrom` up to `10 ^ positionalTo` are written out; all
others have an exponent. -/
structure Layout where
  positionalFrom : Int
  positionalTo : Int

/-- A number is written out from 0.00001 up to 9999999999999999. -/
def layout : Layout := ⟨-5, 16⟩

def zeros (n : Nat) : List Char := List.replicate n '0'

/-- A decimal other than zero as text. Written out, it has at least one digit after the
point; with an exponent, the point is left out when one digit is enough, and the
exponent has a sign and no padding. -/
def render (l : Layout) (x : Decimal) : List Char :=
  let ds := digitsOf x.digits
  let lead : Int := (ds.length : Int) + x.exponent - 1
  if l.positionalFrom ≤ lead ∧ lead < l.positionalTo then
    if 0 ≤ x.exponent then
      ds ++ zeros x.exponent.toNat ++ ['.', '0']
    else if 0 ≤ lead then
      let n := (lead + 1).toNat
      ds.take n ++ ['.'] ++ ds.drop n
    else
      ['0', '.'] ++ zeros (-lead - 1).toNat ++ ds
  else
    let mantissa := match ds with
      | [] => []
      | [c] => [c]
      | c :: rest => c :: '.' :: rest
    let power := if lead < 0 then '-' :: digitsOf (-lead).toNat else '+' :: digitsOf lead.toNat
    mantissa ++ ['e'] ++ power

end Decimal

namespace Double

/-- The text of a double: the shortest digits that read back, and a sign. -/
def render (d : Double) : List Char :=
  let body :=
    if d.isZero then ['0', '.', '0'] else (Decimal.shortest d.magnitude).render Decimal.layout
  if d.negative then '-' :: body else body

end Double

end ProviderKit
