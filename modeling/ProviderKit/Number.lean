import ProviderKit.Number.Shortest

-- The numbers of documents and values: integers that fit 64 bits, signed or not, and
-- finite doubles. An integer and a double are never equal, whatever they are worth.

namespace ProviderKit

/-! ## Integers of a fixed width -/

-- The bounds are written out, so that a number is compared with a literal.

/-- The integers of 64 bits with a sign: from minus two to the 63rd up to two to the 63rd. -/
abbrev InSigned64 (n : Int) : Prop := -9223372036854775808 ≤ n ∧ n < 9223372036854775808

/-- The integers of 64 bits with a sign or without one. -/
abbrev InAny64 (n : Int) : Prop := -9223372036854775808 ≤ n ∧ n < 18446744073709551616

/-- The integers of 32 bits without a sign: up to two to the 32nd. -/
abbrev InUnsigned32 (n : Int) : Prop := 0 ≤ n ∧ n < 4294967296

/-- The integer, when it has 64 bits with a sign. -/
def signed64? (n : Int) : Option Int := if InSigned64 n then some n else none

/-! ## Numbers -/

inductive Number where
  | integer (value : Int) (inRange : InAny64 value)
  | double (value : Double)
  deriving DecidableEq

namespace Number

/-- The integer `n` as a number, when it fits. -/
def ofInt? (n : Int) : Option Number :=
  if h : InAny64 n then some (.integer n h) else none

/-- Equal as values: integers by what they are worth, doubles likewise with both zeros
equal, and never one of each. -/
def same : Number → Number → Bool
  | .integer a _, .integer b _ => a = b
  | .double a, .double b => a.sameNumber b
  | _, _ => false

theorem same_self (n : Number) : n.same n = true := by
  cases n <;> simp [same, Double.sameNumber_self]

/-- The double nearest to a number. -/
def nearestDouble : Number → Option Double
  | .integer n _ => Double.ofMagnitude? (n < 0) (Double.ofNatMagnitude n.natAbs)
  | .double d => some d

/-- The text of a number. -/
def render : Number → List Char
  | .integer n _ =>
    if n < 0 then '-' :: Decimal.digitsOf n.natAbs else Decimal.digitsOf n.natAbs
  | .double d => d.render

/-! ## Reading a number from its parts -/

/-- Take decimal digits into a significand for as long as it has 64 bits; the
result has the significand and how many digits it took. -/
def absorb (significand : Nat) : List Nat → Nat × Nat
  | [] => (significand, 0)
  | d :: ds =>
    let n := significand * 10 + d
    if InAny64 n then
      let (m, taken) := absorb n ds
      (m, taken + 1)
    else (significand, 0)

/-- What the digits of a number token come to: a significand of 64 bits and the power
of ten to scale it by. -/
structure Scaled where
  significand : Nat
  exponent : Int

/-- Whole digits past the 64-bit significand count as powers of ten; fraction digits past
it are dropped. -/
def Scaled.ofDigits (whole fraction : List Nat) : Scaled :=
  let (m, taken) := absorb 0 whole
  let (m', taken') := absorb m fraction
  ⟨m', ((whole.length - taken : Nat) : Int) - taken'⟩

/-- The number of a token without fraction or exponent. An integer past the 64-bit range,
and minus zero, are doubles. -/
def ofWhole? (negative : Bool) (whole : List Nat) : Option Number :=
  let s := Scaled.ofDigits whole []
  let n : Int := if negative then -s.significand else s.significand
  if s.exponent = 0 ∧ ¬ (negative = true ∧ s.significand = 0) then
    match ofInt? n with
    | some number => some number
    | none => (Double.ofDecimal? negative s.significand 0).map .double
  else (Double.ofDecimal? negative s.significand s.exponent).map .double

end Number

end ProviderKit
