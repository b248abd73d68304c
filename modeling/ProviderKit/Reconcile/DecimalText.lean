import ProviderKit.Number
import ProviderKit.Text.Quoted

-- Decimal numbers written as text, read exactly. Two texts of one number read as the same
-- digits and power of ten, because zeros at either end of the digits are left out.

namespace ProviderKit

/-- The number `digits * 10 ^ exponent`, with a sign. The digits neither start nor end with
zero; zero has no digits, no sign and exponent zero. -/
structure DecimalText where
  negative : Bool
  digits : List Char
  exponent : Int
  deriving DecidableEq

namespace DecimalText

def isDigit (c : Char) : Bool := '0' ≤ c && c ≤ '9'

/-- Split off a sign. -/
def splitSign : List Char → Bool × List Char
  | '-' :: rest => (true, rest)
  | '+' :: rest => (false, rest)
  | cs => (false, cs)

def natOf (digits : List Char) : Nat :=
  digits.foldl (fun n c => n * 10 + (c.toNat - 48)) 0

/-- A signed integer of at least one digit that fits 64 bits. -/
def readInteger? (cs : List Char) : Option Int :=
  let (negative, digits) := splitSign cs
  if digits ≠ [] ∧ digits.all isDigit then
    signed64? (if negative then -(natOf digits : Int) else natOf digits)
  else none

/-- Split at the first character that satisfies a test, which belongs to neither side. -/
def splitAt? (p : Char → Bool) (cs : List Char) : Option (List Char × List Char) :=
  match cs.dropWhile fun c => !p c with
  | [] => none
  | _ :: after => some (cs.takeWhile fun c => !p c, after)

def trimZerosRight (digits : List Char) : List Char :=
  (digits.reverse.dropWhile (· = '0')).reverse

/-- Put a number together from its parts. -/
def ofParts? (negative : Bool) (whole fraction : List Char) (exponent : Int) : Option DecimalText := do
  let e ← signed64? (exponent - fraction.length)
  let significant := (whole ++ fraction).dropWhile (· = '0')
  let digits := trimZerosRight significant
  let e ← signed64? (e + ((significant.length - digits.length : Nat) : Int))
  if digits = [] then return ⟨false, [], 0⟩
  else return ⟨negative, digits, e⟩

/-- Read a decimal: a sign, digits with at most one point among them, and an exponent. Of
these only a digit before or after the point is needed. -/
def parse? (cs : List Char) : Option DecimalText := do
  let (negative, unsigned) := splitSign cs
  let (mantissa, exponent) ← match splitAt? (fun c => c = 'e' || c = 'E') unsigned with
    | some (mantissa, power) => (readInteger? power).map fun e => (mantissa, e)
    | none => some (unsigned, 0)
  let (whole, fraction) := (splitAt? (· = '.') mantissa).getD (mantissa, [])
  if whole ++ fraction ≠ [] ∧ whole.all isDigit ∧ fraction.all isDigit then
    ofParts? negative whole fraction exponent
  else none

end DecimalText

end ProviderKit
