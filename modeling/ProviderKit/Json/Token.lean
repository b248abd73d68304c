import ProviderKit.Json.Fault
import ProviderKit.Number

-- The tokens of JSON texts: blanks, the three words, numbers and quoted texts. A reader
-- takes the bytes that are left and gives a result with the bytes after it, or stops.

namespace ProviderKit.Json

/-- How much of a token's content is checked. A loose reading looks at the grammar alone:
numbers of any size and any `\u` escape pass. -/
inductive Care where
  | strict
  | loose
  deriving DecidableEq

/-- Stop, with what has been read at fault. -/
def stopHere {α : Type} (reason : Reason) (left : Bytes) : Except Stop α :=
  .error ⟨reason, left.length, false⟩

/-- Stop, with the next byte at fault, or the end of the text. -/
def stopNext {α : Type} (reason : Reason) (left : Bytes) : Except Stop α :=
  .error ⟨reason, left.length, true⟩

def isBlank (b : UInt8) : Bool := b = 32 || b = 9 || b = 10 || b = 13

def skipBlanks (bytes : Bytes) : Bytes := bytes.dropWhile isBlank

def isDigit (b : UInt8) : Bool := 48 ≤ b && b ≤ 57

def digitValue (b : UInt8) : Nat := b.toNat - 48

/-- Read the rest of a word byte by byte. -/
def readWord : Bytes → Bytes → Except Stop Bytes
  | [], bytes => .ok bytes
  | _ :: _, [] => stopHere .endInValue []
  | e :: es, b :: bytes => if b = e then readWord es bytes else stopHere .expectedIdent bytes

/-! ## Numbers -/

/-- A number as it is written: digits before and after the point, and the sign and
digits of the exponent. -/
structure Numeral where
  negative : Bool
  whole : List Nat
  fraction : Option (List Nat)
  exponent : Option (Bool × List Nat)

/-- Split off the digits at the front. -/
def splitDigits (bytes : Bytes) : List Nat × Bytes :=
  ((bytes.takeWhile isDigit).map digitValue, bytes.dropWhile isDigit)

/-- Read the whole part: a zero alone, or digits that do not start with zero. -/
def readWhole : Bytes → Except Stop (List Nat × Bytes)
  | [] => stopHere .endInValue []
  | b :: bytes =>
    if b = 48 then
      match bytes with
      | c :: _ => if isDigit c then stopNext .invalidNumber bytes else .ok ([0], bytes)
      | [] => .ok ([0], [])
    else if isDigit b then
      let (ds, rest) := splitDigits bytes
      .ok (digitValue b :: ds, rest)
    else stopHere .invalidNumber bytes

/-- Read the point and the digits after it, when there is a point. -/
def readFraction : Bytes → Except Stop (Option (List Nat) × Bytes)
  | 46 :: bytes =>
    match splitDigits bytes with
    | ([], []) => stopNext .endInValue []
    | ([], rest) => stopNext .invalidNumber rest
    | (ds, rest) => .ok (some ds, rest)
  | bytes => .ok (none, bytes)

/-- Read the digits of an exponent, the first of which must be there. -/
def readPower (negative : Bool) : Bytes → Except Stop (Option (Bool × List Nat) × Bytes)
  | [] => stopHere .endInValue []
  | b :: bytes =>
    if isDigit b then
      let (ds, rest) := splitDigits bytes
      .ok (some (negative, digitValue b :: ds), rest)
    else stopHere .invalidNumber bytes

/-- Read the exponent, when there is one. -/
def readExponent : Bytes → Except Stop (Option (Bool × List Nat) × Bytes)
  | b :: bytes =>
    if b = 101 || b = 69 then
      match bytes with
      | 43 :: rest => readPower false rest
      | 45 :: rest => readPower true rest
      | rest => readPower false rest
    else .ok (none, b :: bytes)
  | [] => .ok (none, [])

/-- Read a number after its sign. -/
def readNumeral (negative : Bool) (bytes : Bytes) : Except Stop (Numeral × Bytes) := do
  let (whole, bytes) ← readWhole bytes
  let (fraction, bytes) ← readFraction bytes
  let (exponent, bytes) ← readExponent bytes
  return (⟨negative, whole, fraction, exponent⟩, bytes)

/-- The greatest exponent that is counted; a greater one is out of range, or the number
is zero. -/
def greatestExponent : Nat := 2147483647

/-- Where the digits pass a limit: how many digits are left then. -/
def passes (limit value : Nat) : List Nat → Option Nat
  | [] => none
  | d :: ds =>
    let n := value * 10 + d
    if limit < n then some ds.length else passes limit n ds

def natOfDigits (digits : List Nat) : Nat := digits.foldl (fun n d => n * 10 + d) 0

/-- The number a numeral stands for; `rest` is what follows it, to say where a number out
of range was given up. -/
def Numeral.number (n : Numeral) (rest : Bytes) : Except Stop Number :=
  let outOfRange (digitsLeft : Nat) : Except Stop Number :=
    .error ⟨.numberOutOfRange, rest.length + digitsLeft, false⟩
  let double (m : Nat) (e : Int) : Except Stop Number :=
    match Double.ofDecimal? n.negative m e with
    | some d => .ok (.double d)
    | none => outOfRange 0
  match n.fraction, n.exponent with
  | none, none =>
    match Number.ofWhole? n.negative n.whole with
    | some number => .ok number
    | none => outOfRange 0
  | fraction, none =>
    let s := Number.Scaled.ofDigits n.whole (fraction.getD [])
    double s.significand s.exponent
  | fraction, some (down, digits) =>
    let s := Number.Scaled.ofDigits n.whole (fraction.getD [])
    match passes greatestExponent 0 digits with
    | some digitsLeft =>
      if s.significand ≠ 0 ∧ down = false then outOfRange digitsLeft
      else .ok (.double (Double.zero n.negative))
    | none =>
      let e : Int := natOfDigits digits
      double s.significand (if down then s.exponent - e else s.exponent + e)

/-- Read a number after its sign. A loose reading gives zero for every number. -/
def readNumber (care : Care) (negative : Bool) (bytes : Bytes) : Except Stop (Number × Bytes) := do
  let (numeral, rest) ← readNumeral negative bytes
  match care with
  | .strict => return (← numeral.number rest, rest)
  | .loose => return (.double (Double.zero negative), rest)

/-! ## Quoted texts -/

def hexValue? (b : UInt8) : Option Nat :=
  if isDigit b then some (digitValue b)
  else if 97 ≤ b && b ≤ 102 then some (b.toNat - 87)
  else if 65 ≤ b && b ≤ 70 then some (b.toNat - 55)
  else none

/-- Read the four digits of a `\u` escape. -/
def readHex : Bytes → Except Stop (Nat × Bytes)
  | a :: b :: c :: d :: rest =>
    match hexValue? a, hexValue? b, hexValue? c, hexValue? d with
    | some a, some b, some c, some d => .ok (((a * 16 + b) * 16 + c) * 16 + d, rest)
    | _, _, _, _ => stopHere .invalidEscape rest
  | _ => stopHere .endInString []

/-- The UTF-8 bytes of a code point. -/
def encodePoint (n : Nat) : Bytes := String.utf8EncodeChar (Char.ofNat n)

/-- Read the second half of a surrogate pair, which is another escape. -/
def readLowSurrogate (high : Nat) : Bytes → Except Stop (Bytes × Bytes)
  | [] => stopHere .endInString []
  | 92 :: [] => stopHere .endInString []
  | 92 :: 117 :: rest => do
    let (low, rest) ← readHex rest
    if 0xDC00 ≤ low ∧ low ≤ 0xDFFF then
      return (encodePoint (0x10000 + (high - 0xD800) * 0x400 + (low - 0xDC00)), rest)
    else stopHere .loneSurrogate rest
  | 92 :: _ :: rest => stopHere .unfinishedSurrogatePair rest
  | _ :: rest => stopHere .unfinishedSurrogatePair rest

/-- Read what follows the `u` of an escape. -/
def readPoint (care : Care) (bytes : Bytes) : Except Stop (Bytes × Bytes) := do
  let (n, rest) ← readHex bytes
  match care with
  | .loose => return ([], rest)
  | .strict =>
    if 0xDC00 ≤ n ∧ n ≤ 0xDFFF then stopHere .loneSurrogate rest
    else if 0xD800 ≤ n ∧ n ≤ 0xDBFF then readLowSurrogate n rest
    else return (encodePoint n, rest)

/-- Read what follows a backslash. -/
def readEscape (care : Care) : Bytes → Except Stop (Bytes × Bytes)
  | [] => stopHere .endInString []
  | b :: rest =>
    if b = 34 ∨ b = 92 ∨ b = 47 then .ok ([b], rest)
    else if b = 98 then .ok ([8], rest)
    else if b = 102 then .ok ([12], rest)
    else if b = 110 then .ok ([10], rest)
    else if b = 114 then .ok ([13], rest)
    else if b = 116 then .ok ([9], rest)
    else if b = 117 then readPoint care rest
    else stopHere .invalidEscape rest

/-- Read the bytes of a text up to its closing quote. Each step reads at least one byte,
so as many steps as there are bytes are enough. -/
def readQuotedBytes (care : Care) : Nat → Bytes → Except Stop (Bytes × Bytes)
  | 0, bytes => stopHere .endInString bytes
  | _ + 1, [] => stopHere .endInString []
  | steps + 1, b :: bytes =>
    if b = 34 then .ok ([], bytes)
    else if b = 92 then do
      let (front, rest) ← readEscape care bytes
      let (back, rest) ← readQuotedBytes care steps rest
      return (front ++ back, rest)
    else if b < 32 then stopHere .controlCharacter bytes
    else do
      let (back, rest) ← readQuotedBytes care steps bytes
      return (b :: back, rest)

/-- Read a text after its opening quote. Bytes that are no text are a fault, whose place is
counted back from the closing quote: one byte for each of the content from the first on that
belongs to no character. -/
def readText (care : Care) (bytes : Bytes) : Except Stop (String × Bytes) := do
  let (content, rest) ← readQuotedBytes care (bytes.length + 1) bytes
  match care with
  | .loose => return ("", rest)
  | .strict =>
    match Bytes.toText? content with
    | some text => return (text, rest)
    | none =>
      let spoilt := content.length - Bytes.textLength content
      .error ⟨.invalidCodePoint, rest.length + spoilt, false⟩

end ProviderKit.Json
