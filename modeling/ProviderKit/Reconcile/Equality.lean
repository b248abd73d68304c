import ProviderKit.Reconcile.DecimalText
import ProviderKit.Json.Parser
import ProviderKit.Diagnostic

-- Predicates that say when two values mean the same, so that a difference in spelling is
-- no change: numbers written as text, and JSON documents written as text.

namespace ProviderKit

/-! ## White space -/

namespace Text

/-- First and last code point of each run of characters with the property White_Space of the
Unicode Character Database, ascending. -/
def blankRanges : List (Nat × Nat) :=
  [(0x9, 0xd), (0x20, 0x20), (0x85, 0x85), (0xa0, 0xa0), (0x1680, 0x1680), (0x2000, 0x200a),
    (0x2028, 0x2029), (0x202f, 0x202f), (0x205f, 0x205f), (0x3000, 0x3000)]

def isBlank (c : Char) : Bool := blankRanges.any fun r => r.1 ≤ c.toNat && c.toNat ≤ r.2

/-- The text without the white space around it. -/
def trim (cs : List Char) : List Char :=
  ((cs.dropWhile isBlank).reverse.dropWhile isBlank).reverse

end Text

/-! ## Predicates -/

/-- Compares a prior value with a proposed one, both known. It may act on the world `σ`
that provider code lives in. -/
abbrev SemanticEquality (σ : Type) := Value → Value → StateM σ (Bool × Diagnostics)

namespace SemanticEquality

def checkError (problem : String) : Diagnostic :=
  .error "Semantic Equality Check Error"
    ("An unexpected error occurred while performing semantic equality checks. Please report this to the provider developers.\n\nError: "
      ++ problem)

/-- Two texts hold the same decimal number. The proposed text is read first. -/
def numericTexts (prior proposed : String) : Bool × Diagnostics :=
  let a := Text.trim prior.toList
  let b := Text.trim proposed.toList
  let invalid (cs : List Char) : Bool × Diagnostics :=
    (false, [checkError ("cannot parse numeric string: " ++ Text.quoted (String.ofList cs)
      ++ " is not a decimal number")])
  match DecimalText.parse? a, DecimalText.parse? b with
  | some x, some y => (x = y, [])
  | _, none => invalid b
  | none, _ => invalid a

/-- Two texts hold the same JSON document. The prior text is read first. -/
def jsonTexts (prior proposed : String) : Bool × Diagnostics :=
  let invalid (fault : Json.Fault) : Bool × Diagnostics :=
    (false, [checkError ("invalid JSON string: " ++ fault.message)])
  match Json.parse prior with
  | .error fault => invalid fault
  | .ok a =>
    match Json.parse proposed with
    | .error fault => invalid fault
    | .ok b => (a.same b, [])

/-- Compare texts, and nothing but texts. -/
def onTexts (compare : String → String → Bool × Diagnostics) (prior proposed : Value) :
    Bool × Diagnostics :=
  match prior, proposed with
  | .string a, .string b => compare a b
  | _, _ => (false, [])

variable {σ : Type}

/-- Texts of the same decimal number are equal, to the last digit. -/
def numeric : SemanticEquality σ := fun prior proposed => pure (onTexts numericTexts prior proposed)

/-- Texts of the same JSON document are equal. -/
def json : SemanticEquality σ := fun prior proposed => pure (onTexts jsonTexts prior proposed)

end SemanticEquality

end ProviderKit
