import ProviderKit.Value.Document
import ProviderKit.Text.Quoted

-- Paths from the root of a value down to one of its positions.

namespace ProviderKit

/-- One step of a path. -/
inductive Step where
  /-- To an attribute or a block of an object. -/
  | field (name : String)
  /-- To an entry of a map. -/
  | key (k : String)
  /-- To an item of a list. -/
  | index (i : Nat)
  /-- To an element of a set, named by its value. -/
  | element (v : Value)

namespace Step

def display : Step → String
  | .field name => "AttributeName(" ++ Text.quoted name ++ ")"
  | .key k => "ElementKeyString(" ++ Text.quoted k ++ ")"
  | .index i => "ElementKeyInt(" ++ toString i ++ ")"
  | .element v => "ElementKeyValue(" ++ v.display ++ ")"

/-- Equal as steps: elements compare as values. -/
def same : Step → Step → Bool
  | .field a, .field b => a = b
  | .key a, .key b => a = b
  | .index a, .index b => a = b
  | .element a, .element b => a.same b
  | _, _ => false

theorem same_self (s : Step) : s.same s = true := by
  cases s <;> simp [same, Value.same_self]

end Step

/-- A path, as its steps from the root. -/
structure Path where
  steps : List Step

namespace Path

/-- The path to the root itself. -/
def root : Path := ⟨[]⟩

instance : Inhabited Path := ⟨root⟩

def push (p : Path) (step : Step) : Path := ⟨p.steps ++ [step]⟩

def field (p : Path) (name : String) : Path := p.push (.field name)

def key (p : Path) (k : String) : Path := p.push (.key k)

def index (p : Path) (i : Nat) : Path := p.push (.index i)

def element (p : Path) (v : Value) : Path := p.push (.element v)

def isRoot (p : Path) : Bool := p.steps.isEmpty

def last? (p : Path) : Option Step := p.steps.getLast?

/-- The path without its last step; the root has none. -/
def parent? (p : Path) : Option Path :=
  if p.isRoot then none else some ⟨p.steps.dropLast⟩

/-- The steps joined by points. The root has the empty text. -/
def display (p : Path) : String := String.intercalate "." (p.steps.map Step.display)

/-- Equal step by step. -/
def sameSteps : List Step → List Step → Bool
  | [], [] => true
  | a :: as, b :: bs => a.same b && sameSteps as bs
  | _, _ => false

def same (p q : Path) : Bool := sameSteps p.steps q.steps

theorem same_self (p : Path) : p.same p = true := by
  unfold same
  induction p.steps with
  | nil => rfl
  | cons a as ih => simp [sameSteps, a.same_self, ih]

@[simp] theorem push_steps (p : Path) (step : Step) : (p.push step).steps = p.steps ++ [step] := rfl

end Path

end ProviderKit
