import ProviderKit.Schema.ValidateType

-- Validating a configuration against its schema, before the provider's own validation.
-- Unknown values pass everywhere, also where a value is required, since what they will be
-- is not known yet.

namespace ProviderKit

/-! ## The messages -/

namespace Validation

def missingAttribute (path : Path) : Diagnostic :=
  (Diagnostic.error "Missing Configuration for Required Attribute"
    ("Must set a configuration value for the " ++ path.display
      ++ " attribute as the provider has marked it as required.")).atPath path

def readOnlyAttribute (path : Path) : Diagnostic :=
  (Diagnostic.error "Invalid Configuration for Read-Only Attribute"
    "Cannot set value for this attribute as the provider has marked it as read-only. Remove the configuration line setting the value.\n\nRefer to the provider documentation or contact the provider developers for additional information about configurable and read-only attributes that are supported.").atPath path

def unsupported (path : Path) (name : String) : Diagnostic :=
  (Diagnostic.error "Unsupported argument"
    ("An argument named " ++ Text.quoted name ++ " is not expected here.")).atPath (path.field name)

/-- At the root there is no path to give. -/
def expectedObject (path : Path) (found : Value) : Diagnostic :=
  let d := Diagnostic.error "Expected object" ("Got " ++ found.kind.name)
  if path.isRoot then d else d.atPath path

def expectedBlock (path : Path) (mode : Shape) (found : Value) : Diagnostic :=
  (Diagnostic.error ("Expected " ++ mode.name ++ " for block " ++ path.display)
    ("Got " ++ found.kind.name)).atPath path

def missingBlock (path : Path) (minItems : UInt32) : Diagnostic :=
  (Diagnostic.error "Missing required block"
    ("Block " ++ path.display ++ " requires at least " ++ toString minItems.toNat ++ " item(s)")).atPath
    path

def tooFewBlocks (path : Path) (minItems count : UInt32) : Diagnostic :=
  (Diagnostic.error "Insufficient blocks"
    ("Block " ++ path.display ++ " requires at least " ++ toString minItems.toNat
      ++ " item(s), got " ++ toString count.toNat)).atPath path

def tooManyBlocks (path : Path) (maxItems count : UInt32) : Diagnostic :=
  (Diagnostic.error "Too many blocks"
    ("Block " ++ path.display ++ " allows at most " ++ toString maxItems.toNat
      ++ " item(s), got " ++ toString count.toNat)).atPath path

end Validation

open Validation

/-! ## The rules -/

/-- Report on the entries of an object. Null and unknown objects pass. -/
def reportObject (report : Keyed Value → Diagnostics) (path : Path) : Value → Diagnostics
  | .map es => report es
  | .null => []
  | .unknown => []
  | v => [expectedObject path v]

/-- Report on the objects nested in some mode; there is no report when the value is no
such collection. -/
def NestingMode.report? (mode : NestingMode) (report : Path → Value → Diagnostics) (path : Path)
    (v : Value) : Option Diagnostics :=
  match mode, v with
  | .single, v => some (report path v)
  | .list, .list xs => some (reportItems report path 0 xs)
  | .set, .list xs => some (reportElements report path xs)
  | .map, .map es => some (reportEntries report path es)
  | _, _ => none

/-- The shape that the objects nested in some mode come in. -/
def NestingMode.shape : NestingMode → Shape
  | .single => .object
  | .list => .list
  | .set => .set
  | .map => .map

/-- The provider alone decides the value. -/
def Flags.isReadOnly (f : Flags) : Bool := f.computed && !f.optional && !f.required

def reportUndeclared (declared : String → Bool) (path : Path) (es : Keyed Value) : Diagnostics :=
  ((Keyed.keys es).filter fun name => !declared name).map (unsupported path)

def hasKey {α : Type} (entries : Keyed α) (key : String) : Bool := (Keyed.get? entries key).isSome

variable {β : Type}

mutual
/-- What is wrong with the value of an attribute, which may be absent. -/
def Attribute.report : Attribute β → Path → Option Value → Diagnostics
  | ⟨type, flags, _, nested, _, _⟩, path, v =>
    match v with
    | none | some .null => if flags.required then [missingAttribute path] else []
    | some .unknown => []
    | some v =>
      if flags.isReadOnly then [readOnlyAttribute path]
      else
        match nested with
        | none => type.report path v
        | some ⟨mode, attributes⟩ =>
          let object (path : Path) (es : Keyed Value) : Diagnostics :=
            reportAttributes attributes path es ++ reportUndeclared (hasKey attributes) path es
          (mode.report? (fun path => reportObject (object path) path) path v).getD
            [wrongType path mode.shape.name v]

/-- What is wrong with the attributes of an object, in the order of their names. -/
def reportAttributes : List (String × Attribute β) → Path → Keyed Value → Diagnostics
  | [], _, _ => []
  | (name, a) :: rest, path, es =>
    a.report (path.field name) (Keyed.get? es name) ++ reportAttributes rest path es
end

/-- What is wrong with the number of blocks; the count is kept in 32 bits. -/
def reportCount (minItems maxItems : UInt32) (path : Path) (n : Nat) : Diagnostics :=
  let count := UInt32.ofNat n
  (if count < minItems then [tooFewBlocks path minItems count] else [])
    ++ (if 0 < maxItems && maxItems < count then [tooManyBlocks path maxItems count] else [])

/-- How many objects a collection holds; a single object is not counted. -/
def NestingMode.count? (mode : NestingMode) (v : Value) : Option Nat :=
  match mode, v with
  | .list, .list xs => some xs.length
  | .set, .list xs => some xs.length
  | .map, .map es => some es.length
  | _, _ => none

mutual
/-- What is wrong with the object of a block. -/
def Block.report : Block β → Path → Value → Diagnostics
  | ⟨attributes, blocks, _⟩, path, v =>
    reportObject (fun es =>
      reportAttributes attributes path es
        ++ reportBlocks blocks path es
        ++ reportUndeclared (fun name => hasKey attributes name || hasKey blocks name) path es)
      path v

/-- What is wrong with a nested block, which may be absent. -/
def NestedBlock.report : NestedBlock β → Path → Option Value → Diagnostics
  | ⟨block, mode, minItems, maxItems⟩, path, v =>
    match v with
    | none | some .null => if 0 < minItems then [missingBlock path minItems] else []
    | some .unknown => []
    | some v =>
      match mode.report? block.report path v with
      | none => [expectedBlock path mode.shape v]
      | some found =>
        found ++
          match mode.count? v with
          | some n => reportCount minItems maxItems path n
          | none => []

/-- What is wrong with the nested blocks of an object, in the order of their names. -/
def reportBlocks : List (String × NestedBlock β) → Path → Keyed Value → Diagnostics
  | [], _, _ => []
  | (name, b) :: rest, path, es =>
    b.report (path.field name) (Keyed.get? es name) ++ reportBlocks rest path es
end

namespace Schema

/-- What is wrong with a configuration. A null or unknown one passes. -/
def validate (s : Schema β) (v : Value) : Diagnostics := s.root.report .root v

/-- Nothing that is wrong with a configuration is an error. -/
def isValid (s : Schema β) (v : Value) : Bool := !(s.validate v).hasError

end Schema

end ProviderKit
