import ProviderKit.Schema.Basic

-- Building schemas by hand: the usual attributes, blocks in each nesting mode, and
-- changes to one part of what is built already.

namespace ProviderKit

/-! ## Flags -/

namespace Flags

/-- The value must be configured. -/
def requiredOnly : Flags := ⟨true, false, false, false⟩

/-- The value may be configured. -/
def optionalOnly : Flags := ⟨false, true, false, false⟩

/-- The provider decides the value. -/
def computedOnly : Flags := ⟨false, false, true, false⟩

/-- The value may be configured; else the provider decides it. -/
def optionalComputed : Flags := ⟨false, true, true, false⟩

/-- Nothing is said about the use. -/
def unset : Flags := ⟨false, false, false, false⟩

end Flags

/-! ## Attributes -/

namespace Attribute

def make (type : AttributeType) (flags : Flags) : Attribute Unit :=
  ⟨type, flags, none, none, none, ()⟩

/-- An attribute that holds objects with attributes of their own. -/
def ofNested (mode : NestingMode) (attributes : Keyed (Attribute Unit)) (flags : Flags) :
    Attribute Unit :=
  { make .dynamic flags with nested := some ⟨mode, attributes⟩ }

def requiredString : Attribute Unit := make .string .requiredOnly
def optionalString : Attribute Unit := make .string .optionalOnly
def computedString : Attribute Unit := make .string .computedOnly
def optionalComputedString : Attribute Unit := make .string .optionalComputed
def requiredInt64 : Attribute Unit := make .int64 .requiredOnly
def optionalInt64 : Attribute Unit := make .int64 .optionalOnly
def computedInt64 : Attribute Unit := make .int64 .computedOnly
def requiredBool : Attribute Unit := make .bool .requiredOnly
def optionalBool : Attribute Unit := make .bool .optionalOnly
def computedBool : Attribute Unit := make .bool .computedOnly

variable {β : Type}

def withDescription (a : Attribute β) (text : String) : Attribute β :=
  { a with description := some text }

def withDefault (a : Attribute β) (value : Value) : Attribute β :=
  { a with default := some value }

def markSensitive (a : Attribute β) : Attribute β :=
  { a with flags := { a.flags with sensitive := true } }

end Attribute

/-! ## Blocks and schemas -/

namespace Block

variable {β : Type}

def withAttribute (b : Block β) (name : String) (a : Attribute β) : Block β :=
  { b with attributes := Keyed.insert b.attributes name a }

def withBlock (b : Block β) (name : String) (nested : NestedBlock β) : Block β :=
  { b with blocks := Keyed.insert b.blocks name nested }

def withDescription (b : Block β) (text : String) : Block β :=
  { b with description := some text }

end Block

namespace NestedBlock

variable {β : Type}

/-- Objects of a block nested in some mode. A single block may stand once; of the others
there is no limit. -/
def ofMode (mode : NestingMode) (b : Block β) : NestedBlock β :=
  ⟨b, mode, 0, if mode = .single then 1 else 0⟩

def withMinItems (b : NestedBlock β) (n : UInt32) : NestedBlock β := { b with minItems := n }

def withMaxItems (b : NestedBlock β) (n : UInt32) : NestedBlock β := { b with maxItems := n }

end NestedBlock

namespace Schema

variable {β : Type}

def ofVersion (version : Int) : Schema β := ⟨version, .empty⟩

def withAttribute (s : Schema β) (name : String) (a : Attribute β) : Schema β :=
  { s with root := s.root.withAttribute name a }

def withBlock (s : Schema β) (name : String) (b : NestedBlock β) : Schema β :=
  { s with root := s.root.withBlock name b }

end Schema

end ProviderKit
