import ProviderKit.Function.Error
import ProviderKit.Schema.Codec

-- Functions that a provider offers: what they take and give, and the checking of a call's
-- arguments before the function runs.

namespace ProviderKit

/-! ## Definitions -/

structure Parameter where
  name : String
  type : AttributeType
  allowNull : Bool
  allowUnknown : Bool
  description : Option String

structure FunctionDefinition where
  parameters : List Parameter
  /-- Takes any number of arguments after those of the other parameters. -/
  variadic : Option Parameter
  result : AttributeType
  summary : Option String
  description : Option String
  deprecation : Option String

/-- The definition without parameters that gives any value. -/
def FunctionDefinition.empty : FunctionDefinition := ⟨[], none, .dynamic, none, none, none⟩

/-! ## Arguments -/

/-- The arguments of a call, once they are checked. -/
structure Arguments where
  values : List Value
  variadic : List Value

namespace FunctionDefinition

/-- The parameter of the argument at a position. -/
def parameter? (d : FunctionDefinition) (position : Nat) : Option Parameter :=
  d.parameters[position]?.or d.variadic

def wrongCount (expectation : String) (expected given : Nat) : FuncError :=
  .ofCall
    ("Unexpected Function Arguments Data: The provider received an unexpected number of function arguments for the given function definition. This is always an issue in the Hemmer plugin framework or Hemmer itself.\n\n"
      ++ expectation ++ ": " ++ toString expected ++ "\nGiven function arguments: "
      ++ toString given)

def refusedNull (position : Nat) (p : Parameter) : FuncError :=
  .ofArgument position
    ("Invalid Null Function Argument: Parameter " ++ Text.quoted p.name
      ++ " does not accept null values.")

def refusedUnknown (position : Nat) (p : Parameter) : FuncError :=
  .ofArgument position
    ("Invalid Unknown Function Argument: Parameter " ++ Text.quoted p.name
      ++ " does not accept unknown values.")

/-- Why an argument is refused at its position, if it is. -/
def refusal (d : FunctionDefinition) (position : Nat) (argument : Value) : Option FuncError :=
  match d.parameter? position with
  | none => none
  | some p =>
    if argument.isNull && !p.allowNull then some (refusedNull position p)
    else if argument.isUnknown && !p.allowUnknown then some (refusedUnknown position p)
    else none

/-- Why arguments are refused, in their order. -/
def refusals (d : FunctionDefinition) : Nat → List Value → List FuncError
  | _, [] => []
  | position, a :: rest => (d.refusal position a).toList ++ d.refusals (position + 1) rest

/-- Check the arguments of a call and deal them to the parameters. -/
def arguments (d : FunctionDefinition) (given : List Value) : Except FuncError Arguments :=
  let expected := d.parameters.length
  if d.variadic.isNone ∧ given.length ≠ expected then
    .error (wrongCount "Expected function arguments" expected given.length)
  else if given.length < expected then
    .error (wrongCount "Expected minimum function arguments" expected given.length)
  else
    match FuncError.joinAll (d.refusals 0 given) with
    | some e => .error e
    | none => .ok ⟨given.take expected, given.drop expected⟩

end FunctionDefinition

/-! ## Documents -/

def Parameter.toJson (p : Parameter) : Json :=
  .object
    ([("allow_null", .bool p.allowNull), ("allow_unknown", .bool p.allowUnknown)]
      ++ Json.entryIf "description" .string p.description
      ++ [("name", .string p.name), ("type", p.type.toJson)])

def FunctionDefinition.toJson (d : FunctionDefinition) : Json :=
  .object
    (Json.entryIf "deprecation_message" .string d.deprecation
      ++ Json.entryIf "description" .string d.description
      ++ [("parameters", .array (d.parameters.map Parameter.toJson)), ("return", d.result.toJson)]
      ++ Json.entryIf "summary" .string d.summary
      ++ Json.entryIf "variadic_parameter" Parameter.toJson d.variadic)

end ProviderKit
