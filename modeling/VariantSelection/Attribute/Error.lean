/-
What can go wrong with attributes, and how each fault reads.
-/
import VariantSelection.Attribute.Value

namespace VariantSelection

/-- Why an entry of a precedence list is refused. -/
inductive PrecedenceFault
  | unregistered
  | repeated
  deriving DecidableEq

/-- Why a descriptor describes no rules. -/
inductive DescriptorFault
  | missingAccepts
  | strayAccepts
  | missingPreferred
  | strayPreferred
  deriving DecidableEq

/-- A fault of a registration, a look-up or a conversion. -/
inductive AttributeError
  | duplicate (name : String) (registered requested : ValueType)
  | notFound (name : String)
  | coercion (name text : String) (expected : ValueType)
  | invalidPrecedence (name : String) (fault : PrecedenceFault)
  | invalidDescriptor (name : String) (fault : DescriptorFault)
  deriving DecidableEq

def PrecedenceFault.message : PrecedenceFault → String
  | .unregistered => "attribute is not registered"
  | .repeated => "listed more than once"

def DescriptorFault.message : DescriptorFault → String
  | .missingAccepts => "compatibility = \"accepts\" requires an `accepts` table"
  | .strayAccepts => "an `accepts` table requires compatibility = \"accepts\""
  | .missingPreferred => "disambiguation = \"ordered\" requires a `preferred` list"
  | .strayPreferred => "a `preferred` list requires disambiguation = \"ordered\""

/-- The text shown for a fault. -/
def AttributeError.message : AttributeError → String
  | .duplicate name registered requested =>
    s!"attribute '{name}' is already registered with type {registered.text} — cannot redefine it as "
      ++ requested.text
  | .notFound name => s!"unknown attribute '{name}'"
  | .coercion name text expected =>
    s!"attribute '{name}' expects a {expected.text} value, got '{text}'"
  | .invalidPrecedence name fault =>
    s!"invalid attribute precedence entry '{name}': {fault.message}"
  | .invalidDescriptor name fault => s!"invalid attribute descriptor '{name}': {fault.message}"

/-- The value as one of type `t`, for the attribute `name`. -/
def Value.coerce (v : Value) (name : String) (t : ValueType) : Except AttributeError Value :=
  match v.coerce? t with
  | some w => .ok w
  | none => .error (.coercion name v.text t)

end VariantSelection
