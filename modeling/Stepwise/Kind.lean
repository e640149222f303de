/-!
# `Stepwise.Kind`: kinds of values and demands on them

Every value has one `Kind`. A consumer of a value states a `Want`, which may cover several kinds, and a
`Demand` adds whether a reference is replaced by the value of its slot before it is tested.
-/

set_option autoImplicit false

namespace Stepwise

/-- The kind of a value. -/
inductive Kind where
  | null
  | bool
  | int
  | float
  | string
  | list
  | object
  | function
  | reference
deriving DecidableEq, Repr, Inhabited

/-- The word for a kind. -/
def Kind.name : Kind → String
  | null => "null"
  | bool => "bool"
  | int => "int"
  | float => "float"
  | string => "string"
  | list => "list"
  | object => "object"
  | function => "function"
  | reference => "variable"

/-- What a consumer wants of a value. -/
inductive Want where
  | any
  | numeric
  | integral
  | string
  | list
  | object
  | container
  | function
  | reference
deriving DecidableEq, Repr, Inhabited

namespace Want

/-- The word for a want in an error message. -/
def name : Want → String
  | any => "any"
  | numeric => "numeric"
  | integral => "integral"
  | string => "string"
  | list => "list"
  | object => "object"
  | container => "container"
  | function => "function"
  | reference => "variable"

/-- Whether a want covers a kind. -/
def covers : Want → Kind → Bool
  | any, _ => true
  | numeric, k => k == .bool || k == .int || k == .float
  | integral, k => k == .bool || k == .int
  | string, k => k == .string
  | list, k => k == .list
  | object, k => k == .object
  | container, k => k == .list || k == .object
  | function, k => k == .function
  | reference, k => k == .reference

/-- All wants, the loosest first. -/
def all : List Want :=
  [any, numeric, integral, string, list, object, container, function, reference]

end Want

/-- What a consumer demands of an argument: what it must be, and whether a reference is first
replaced by the value of its slot. -/
structure Demand where
  want : Want
  deref : Bool
deriving DecidableEq, Repr, Inhabited

namespace Demand

/-- A value that must be as wanted after a reference is read. -/
def value (want : Want) : Demand := ⟨want, true⟩

/-- Any value. -/
def any : Demand := value .any

/-- The reference itself, to be written through. -/
def target : Demand := ⟨.reference, false⟩

end Demand

end Stepwise
