import Apidoc.Json.Shown

/-!
# `Apidoc.Settings.Problem`: what is wrong with a setting

A setting that cannot be used gives a problem: where it stands, what is wrong, and what was found
there. All problems of a set of settings are reported together.
-/

set_option autoImplicit false

namespace Apidoc.Settings

/-- What is wrong with a value. -/
inductive Fault where
  | notPath
  | notText
  | notList
  /-- The value must be a group of settings of the given name. -/
  | notGroup (name : String)
  | notSwitch
  | unknownSwitch
  | notInteger
  | notIntegerText
  | integerTooLong
  | fraction
  | notFinite
  | notNumber
  | notNumberText
  /-- The value must be greater than the bound. -/
  | notAbove (bound : Nat)
  /-- The value must be the bound or more. -/
  | below (bound : Nat)
  /-- The value has the right form but is not accepted. -/
  | refused (reason : String)
  deriving DecidableEq, Repr

namespace Fault

/-- The name under which a fault is documented. -/
def code : Fault → String
  | notPath => "path_type"
  | notText => "string_type"
  | notList => "list_type"
  | notGroup _ => "model_type"
  | notSwitch => "bool_type"
  | unknownSwitch => "bool_parsing"
  | notInteger => "int_type"
  | notIntegerText => "int_parsing"
  | integerTooLong => "int_parsing_size"
  | fraction => "int_from_float"
  | notFinite => "finite_number"
  | notNumber => "float_type"
  | notNumberText => "float_parsing"
  | notAbove _ => "greater_than"
  | below _ => "greater_than_equal"
  | refused _ => "value_error"

/-- What is wrong, in words. -/
def message : Fault → String
  | notPath => "Input is not a valid path for <class 'pathlib.Path'>"
  | notText => "Input should be a valid string"
  | notList => "Input should be a valid list"
  | notGroup name => s!"Input should be a valid dictionary or instance of {name}"
  | notSwitch => "Input should be a valid boolean"
  | unknownSwitch => "Input should be a valid boolean, unable to interpret input"
  | notInteger => "Input should be a valid integer"
  | notIntegerText => "Input should be a valid integer, unable to parse string as an integer"
  | integerTooLong => "Unable to parse input string as an integer, exceeded maximum size"
  | fraction => "Input should be a valid integer, got a number with a fractional part"
  | notFinite => "Input should be a finite number"
  | notNumber => "Input should be a valid number"
  | notNumberText => "Input should be a valid number, unable to parse string as a number"
  | notAbove bound => s!"Input should be greater than {bound}"
  | below bound => s!"Input should be greater than or equal to {bound}"
  | refused reason => s!"Value error, {reason}"

end Fault

/-- A fault, where it is, and the value that has it. -/
structure Problem where
  /-- The names and indices that lead to the value. -/
  location : List String
  fault : Fault
  /-- The value as messages show it. -/
  value : String
  /-- The name of the value's type. -/
  typeName : String
  deriving DecidableEq, Repr

namespace Problem

/-- The fault of a value. -/
def ofValue (location : List String) (value : Json) (fault : Fault) : Problem :=
  ⟨location, fault, Json.abridged value.shown, value.typeName⟩

/-- The location as one text. -/
def place (p : Problem) : String := ".".intercalate p.location

/-- Where faults are documented. -/
def manual : String := "https://errors.pydantic.dev/2.14/v/"

/-- The lines that report a problem. -/
def lines (p : Problem) : List String :=
  let code := p.fault.code
  [p.place,
    s!"  {p.fault.message} [type={code}, input_value={p.value}, input_type={p.typeName}]",
    s!"    For further information visit {manual}{code}"]

/-- The report of all problems of a group of settings. -/
def report (group : String) (problems : List Problem) : String :=
  let plural := if problems.length = 1 then "" else "s"
  let head := s!"{problems.length} validation error{plural} for {group}"
  "\n".intercalate (head :: problems.flatMap lines)

end Problem

end Apidoc.Settings
