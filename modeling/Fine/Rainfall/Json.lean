import Mathlib

/-!
# Values of a replay

The values that Python's `json` module reads, without its non-numbers and infinities. Python counts
`True` and `False` among the integers and compares numbers by value.
-/

namespace Fine.Rainfall

/-- A value of a JSON text. -/
inductive Json where
  | null
  | bool (value : Bool)
  | int (value : Int)
  | real (value : Rat)
  | text (value : String)
  | array (items : List Json)
  | object (fields : List (String × Json))

namespace Json

/-- Python's `dict.get`: `null` where there is no such key. -/
def get (value : Json) (key : String) : Json :=
  match value with
  | .object fields => (fields.lookup key).getD .null
  | _ => .null

/-- An object has a key, whatever stands under it. -/
def has (value : Json) (key : String) : Bool :=
  match value with
  | .object fields => (fields.lookup key).isSome
  | _ => false

/-- The keys of an object are these, in any order. -/
def hasKeys (value : Json) (keys : List String) : Bool :=
  match value with
  | .object fields =>
    fields.all (fun field => keys.contains field.1) && keys.all fun key => value.has key
  | _ => false

/-- `isinstance(value, dict)`. -/
def isObject : Json → Bool
  | .object _ => true
  | _ => false

/-- `isinstance(value, str)`. -/
def isText : Json → Bool
  | .text _ => true
  | _ => false

/-- `isinstance(value, list)`. -/
def isArray : Json → Bool
  | .array _ => true
  | _ => false

/-- `isinstance(value, int)`, which a truth value is. -/
def isInt : Json → Bool
  | .int _ => true
  | .bool _ => true
  | _ => false

def isHashable : Json → Bool
  | .array _ => false
  | .object _ => false
  | _ => true

def str : Json → String
  | .text value => value
  | _ => ""

def integer : Json → Int
  | .int value => value
  | .bool true => 1
  | _ => 0

def items : Json → List Json
  | .array items => items
  | _ => []

/-- A text that is not empty. -/
def isName (value : Json) : Bool := value.isText && value.str != ""

def isNatural (value : Json) : Bool := value.isInt && decide (0 ≤ value.integer)

/-- `value == expected` for a text. -/
def isString (value : Json) (expected : String) : Bool := value.isText && value.str == expected

/-- `value == expected` for an integer. -/
def isNumber (value : Json) (expected : Int) : Bool :=
  match value with
  | .int found => found == expected
  | .bool found => (if found then 1 else 0) == expected
  | .real found => found == expected
  | _ => false

/-- `value is True`. -/
def isTrue : Json → Bool
  | .bool value => value
  | _ => false

/-- `value is None`. -/
def isNull : Json → Bool
  | .null => true
  | _ => false

/-- `value in keys` for a set of texts; lists and objects are never in it. -/
def isIn (value : Json) (keys : List String) : Bool := value.isText && keys.contains value.str

variable {value : Json}

@[simp] theorem isIn_iff {keys : List String} :
    value.isIn keys = true ↔ value.isText = true ∧ value.str ∈ keys := by
  simp [isIn]

theorem eq_text_of_isText (isText : value.isText = true) : value = .text value.str := by
  cases value <;> first | rfl | cases isText

@[simp] theorem isString_iff {expected : String} :
    value.isString expected = true ↔ value = .text expected := by
  cases value <;> simp [isString, isText, str]

theorem isNumber_of_isInt (isInt : value.isInt = true) : value.isNumber value.integer = true := by
  cases value with
  | int found => simp [isNumber, integer]
  | bool found => cases found <;> simp [isNumber, integer]
  | _ => cases isInt

theorem isNumber_unique {first second : Int} (isFirst : value.isNumber first = true)
    (isSecond : value.isNumber second = true) : first = second := by
  cases value with
  | int found | bool found => simp_all [isNumber]
  | real found =>
    simp only [isNumber, beq_iff_eq] at isFirst isSecond
    exact Rat.intCast_injective (isFirst.symm.trans isSecond)
  | _ => cases isFirst

theorem isText_of_isName (isName : value.isName = true) : value.isText = true :=
  (Bool.and_eq_true_iff.mp isName).1

theorem isHashable_of_isText (isText : value.isText = true) : value.isHashable = true := by
  cases value <;> first | rfl | cases isText

end Json

end Fine.Rainfall
