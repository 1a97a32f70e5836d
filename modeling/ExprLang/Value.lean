import ExprLang.Token.Basic

/-!
# Values

The values of expressions, their types, which of them count as true, and how they are displayed. `Value.absent` is the
value of nothing: it has no type of the language and no display form.
-/

namespace ExprLang

/-- A value of the language. -/
inductive Value where
  | number (x : Float)
  | string (s : Bytes)
  | boolean (b : Bool)
  | nil
  | absent
  deriving DecidableEq

/-- The types of values. -/
inductive ValueType where
  | number
  | string
  | boolean
  | nil
  | unknown
  deriving DecidableEq, Repr

namespace ValueType

/-- The name of a type in messages. -/
def name : ValueType → String
  | number => "number"
  | string => "string"
  | boolean => "boolean"
  | nil => "nil"
  | unknown => "unknown"

end ValueType

namespace Value

/-- The type of a value. -/
def type : Value → ValueType
  | .number _ => .number
  | .string _ => .string
  | .boolean _ => .boolean
  | .nil => .nil
  | .absent => .unknown

/-- Whether a value counts as true: all but `false` and `nil` do. -/
def truthy : Value → Bool
  | .boolean b => b
  | .nil => false
  | _ => true

/-- Displayed numbers have no exponent. -/
def numberStyle : NumberStyle :=
  { plainFrom := none, plainBelow := none, exponentDigits := 2, infinity := "inf", negativeInfinity := "-inf",
    notANumber := "NaN" }

/-- The display form of a value, if it has one. -/
def display? : Value → Option Bytes
  | .number x => some (numberStyle.format x)
  | .string s => some s
  | .boolean b => some (utf8 (if b then "true" else "false"))
  | .nil => some (utf8 "nil")
  | .absent => none

/-- The display form of a value, empty if it has none. -/
def display (v : Value) : Bytes := v.display?.getD []

/-- The line that shows a value. -/
def shown (v : Value) : Bytes := v.display ++ utf8 "\n"

end Value

end ExprLang
