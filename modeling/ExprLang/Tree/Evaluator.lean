import ExprLang.Tree.Basic
import ExprLang.Value

/-!
# The value of an expression

`Tree.evaluate` computes the value of a tree: operands from left to right, then the operator. It stops at the first
node that has no value.

* `RuntimeError` — a literal or an operator that cannot be applied, with its token;
* `Fault` — a run-time error, or an operand that is missing from the tree.
-/

namespace ExprLang

/-! ## Errors -/

/-- Why a node of a tree has no value. -/
inductive RuntimeCause where
  | unrecognizedLiteral
  | unrecognizedUnary
  /-- The operand of a minus sign is of the given type. -/
  | operandNotNumber (got : ValueType)
  /-- A binary operator does not apply to operands of these types. -/
  | unsupportedOperands (left right : ValueType)
  deriving DecidableEq, Repr

/-- A run-time error and the literal or operator it is at. -/
structure RuntimeError where
  token : Token
  cause : RuntimeCause
  deriving DecidableEq

namespace RuntimeError

/-- The wording of the error. -/
def message (e : RuntimeError) : Bytes :=
  match e.cause with
  | .unrecognizedLiteral => utf8 "Unrecognized literal."
  | .unrecognizedUnary => utf8 "Unrecognized unary operator."
  | .operandNotNumber got => utf8 "Operand must be a number; got " ++ utf8 got.name ++ utf8 "."
  | .unsupportedOperands left right =>
    utf8 "Unsupported operands for '" ++ e.token.lexeme ++ utf8 "': " ++ utf8 left.name ++ utf8 " and " ++
      utf8 right.name ++ utf8 "."

end RuntimeError

/-- Why an evaluation gives no value. -/
inductive Fault where
  | runtime (e : RuntimeError)
  /-- An operand is missing from the tree. -/
  | missingOperand
  deriving DecidableEq

/-! ## Operators -/

namespace Value

/-- The value of a literal. -/
def ofLiteral (t : Token) : Except RuntimeError Value :=
  match t.kind with
  | .number => .ok (.number t.number)
  | .string => .ok (.string t.text)
  | .kwTrue => .ok (.boolean true)
  | .kwFalse => .ok (.boolean false)
  | .kwNil => .ok .nil
  | _ => .error ⟨t, .unrecognizedLiteral⟩

/-- A unary operator applied to a value. -/
def applyUnary (op : Token) (v : Value) : Except RuntimeError Value :=
  match op.kind with
  | .minus =>
    match v with
    | .number x => .ok (.number (-x))
    | v => .error ⟨op, .operandNotNumber v.type⟩
  | .bang => .ok (.boolean !v.truthy)
  | _ => .error ⟨op, .unrecognizedUnary⟩

/-- A binary operator on numbers. -/
def onNumbers? (op : Kind) (x y : Float) : Option Value :=
  match op with
  | .plus => some (.number (x + y))
  | .minus => some (.number (x - y))
  | .star => some (.number (x * y))
  | .slash => some (.number (x / y))
  | .greater => some (.boolean (y < x))
  | .greaterEqual => some (.boolean (y ≤ x))
  | .less => some (.boolean (x < y))
  | .lessEqual => some (.boolean (x ≤ y))
  | .equalEqual => some (.boolean (x == y))
  | .bangEqual => some (.boolean (x != y))
  | _ => none

/-- A binary operator on strings: they can only be joined. -/
def onStrings? (op : Kind) (x y : Bytes) : Option Value :=
  match op with
  | .plus => some (.string (x ++ y))
  | _ => none

/-- A binary operator on operands of which only equality is known. -/
def onEquality? (op : Kind) (same : Bool) : Option Value :=
  match op with
  | .equalEqual => some (.boolean same)
  | .bangEqual => some (.boolean !same)
  | _ => none

/-- A binary operator applied to two values. -/
def applyBinary (x : Value) (op : Token) (y : Value) : Except RuntimeError Value :=
  let result :=
    match x, y with
    | .number x, .number y => onNumbers? op.kind x y
    | .string x, .string y => onStrings? op.kind x y
    | .boolean x, .boolean y => onEquality? op.kind (x == y)
    | .nil, .nil => onEquality? op.kind true
    | _, _ => none
  match result with
  | some v => .ok v
  | none => .error ⟨op, .unsupportedOperands x.type y.type⟩

end Value

/-! ## Evaluation -/

namespace Tree

/-- The value of a tree. -/
def evaluate : Tree → Except Fault Value
  | .missing => .error .missingOperand
  | .literalAt _ t => (Value.ofLiteral t).mapError .runtime
  | .grouping _ x => x.evaluate
  | .unaryAt _ op x =>
    match x.evaluate with
    | .ok v => (Value.applyUnary op v).mapError .runtime
    | .error e => .error e
  | .binaryAt _ x op y =>
    match x.evaluate with
    | .ok v =>
      match y.evaluate with
      | .ok w => (Value.applyBinary v op w).mapError .runtime
      | .error e => .error e
    | .error e => .error e

/-- The line that shows the value of a tree. -/
def interpret (x : Tree) : Except Fault Bytes := x.evaluate.map Value.shown

end Tree

end ExprLang
