import ExprLang.Text.Bytes
import ExprLang.Number.Binary64

/-!
# Decimal numbers

* `Decimal` — the numbers `digits * 10 ^ exponent`;
* `Decimal.ofLexeme` — the number that a run of digits with an optional fraction spells;
* `Decimal.toFloat` — the nearest float.
-/

namespace ExprLang

/-- The number `digits * 10 ^ exponent`. -/
structure Decimal where
  digits : Nat
  exponent : Int
  deriving DecidableEq, Repr

namespace Decimal

/-- Numerator of the number as a fraction. -/
def num (d : Decimal) : Nat := d.digits * Nat.pow 10 d.exponent.toNat

/-- Denominator of the number as a fraction. -/
def den (d : Decimal) : Nat := Nat.pow 10 (-d.exponent).toNat

/-- The bits of the float nearest to the number. -/
def roundBits (d : Decimal) : Nat := Binary64.round d.num d.den

/-- The float nearest to the number, infinity if it is too large. -/
def toFloat (d : Decimal) : Float := Binary64.ofMagnitude d.roundBits

/-- The number that a string of decimal digits spells. -/
def ofDigits (s : Bytes) : Nat := s.foldl (fun n b => 10 * n + (b.toNat - 48)) 0

/-- The number that digits, or digits, a point and digits, spell. -/
def ofLexeme (s : Bytes) : Decimal :=
  let whole := s.takeWhile Bytes.isDigit
  let fraction := (s.dropWhile Bytes.isDigit).drop 1
  ⟨ofDigits (whole ++ fraction), -(fraction.length : Int)⟩

end Decimal

end ExprLang
