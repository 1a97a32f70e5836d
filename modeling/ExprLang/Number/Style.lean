import ExprLang.Number.Shortest

/-!
# Writing numbers

A `NumberStyle` says which numbers are written with an exponent and how those that are not numbers are spelt;
`NumberStyle.format` writes a float in that style, with the digits of `Decimal.shortest`.
-/

namespace ExprLang

/-- How floats are written. With the number as `d.ddd * 10 ^ x`, it is written without an exponent iff `x` is at least
`plainFrom` and below `plainBelow`, where these are given. -/
structure NumberStyle where
  plainFrom : Option Int
  plainBelow : Option Int
  /-- The least number of digits of an exponent. -/
  exponentDigits : Nat
  infinity : String
  negativeInfinity : String
  notANumber : String

namespace NumberStyle

/-- The digit zero. -/
def zeroDigit : UInt8 := 48

/-- Digits without an exponent, `point` of them before the decimal point. -/
def plain (digits : Bytes) (point : Int) : Bytes :=
  if point ≤ 0 then utf8 "0." ++ List.replicate (-point).toNat zeroDigit ++ digits
  else
    let p := point.toNat
    if digits.length ≤ p then digits ++ List.replicate (p - digits.length) zeroDigit
    else digits.take p ++ utf8 "." ++ digits.drop p

/-- An exponent with its sign and at least `width` digits. -/
def exponentPart (width : Nat) (x : Int) : Bytes :=
  let numeral := Bytes.ofNat x.natAbs
  utf8 (if x < 0 then "e-" else "e+") ++ List.replicate (width - numeral.length) zeroDigit ++ numeral

/-- Digits with one before the decimal point, and an exponent. -/
def scientific (width : Nat) (digits : Bytes) (x : Int) : Bytes :=
  digits.take 1 ++ (if digits.length ≤ 1 then [] else utf8 "." ++ digits.drop 1) ++ exponentPart width x

/-- Whether a number `d.ddd * 10 ^ x` is written without an exponent. -/
def isPlain (style : NumberStyle) (x : Int) : Bool :=
  style.plainFrom.all (· ≤ x) && style.plainBelow.all (x < ·)

/-- The magnitude of a finite float. -/
def formatMagnitude (style : NumberStyle) (bits : Nat) : Bytes :=
  if bits = 0 then [zeroDigit]
  else
    let d := Decimal.shortest bits
    let all := Bytes.ofNat d.digits
    let digits := all.dropTrailing (· == zeroDigit)
    let point := d.exponent + all.length
    if style.isPlain (point - 1) then plain digits point else scientific style.exponentDigits digits (point - 1)

/-- The text of a float. -/
def format (style : NumberStyle) (x : Float) : Bytes :=
  let bits := Binary64.magnitude x
  if Binary64.infinity < bits then utf8 style.notANumber
  else if bits = Binary64.infinity then
    utf8 (if Binary64.isNegative x then style.negativeInfinity else style.infinity)
  else (if Binary64.isNegative x then utf8 "-" else []) ++ style.formatMagnitude bits

end NumberStyle

end ExprLang
