/-!
# Magnitudes of 64-bit floats

A float without its sign is a natural number below `2 ^ 63`, its bits. The finite ones are `mantissa * 2 ^ exponent`
with `bits = (exponent + 1074) * 2 ^ 52 + mantissa`, so that the order of the bits is the order of the magnitudes, and
adding one to the bits goes to the next magnitude, across powers of two and into infinity.

* `Binary64.mantissa`, `Binary64.exponent` — the two parts of a finite magnitude;
* `Binary64.round num den` — the magnitude nearest to `num / den`, a tie going to the even mantissa;
* `Binary64.magnitude`, `Binary64.isNegative` — the parts of a `Float`.
-/

namespace ExprLang.Binary64

/-- The bits of infinity; those above it are not numbers. -/
def infinity : Nat := 0x7FF0000000000000

/-- The number `2 ^ 52` of magnitudes from one power of two to the next. -/
def binade : Nat := 0x10000000000000

/-- The bit `2 ^ 63` of the sign. -/
def signBit : Nat := 0x8000000000000000

/-- The exponent of the last place of a finite magnitude. -/
def exponent (bits : Nat) : Int := (max (bits / binade) 1 : Nat) - 1075

/-- The multiple of the last place that a finite magnitude is. -/
def mantissa (bits : Nat) : Nat := bits - (max (bits / binade) 1 - 1) * binade

/-! ## Rounding -/

/-- The integer nearest to `num / den`, a tie going to the even one. -/
def divRound (num den : Nat) : Nat :=
  let q := num / den
  let r := num % den
  if 2 * r < den ∨ (2 * r = den ∧ q % 2 = 0) then q else q + 1

/-- The exponent of the last place at `num / den`: the quotient is at least `2 ^ 52` and below `2 ^ 53` in units of that
place, unless the place is the smallest there is. -/
def lastPlace (num den : Nat) : Int :=
  let k : Int := (num.log2 : Int) - (den.log2 : Int)
  let q := if num <<< (-k).toNat < den <<< k.toNat then k - 53 else k - 52
  max q (-1074)

/-- The bits of the magnitude nearest to `num / den`; from the midpoint above the largest finite one on, infinity. -/
def round (num den : Nat) : Nat :=
  if num = 0 then 0
  else
    let q := lastPlace num den
    min infinity ((q + 1074).toNat * binade + divRound (num <<< (-q).toNat) (den <<< q.toNat))

/-! ## Floats -/

/-- The bits of a float without its sign. -/
def magnitude (x : Float) : Nat := x.toBits.toNat % signBit

/-- Whether the sign bit of a float is set, as it is for `-0`. -/
def isNegative (x : Float) : Bool := signBit ≤ x.toBits.toNat

/-- The float with the given magnitude and no sign. -/
def ofMagnitude (bits : Nat) : Float := Float.ofBits (UInt64.ofNat bits)

end ExprLang.Binary64
