import ExprLang.Number.Decimal

/-!
# The shortest decimal that reads back

`Decimal.shortest bits` is, for the bits of a finite magnitude, a decimal that rounds to it: among those with the fewest
digits the nearest one, a tie going to the even last digit. For `n = 1, …, 17` digits only the two neighbours of the
magnitude on the grid of that many digits need to be tried. Where none of them rounds back, which does not happen, the
exact decimal expansion is taken instead.
-/

namespace ExprLang.Decimal

/-- Numerator of a finite magnitude as a fraction. -/
def exactNum (bits : Nat) : Nat := Binary64.mantissa bits <<< (Binary64.exponent bits).toNat

/-- Denominator of a finite magnitude as a fraction. -/
def exactDen (bits : Nat) : Nat := 1 <<< (-Binary64.exponent bits).toNat

/-- The decimal expansion of a finite magnitude, all digits of it. -/
def exact (bits : Nat) : Decimal :=
  let q := Binary64.exponent bits
  if 0 ≤ q then ⟨Binary64.mantissa bits <<< q.toNat, 0⟩
  else ⟨Binary64.mantissa bits * Nat.pow 5 (-q).toNat, q⟩

/-- The number of decimal digits of a natural number; zero has one. -/
def digitCount (n : Nat) : Nat := (Bytes.ofNat n).length

/-- The least `k` with `num / den < 10 ^ k`, for a positive quotient. Below one it is found from the digits of
`den / num`: with `d` of them the quotient is above `10 ^ (-d)` and at most `10 ^ (1 - d)`. -/
def integerDigits (num den : Nat) : Int :=
  if den ≤ num then digitCount (num / den)
  else
    let d := digitCount (den / num)
    if num * Nat.pow 10 (d - 1) < den then 1 - (d : Int) else 2 - (d : Int)

/-- The nearer of the neighbours of `num / den` on the grid of the multiples of `10 ^ g` that round to `bits`. -/
def neighbour? (bits num den : Nat) (g : Int) : Option Decimal :=
  let top := num * Nat.pow 10 (-g).toNat
  let unit := den * Nat.pow 10 g.toNat
  let below : Decimal := ⟨top / unit, g⟩
  let above : Decimal := ⟨top / unit + 1, g⟩
  let rest := top % unit
  match below.roundBits == bits, above.roundBits == bits with
  | true, true =>
    some (if 2 * rest < unit ∨ (2 * rest = unit ∧ below.digits % 2 = 0) then below else above)
  | true, false => some below
  | false, true => some above
  | false, false => none

/-- The shortest decimal that rounds to the finite magnitude `bits`. -/
def shortest (bits : Nat) : Decimal :=
  let num := exactNum bits
  let den := exactDen bits
  let k := integerDigits num den
  ((List.range 17).findSome? fun n => neighbour? bits num den (k - (n + 1 : Nat))).getD (exact bits)

end ExprLang.Decimal
