import ExprLang.Number.Shortest
import Mathlib.Algebra.Order.Field.Power
import Mathlib.Data.Rat.Cast.Order
import Mathlib.Tactic.FieldSimp
import Mathlib.Tactic.Linarith
import Mathlib.Tactic.Positivity
import Mathlib.Tactic.Ring

/-!
# Rounding and reading back

* `Binary64.round_congr` — what a fraction rounds to depends on its quotient only;
* `Decimal.value` — the number that a decimal is, and `Decimal.roundBits_congr` — decimals of one value round alike;
* `Decimal.round_exact` — a finite magnitude rounds to itself;
* `Decimal.roundBits_shortest` — the shortest decimal of a finite magnitude rounds to it.
-/

namespace ExprLang

namespace Binary64

/-! ## Division -/

theorem divRound_mul_right (n d : Nat) {k : Nat} (hk : 0 < k) : divRound (n * k) (d * k) = divRound n d := by
  have hlt : 2 * (n % d * k) < d * k ↔ 2 * (n % d) < d := by
    rw [← Nat.mul_assoc]
    exact Nat.mul_lt_mul_right hk
  have heq : 2 * (n % d * k) = d * k ↔ 2 * (n % d) = d := by
    rw [← Nat.mul_assoc]
    exact Nat.mul_left_inj hk.ne'
  simp only [divRound, Nat.mul_div_mul_right _ _ hk, Nat.mul_mod_mul_right, hlt, heq]

theorem divRound_congr {n d n' d' : Nat} (hd : 0 < d) (hd' : 0 < d') (h : n * d' = n' * d) :
    divRound n d = divRound n' d' := by
  rw [← divRound_mul_right n d hd', h, Nat.mul_comm d d', divRound_mul_right n' d' hd]

theorem divRound_one (n : Nat) : divRound n 1 = n := by simp [divRound, Nat.mod_one]

/-! ## The last place -/

/-- `q` is the exponent of the last place at `r`. -/
def IsLastPlace (r : ℚ) (q : ℤ) : Prop :=
  -1074 ≤ q ∧ r < 2 ^ (q + 53) ∧ (q = -1074 ∨ 2 ^ (q + 52) ≤ r)

theorem IsLastPlace.unique {r : ℚ} {q q' : ℤ} (h : IsLastPlace r q) (h' : IsLastPlace r q') : q = q' := by
  -- of two last places the higher one is above the least there is, and `r` is at least `2 ^ 52` of its units
  have below : ∀ {q q' : ℤ}, IsLastPlace r q → IsLastPlace r q' → ¬ q < q' := by
    rintro q q' ⟨hq, hlt, -⟩ ⟨-, -, hq' | hle⟩ hqq
    · omega
    · have : (2 : ℚ) ^ (q + 53) ≤ 2 ^ (q' + 52) := zpow_le_zpow_right₀ (by norm_num) (by omega)
      linarith
  have := below h h'
  have := below h' h
  omega

theorem zpow_eq_div {a : ℚ} (ha : a ≠ 0) (k : ℤ) : a ^ k = a ^ k.toNat / a ^ (-k).toNat := by
  rw [← zpow_natCast, ← zpow_natCast, ← zpow_sub₀ ha]
  congr 1
  omega

theorem shiftLeft_lt_iff {n d : Nat} (hd : 0 < d) (k : ℤ) :
    n <<< (-k).toNat < d <<< k.toNat ↔ (n / d : ℚ) < 2 ^ k := by
  have hd' : (0 : ℚ) < d := by exact_mod_cast hd
  rw [zpow_eq_div (by norm_num), div_lt_div_iff₀ hd' (by positivity), Nat.shiftLeft_eq, Nat.shiftLeft_eq,
    mul_comm _ (d : ℚ)]
  exact_mod_cast Iff.rfl

theorem isLastPlace_lastPlace {n d : Nat} (hn : 0 < n) (hd : 0 < d) : IsLastPlace (n / d : ℚ) (lastPlace n d) := by
  have hd' : (0 : ℚ) < d := by exact_mod_cast hd
  let k : ℤ := n.log2 - d.log2
  have hlow : (2 : ℚ) ^ (k - 1) ≤ n / d := by
    have hn1 : (2 : ℚ) ^ n.log2 ≤ n := by exact_mod_cast Nat.log2_self_le hn.ne'
    have hd1 : (d : ℚ) ≤ 2 ^ (d.log2 + 1) := by exact_mod_cast Nat.lt_log2_self.le
    have : (2 : ℚ) ^ (k - 1) = 2 ^ n.log2 / 2 ^ (d.log2 + 1) := by
      rw [← zpow_natCast, ← zpow_natCast, ← zpow_sub₀ (by norm_num)]
      congr 1
      push_cast
      omega
    rw [this]
    gcongr
  have hhigh : (n / d : ℚ) < 2 ^ (k + 1) := by
    have hn1 : (n : ℚ) < 2 ^ (n.log2 + 1) := by exact_mod_cast Nat.lt_log2_self
    have hd1 : (2 : ℚ) ^ d.log2 ≤ d := by exact_mod_cast Nat.log2_self_le hd.ne'
    have : (2 : ℚ) ^ (k + 1) = 2 ^ (n.log2 + 1) / 2 ^ d.log2 := by
      rw [← zpow_natCast, ← zpow_natCast, ← zpow_sub₀ (by norm_num)]
      congr 1
      push_cast
      omega
    rw [this]
    gcongr
  -- the place before it is limited from below
  obtain ⟨q, hq, hle, hlt⟩ : ∃ q, lastPlace n d = max q (-1074) ∧ (2 : ℚ) ^ (q + 52) ≤ n / d ∧
      (n / d : ℚ) < 2 ^ (q + 53) := by
    by_cases h : n <<< (-k).toNat < d <<< k.toNat
    · refine ⟨k - 53, ?_, ?_, ?_⟩
      · simp only [lastPlace]
        rw [if_pos h]
      · rwa [show k - 53 + 52 = k - 1 by omega]
      · rwa [show k - 53 + 53 = k by omega, ← shiftLeft_lt_iff hd]
    · refine ⟨k - 52, ?_, ?_, ?_⟩
      · simp only [lastPlace]
        rw [if_neg h]
      · rwa [show k - 52 + 52 = k by omega, ← not_lt, ← shiftLeft_lt_iff hd]
      · rwa [show k - 52 + 53 = k + 1 by omega]
  rw [hq]
  have hmono : (2 : ℚ) ^ (q + 53) ≤ 2 ^ (max q (-1074) + 53) := zpow_le_zpow_right₀ (by norm_num) (by omega)
  refine ⟨by omega, by linarith, ?_⟩
  rcases le_total q (-1074) with h | h
  · exact .inl (max_eq_right h)
  · rw [max_eq_left h]
    exact .inr hle

/-! ## Rounding -/

theorem round_zero (d : Nat) : round 0 d = 0 := if_pos rfl

/-- **Rounding depends on the quotient only.** -/
theorem round_congr {n d n' d' : Nat} (hd : 0 < d) (hd' : 0 < d') (h : (n / d : ℚ) = n' / d') :
    round n d = round n' d' := by
  have hmul : n * d' = n' * d := by
    rw [div_eq_div_iff (by positivity) (by positivity)] at h
    exact_mod_cast h
  have hzero : n = 0 ↔ n' = 0 := by
    constructor
    · rintro rfl
      rw [Nat.zero_mul, eq_comm, Nat.mul_eq_zero] at hmul
      omega
    · rintro rfl
      rw [Nat.zero_mul, Nat.mul_eq_zero] at hmul
      omega
  by_cases hn : n = 0
  · rw [hn, hzero.1 hn, round_zero, round_zero]
  · have hn' := mt hzero.2 hn
    have hplace : lastPlace n d = lastPlace n' d' := by
      have hlast := isLastPlace_lastPlace (Nat.pos_of_ne_zero hn) hd
      rw [h] at hlast
      exact hlast.unique (isLastPlace_lastPlace (Nat.pos_of_ne_zero hn') hd')
    simp only [round, if_neg hn, if_neg hn', hplace]
    congr 2
    generalize lastPlace n' d' = q
    simp only [Nat.shiftLeft_eq]
    apply divRound_congr (by positivity) (by positivity)
    calc n * 2 ^ (-q).toNat * (d' * 2 ^ q.toNat) = n * d' * (2 ^ (-q).toNat * 2 ^ q.toNat) := by ring
      _ = n' * d * (2 ^ (-q).toNat * 2 ^ q.toNat) := by rw [hmul]
      _ = n' * 2 ^ (-q).toNat * (d * 2 ^ q.toNat) := by ring

/-! ## Finite magnitudes -/

variable {bits : Nat}

theorem eq_exponent_mantissa (bits : Nat) : bits = (exponent bits + 1074).toNat * binade + mantissa bits := by
  simp only [exponent, mantissa, binade]
  omega

theorem mantissa_lt (bits : Nat) : mantissa bits < 2 * binade := by
  simp only [mantissa, binade]
  omega

theorem le_mantissa (h : exponent bits ≠ -1074) : binade ≤ mantissa bits := by
  simp only [exponent, mantissa, binade] at *
  omega

end Binary64

namespace Decimal

open Binary64

/-- The number itself. -/
def value (d : Decimal) : ℚ := d.digits * 10 ^ d.exponent

theorem value_eq_div (d : Decimal) : d.value = d.num / d.den := by
  have hnum : (d.num : ℚ) = d.digits * 10 ^ d.exponent.toNat := by exact_mod_cast rfl
  have hden : (d.den : ℚ) = 10 ^ (-d.exponent).toNat := by exact_mod_cast rfl
  rw [value, zpow_eq_div (by norm_num), hnum, hden, mul_div_assoc]

theorem den_pos (d : Decimal) : 0 < d.den := Nat.pow_pos (by decide)

/-- **Decimals of one value round to the same float.** -/
theorem roundBits_congr {d e : Decimal} (h : d.value = e.value) : d.roundBits = e.roundBits := by
  rw [value_eq_div, value_eq_div] at h
  exact round_congr d.den_pos e.den_pos h

variable {bits : Nat}

theorem exactDen_pos (bits : Nat) : 0 < exactDen bits := by
  rw [exactDen, Nat.shiftLeft_eq]
  positivity

theorem exactNum_div_exactDen (bits : Nat) :
    (exactNum bits / exactDen bits : ℚ) = mantissa bits * 2 ^ Binary64.exponent bits := by
  rw [zpow_eq_div (by norm_num), exactNum, exactDen, Nat.shiftLeft_eq, Nat.shiftLeft_eq]
  push_cast
  rw [one_mul, mul_div_assoc]

theorem isLastPlace_exponent (bits : Nat) :
    IsLastPlace (mantissa bits * 2 ^ Binary64.exponent bits) (Binary64.exponent bits) := by
  have hpos : (0 : ℚ) < 2 ^ Binary64.exponent bits := by positivity
  refine ⟨?_, ?_, ?_⟩
  · rw [Binary64.exponent]
    omega
  · have hlt : (mantissa bits : ℚ) < 2 ^ 53 := by exact_mod_cast mantissa_lt bits
    rw [zpow_add₀ (by norm_num), mul_comm]
    gcongr
    exact_mod_cast hlt
  · by_cases h : Binary64.exponent bits = -1074
    · exact .inl h
    · have hle : (2 : ℚ) ^ 52 ≤ mantissa bits := by exact_mod_cast le_mantissa h
      right
      rw [zpow_add₀ (by norm_num), mul_comm]
      gcongr
      exact_mod_cast hle

/-- **A finite magnitude rounds to its own bits.** -/
theorem round_exact (h : bits < infinity) : Binary64.round (exactNum bits) (exactDen bits) = bits := by
  have hbits := eq_exponent_mantissa bits
  have hratio := exactNum_div_exactDen bits
  have hplace := isLastPlace_exponent bits
  have hden := exactDen_pos bits
  by_cases hzero : exactNum bits = 0
  · have hm : mantissa bits = 0 := by
      rw [exactNum, Nat.shiftLeft_eq, Nat.mul_eq_zero] at hzero
      exact hzero.resolve_right (by positivity)
    have hq : Binary64.exponent bits = -1074 := by
      by_contra hne
      have := le_mantissa hne
      simp only [binade] at this
      omega
    rw [hzero, round_zero, hbits, hm, hq]
    rfl
  · have hlast : lastPlace (exactNum bits) (exactDen bits) = Binary64.exponent bits := by
      rw [← hratio] at hplace
      exact (isLastPlace_lastPlace (by omega) hden).unique hplace
    have hdiv : divRound (exactNum bits <<< (-Binary64.exponent bits).toNat)
        (exactDen bits <<< (Binary64.exponent bits).toNat) = mantissa bits := by
      rw [← divRound_one (mantissa bits)]
      apply divRound_congr
      · rw [Nat.shiftLeft_eq]
        positivity
      · decide
      · simp only [exactNum, exactDen, Nat.shiftLeft_eq]
        ring
    simp only [Binary64.round, if_neg hzero, hlast, hdiv, ← hbits]
    omega

theorem value_exact (bits : Nat) : (exact bits).value = mantissa bits * 2 ^ Binary64.exponent bits := by
  unfold exact value
  extract_lets q
  split
  · rename_i hq
    show ((mantissa bits <<< q.toNat : Nat) : ℚ) * 10 ^ (0 : ℤ) = mantissa bits * 2 ^ q
    rw [zpow_zero, mul_one, Nat.shiftLeft_eq, ← Int.toNat_of_nonneg hq, zpow_natCast]
    push_cast
    rfl
  · rename_i hq
    show ((mantissa bits * Nat.pow 5 (-q).toNat : Nat) : ℚ) * 10 ^ q = mantissa bits * 2 ^ q
    have hfive : ((Nat.pow 5 (-q).toNat : Nat) : ℚ) = (5 ^ q)⁻¹ := by
      rw [← zpow_neg, ← Int.toNat_of_nonneg (show 0 ≤ -q by omega), zpow_natCast]
      exact_mod_cast rfl
    rw [Nat.cast_mul, hfive, show (10 : ℚ) = 5 * 2 by norm_num, mul_zpow]
    field_simp

theorem roundBits_exact (h : bits < infinity) : (exact bits).roundBits = bits := by
  have hvalue : ((exact bits).num / (exact bits).den : ℚ) = exactNum bits / exactDen bits := by
    rw [← value_eq_div, value_exact, exactNum_div_exactDen]
  exact (round_congr (exact bits).den_pos (exactDen_pos bits) hvalue).trans (round_exact h)

theorem roundBits_of_neighbour? {num den : Nat} {g : Int} {d : Decimal} (h : neighbour? bits num den g = some d) :
    d.roundBits = bits := by
  revert h
  unfold neighbour?
  extract_lets top unit below above rest
  split <;> rename_i hbelow habove <;> intro h
  · obtain rfl := Option.some.inj h
    split
    · exact eq_of_beq hbelow
    · exact eq_of_beq habove
  · exact Option.some.inj h ▸ eq_of_beq hbelow
  · exact Option.some.inj h ▸ eq_of_beq habove
  · cases h

/-- **The shortest decimal reads back.** -/
theorem roundBits_shortest (h : bits < infinity) : (shortest bits).roundBits = bits := by
  unfold shortest
  extract_lets num den k
  cases hfind : (List.range 17).findSome? fun n => neighbour? bits num den (k - (n + 1 : Nat)) with
  | none => exact roundBits_exact h
  | some d =>
    obtain ⟨n, -, hn⟩ := List.exists_of_findSome?_eq_some hfind
    exact roundBits_of_neighbour? hn

end Decimal

end ExprLang
