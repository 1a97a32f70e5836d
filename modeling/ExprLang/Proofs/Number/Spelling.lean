import ExprLang.Number.Style
import ExprLang.Proofs.Number.Bits
import ExprLang.Proofs.Number.Rounding
import Mathlib.Data.List.TakeWhile

/-!
# How numbers are spelt

* `Bytes.isWhole_ofNat`, `Decimal.ofDigits_ofNat` — a numeral has no needless zeros and spells its number;
* `NumberStyle.Positional` — digits with a point or without one, and `NumberStyle.plain_positional` — that is what digits
  without an exponent are written as;
* `NumberStyle.exists_positional` — in every style, what is written for a finite magnitude rounds to it;
* `NumberStyle.Positional.ofLexeme_eq` — a number in positional notation is read as what it spells.
-/

namespace ExprLang

/-! ## Digits -/

namespace Bytes

def IsDigits (s : Bytes) : Prop := s ≠ [] ∧ ∀ b ∈ s, isDigit b

/-- Digits without needless zeros in front. -/
def IsWhole (s : Bytes) : Prop := IsDigits s ∧ (s.head? = some 48 → s = [48])

theorem digit_of_mem_toDigits {n : Nat} {c : Char} (h : c ∈ Nat.toDigits 10 n) :
    48 ≤ c.toNat ∧ c.toNat ≤ 57 ∧ c.toNat.toUInt8.toNat = c.toNat := by
  have hdigit : c.isDigit := Nat.isDigit_of_mem_toDigits (by decide) (by decide) h
  simp only [Char.isDigit, Bool.and_eq_true, decide_eq_true_eq, ge_iff_le, UInt32.le_iff_toNat_le] at hdigit
  obtain ⟨hlow, hhigh⟩ : 48 ≤ c.toNat ∧ c.toNat ≤ 57 := hdigit
  refine ⟨hlow, hhigh, ?_⟩
  rw [Nat.toUInt8, UInt8.toNat_ofNat']
  omega

theorem head?_toDigits {n : Nat} (h : (Nat.toDigits 10 n).head? = some '0') : n = 0 := by
  induction n using Nat.strongRecOn with
  | ind n ih =>
    rw [Nat.toDigits_eq_if (by decide)] at h
    split at h
    · rename_i hlt
      have all : ∀ k : Fin 10, [Nat.digitChar k].head? = some '0' → k.val = 0 := by decide
      exact all ⟨n, hlt⟩ h
    · rw [List.head?_append_of_ne_nil _ Nat.toDigits_ne_nil] at h
      have := ih (n / 10) (by omega) h
      omega

theorem isWhole_ofNat (n : Nat) : IsWhole (ofNat n) := by
  refine ⟨⟨by simp [ofNat], ?_⟩, ?_⟩
  · intro b hb
    obtain ⟨c, hc, rfl⟩ := List.mem_map.1 hb
    obtain ⟨hlow, hhigh, hnat⟩ := digit_of_mem_toDigits hc
    simp only [isDigit, Bool.and_eq_true, decide_eq_true_eq, UInt8.le_iff_toNat_le, hnat]
    exact ⟨hlow, hhigh⟩
  · intro h
    obtain ⟨c, hc, hc48⟩ := Option.map_eq_some_iff.1 (List.head?_map.symm.trans h)
    have hnat := (digit_of_mem_toDigits (List.mem_of_mem_head? hc)).2.2
    rw [hc48] at hnat
    obtain rfl : c = '0' := Char.toNat_inj.1 hnat.symm
    rw [head?_toDigits hc]
    rfl

theorem isWhole_zero : IsWhole [48] := ⟨⟨List.cons_ne_nil _ _, List.forall_mem_singleton.2 rfl⟩, fun _ => rfl⟩

end Bytes

namespace Decimal

theorem foldl_digits (s : Bytes) (n : Nat) :
    s.foldl (fun n b => 10 * n + (b.toNat - 48)) n = n * 10 ^ s.length + ofDigits s := by
  unfold ofDigits
  induction s generalizing n with
  | nil => simp
  | cons b s ih =>
    rw [List.foldl_cons, List.foldl_cons, ih, ih (10 * 0 + _), List.length_cons, pow_succ]
    ring

theorem ofDigits_append (a b : Bytes) : ofDigits (a ++ b) = ofDigits a * 10 ^ b.length + ofDigits b := by
  unfold ofDigits
  rw [List.foldl_append, foldl_digits]
  rfl

theorem ofDigits_zeros (k : Nat) : ofDigits (List.replicate k 48) = 0 := by
  induction k with
  | zero => rfl
  | succ k ih => exact ih

theorem ofDigits_ofNat (n : Nat) : ofDigits (Bytes.ofNat n) = n := by
  calc ofDigits (Bytes.ofNat n) = Nat.ofDigitChars 10 (Nat.toDigits 10 n) 0 := by
        rw [ofDigits, Bytes.ofNat, List.foldl_map, Nat.ofDigitChars_eq_foldl]
        apply List.foldl_ext
        intro k c hc
        rw [(Bytes.digit_of_mem_toDigits hc).2.2]
        rfl
    _ = n := Nat.ofDigitChars_ten_toDigits

end Decimal

/-! ## Positional notation -/

namespace NumberStyle

open Bytes (IsDigits IsWhole)

/-- Digits, or digits, a point and digits, and the number they spell. -/
inductive Positional : Bytes → Decimal → Prop
  | whole {w} (hw : IsWhole w) : Positional w ⟨Decimal.ofDigits w, 0⟩
  | fraction {w f} (hw : IsWhole w) (hf : IsDigits f) :
      Positional (w ++ 46 :: f) ⟨Decimal.ofDigits (w ++ f), -(f.length : Int)⟩

/-- Digits that do not start with a zero. -/
structure Leading (s : Bytes) : Prop where
  digits : IsDigits s
  head : s.head? ≠ some 48

theorem Leading.isWhole_append {a : Bytes} (ha : Leading a) {b : Bytes} (hb : ∀ c ∈ b, Bytes.isDigit c) :
    IsWhole (a ++ b) := by
  refine ⟨⟨List.append_ne_nil_of_left_ne_nil ha.digits.1 b, List.forall_mem_append.2 ⟨ha.digits.2, hb⟩⟩, ?_⟩
  intro h
  rw [List.head?_append_of_ne_nil _ ha.digits.1] at h
  exact absurd h ha.head

theorem isDigit_zeros {k : Nat} : ∀ b ∈ List.replicate k zeroDigit, Bytes.isDigit b := by
  intro b hb
  rw [List.eq_of_mem_replicate hb]
  rfl

theorem plain_below {digits : Bytes} {point : Int} (hpoint : point ≤ 0) :
    plain digits point = [48] ++ 46 :: (List.replicate (-point).toNat zeroDigit ++ digits) := by
  have hutf : utf8 "0." = [48, 46] := rfl
  rw [plain, if_pos hpoint, hutf]
  rfl

theorem plain_above {digits : Bytes} {p : Nat} (hp : 0 < p) (hlen : digits.length ≤ p) :
    plain digits p = digits ++ List.replicate (p - digits.length) zeroDigit := by
  rw [plain, if_neg (by omega)]
  exact if_pos hlen

theorem plain_within {digits : Bytes} {p : Nat} (hp : 0 < p) (hlen : p < digits.length) :
    plain digits p = digits.take p ++ 46 :: digits.drop p := by
  have hutf : utf8 "." = [46] := rfl
  rw [plain, if_neg (by omega), hutf]
  dsimp only
  rw [Int.toNat_natCast, if_neg (by omega), List.append_assoc, List.singleton_append]

/-- **Positional notation spells the digits with the point in its place.** -/
theorem plain_positional {digits : Bytes} (h : Leading digits) (point : Int) :
    ∃ d, Positional (plain digits point) d ∧ d.value = Decimal.ofDigits digits * 10 ^ (point - digits.length) := by
  by_cases hpoint : point ≤ 0
  · have hf : IsDigits (List.replicate (-point).toNat zeroDigit ++ digits) :=
      ⟨List.append_ne_nil_of_right_ne_nil _ h.digits.1, List.forall_mem_append.2 ⟨isDigit_zeros, h.digits.2⟩⟩
    have hlen : -((List.replicate (-point).toNat zeroDigit ++ digits).length : Int) = point - digits.length := by
      rw [List.length_append, List.length_replicate]
      omega
    have hzero : Decimal.ofDigits [48] = 0 := rfl
    rw [plain_below hpoint]
    refine ⟨_, .fraction Bytes.isWhole_zero hf, ?_⟩
    rw [Decimal.value, Decimal.ofDigits_append, Decimal.ofDigits_append, hlen, hzero, zeroDigit, Decimal.ofDigits_zeros]
    simp
  · obtain ⟨p, rfl⟩ := Int.eq_ofNat_of_zero_le (show 0 ≤ point by omega)
    have hp : 0 < p := by omega
    by_cases hlen : digits.length ≤ p
    · rw [plain_above hp hlen]
      refine ⟨_, .whole (h.isWhole_append isDigit_zeros), ?_⟩
      rw [Decimal.value, Decimal.ofDigits_append, zeroDigit, Decimal.ofDigits_zeros, List.length_replicate,
        ← Nat.cast_sub hlen, zpow_natCast, zpow_zero]
      push_cast
      ring
    · have htake : Leading (digits.take p) := by
        obtain ⟨b, tail, rfl⟩ := List.exists_cons_of_ne_nil h.digits.1
        obtain ⟨k, rfl⟩ := Nat.exists_eq_add_one.2 hp
        exact ⟨⟨by simp, fun c hc => h.digits.2 c (List.mem_of_mem_take hc)⟩, h.head⟩
      have hdrop : IsDigits (digits.drop p) :=
        ⟨by simpa using hlen, fun c hc => h.digits.2 c (List.mem_of_mem_drop hc)⟩
      have hw : IsWhole (digits.take p) := by
        have := htake.isWhole_append (List.forall_mem_nil _)
        rwa [List.append_nil] at this
      rw [plain_within hp (by omega)]
      refine ⟨_, .fraction hw hdrop, ?_⟩
      have hexp : -((digits.drop p).length : Int) = (p : Int) - digits.length := by
        rw [List.length_drop]
        omega
      rw [Decimal.value, List.take_append_drop, hexp]

/-! ## Floats -/

theorem scientific_eq {digits : Bytes} (h : digits ≠ []) (width : Nat) (x : Int) :
    scientific width digits x = plain digits 1 ++ exponentPart width x := by
  have hpos : 0 < digits.length := List.length_pos_iff.2 h
  by_cases hlen : digits.length ≤ 1
  · have hplain : plain digits 1 = digits ++ List.replicate (1 - digits.length) zeroDigit := plain_above (p := 1) (by decide) hlen
    rw [scientific, if_pos hlen, hplain, List.append_nil, List.take_of_length_le hlen,
      show 1 - digits.length = 0 by omega, List.replicate_zero, List.append_nil]
  · have hplain : plain digits 1 = digits.take 1 ++ 46 :: digits.drop 1 := plain_within (p := 1) (by decide) (by omega)
    have hutf : utf8 "." = [46] := rfl
    rw [scientific, if_neg hlen, hplain, hutf, List.singleton_append]

theorem exists_dropTrailing (s : Bytes) :
    ∃ k, s = s.dropTrailing (· == zeroDigit) ++ List.replicate k zeroDigit := by
  have hzeros : ∀ b ∈ s.reverse.takeWhile (· == zeroDigit), b = zeroDigit := by
    intro b hb
    have hbeq := List.mem_takeWhile_imp hb
    exact eq_of_beq hbeq
  have hsplit : s.reverse.takeWhile (· == zeroDigit) ++ s.reverse.dropWhile (· == zeroDigit) = s.reverse :=
    List.takeWhile_append_dropWhile
  refine ⟨(s.reverse.takeWhile (· == zeroDigit)).length, ?_⟩
  rw [← List.reverse_inj, List.reverse_append, List.reverse_replicate, Bytes.dropTrailing, List.reverse_reverse,
    ← List.eq_replicate_of_mem hzeros, hsplit]

theorem leading_of_ofNat {n k : Nat} {digits : Bytes} (hn : n ≠ 0)
    (h : Bytes.ofNat n = digits ++ List.replicate k zeroDigit) : Leading digits ∧ n = Decimal.ofDigits digits * 10 ^ k := by
  have hwhole := Bytes.isWhole_ofNat n
  have hvalue : n = Decimal.ofDigits digits * 10 ^ k := by
    have := Decimal.ofDigits_ofNat n
    rw [h, Decimal.ofDigits_append, zeroDigit, Decimal.ofDigits_zeros, List.length_replicate, add_zero] at this
    exact this.symm
  have hnil : digits ≠ [] := by
    rintro rfl
    exact hn (by rw [hvalue, show Decimal.ofDigits [] = 0 from rfl, zero_mul])
  refine ⟨⟨⟨hnil, ?_⟩, ?_⟩, hvalue⟩
  · intro b hb
    exact hwhole.1.2 b (h ▸ List.mem_append_left _ hb)
  · intro hhead
    have hzero : Bytes.ofNat n = [48] := hwhole.2 (by rw [h, List.head?_append_of_ne_nil _ hnil, hhead])
    have hofNat := Decimal.ofDigits_ofNat n
    rw [hzero] at hofNat
    exact hn hofNat.symm

/-- The digits of a decimal without the zeros at the end. -/
def significant (d : Decimal) : Bytes := (Bytes.ofNat d.digits).dropTrailing (· == zeroDigit)

/-- How many digits stand before the point. -/
def point (d : Decimal) : Int := d.exponent + (Bytes.ofNat d.digits).length

theorem significant_leading {d : Decimal} (hd : d.digits ≠ 0) :
    Leading (significant d) ∧
      (Decimal.ofDigits (significant d) : ℚ) * 10 ^ (point d - (significant d).length) = d.value := by
  obtain ⟨k, hk⟩ := exists_dropTrailing (Bytes.ofNat d.digits)
  obtain ⟨hleading, hvalue⟩ := leading_of_ofNat hd hk
  refine ⟨hleading, ?_⟩
  have hpoint : point d - (significant d).length = k + d.exponent := by
    have hlen : (Bytes.ofNat d.digits).length = (significant d ++ List.replicate k zeroDigit).length :=
      congrArg List.length hk
    rw [List.length_append, List.length_replicate] at hlen
    rw [point]
    omega
  have hdigits : (Decimal.ofDigits (significant d) : ℚ) * 10 ^ k = d.digits := by exact_mod_cast hvalue.symm
  rw [hpoint, zpow_add₀ (by norm_num), zpow_natCast, ← mul_assoc, hdigits, Decimal.value]

theorem formatMagnitude_of_ne_zero (style : NumberStyle) {bits : Nat} (hzero : bits ≠ 0) :
    style.formatMagnitude bits =
      if style.isPlain (point (Decimal.shortest bits) - 1) then
        plain (significant (Decimal.shortest bits)) (point (Decimal.shortest bits))
      else scientific style.exponentDigits (significant (Decimal.shortest bits)) (point (Decimal.shortest bits) - 1) := by
  rw [formatMagnitude, if_neg hzero]
  rfl

theorem shortest_digits_ne_zero {bits : Nat} (hzero : bits ≠ 0) (h : bits < Binary64.infinity) :
    (Decimal.shortest bits).digits ≠ 0 := by
  intro hd
  have hbits := Decimal.roundBits_shortest h
  rw [Decimal.roundBits, Decimal.num, hd, Nat.zero_mul, Binary64.round_zero] at hbits
  exact hzero hbits.symm

/-- Without an exponent, the digits of a decimal spell a number that rounds like it. -/
theorem exists_positional_plain {d : Decimal} (hd : d.digits ≠ 0) :
    ∃ e, Positional (plain (significant d) (point d)) e ∧ e.roundBits = d.roundBits := by
  obtain ⟨hleading, hvalue⟩ := significant_leading hd
  obtain ⟨e, he, hevalue⟩ := plain_positional hleading (point d)
  exact ⟨e, he, Decimal.roundBits_congr (hevalue.trans hvalue)⟩

/-- **What is written for a magnitude reads back.** It is a number in positional notation, followed by an exponent unless
that is left out, and it rounds to the magnitude. -/
theorem exists_positional (style : NumberStyle) {bits : Nat} (h : bits < Binary64.infinity) :
    ∃ text d tail x, style.formatMagnitude bits = text ++ tail ∧ Positional text d ∧
      (tail = [] ∧ x = 0 ∨ tail = exponentPart style.exponentDigits x) ∧
      (⟨d.digits, x + d.exponent⟩ : Decimal).roundBits = bits := by
  by_cases hzero : bits = 0
  · refine ⟨[48], _, [], 0, ?_, .whole Bytes.isWhole_zero, .inl ⟨rfl, rfl⟩, ?_⟩
    · rw [formatMagnitude, if_pos hzero]
      rfl
    · rw [hzero]
      rfl
  · have hshortest := Decimal.roundBits_shortest h
    have hdigits := shortest_digits_ne_zero hzero h
    rw [style.formatMagnitude_of_ne_zero hzero]
    generalize Decimal.shortest bits = d at *
    obtain ⟨hleading, hvalue⟩ := significant_leading hdigits
    split
    · obtain ⟨e, he, hround⟩ := exists_positional_plain hdigits
      refine ⟨_, e, [], 0, (List.append_nil _).symm, he, .inl ⟨rfl, rfl⟩, ?_⟩
      rw [← hshortest, ← hround, zero_add]
    · obtain ⟨e, he, hevalue⟩ := plain_positional hleading 1
      refine ⟨_, e, _, point d - 1, scientific_eq hleading.digits.1 _ _, he, .inr rfl, ?_⟩
      rw [← hshortest]
      apply Decimal.roundBits_congr
      rw [← hvalue]
      calc (e.digits : ℚ) * 10 ^ (point d - 1 + e.exponent) = e.value * 10 ^ (point d - 1) := by
            rw [Decimal.value, zpow_add₀ (by norm_num)]
            ring
        _ = Decimal.ofDigits (significant d) * 10 ^ (point d - (significant d).length) := by
            rw [hevalue, mul_assoc, ← zpow_add₀ (by norm_num)]
            congr 2
            omega

/-- In a style without exponents, what is written for a magnitude is a number in positional notation that rounds to it. -/
theorem exists_positional_of_isPlain (style : NumberStyle) (hplain : ∀ x, style.isPlain x = true) {bits : Nat}
    (h : bits < Binary64.infinity) : ∃ d, Positional (style.formatMagnitude bits) d ∧ d.roundBits = bits := by
  by_cases hzero : bits = 0
  · rw [formatMagnitude, if_pos hzero, hzero]
    exact ⟨_, .whole Bytes.isWhole_zero, rfl⟩
  · rw [style.formatMagnitude_of_ne_zero hzero, if_pos (hplain _)]
    obtain ⟨d, hd, hround⟩ := exists_positional_plain (shortest_digits_ne_zero hzero h)
    exact ⟨d, hd, hround.trans (Decimal.roundBits_shortest h)⟩

/-! ## Reading -/

theorem Positional.exists_digits {text : Bytes} {d : Decimal} (h : Positional text d) :
    ∃ w rest, IsDigits w ∧ text = w ++ rest := by
  cases h with
  | whole hw => exact ⟨text, [], hw.1, (List.append_nil text).symm⟩
  | fraction hw _ => exact ⟨_, _, hw.1, rfl⟩

/-- Digits, or digits, a point and digits, are read as the number they spell. -/
theorem Positional.ofLexeme_eq {text : Bytes} {d : Decimal} (h : Positional text d) : Decimal.ofLexeme text = d := by
  have hpoint : ¬ Bytes.isDigit 46 = true := by decide
  cases h with
  | whole hw =>
    have htake : text.takeWhile Bytes.isDigit = text := List.takeWhile_eq_self_iff.2 hw.1.2
    have hdrop : text.dropWhile Bytes.isDigit = [] := List.dropWhile_eq_nil_iff.2 hw.1.2
    rw [Decimal.ofLexeme, htake, hdrop, List.drop_nil, List.append_nil]
    rfl
  | @fraction w f hw hf =>
    have htake : (w ++ 46 :: f).takeWhile Bytes.isDigit = w := by
      rw [List.takeWhile_append_of_pos hw.1.2, List.takeWhile_cons_of_neg hpoint, List.append_nil]
    have hdrop : (w ++ 46 :: f).dropWhile Bytes.isDigit = 46 :: f := by
      rw [List.dropWhile_append_of_pos hw.1.2, List.dropWhile_cons_of_neg hpoint]
    rw [Decimal.ofLexeme, htake, hdrop]
    rfl

end NumberStyle

end ExprLang
