import ExprLang.Number.Binary64
import Mathlib.Tactic.Ring

/-!
# Floats and their bits

A float is its bits, and the bits are a sign, an exponent and a mantissa. Unpacking these and packing them again changes
nothing unless the float is not a number, and a minus sign changes the sign bit only:

* `Binary64.ofParts` — the bits with given parts, and `Binary64.exists_ofParts` — all bits are of that form;
* `Binary64.pack_unpack`, `Binary64.neg_ofBits` — packing and negating finite floats;
* `Binary64.magnitude_lt_infinity` — the magnitudes of finite floats;
* `Binary64.signed_magnitude` — a finite float is its magnitude, with a minus sign if it is negative.
-/

namespace ExprLang.Binary64

open Float.Model (Format)
open Float.Model.UnpackedFloat

variable (s : Sign) (e : BitVec 11) (m : BitVec 52)

/-- The bits with the given parts. -/
abbrev ofParts : BitVec 64 := packComponents .binary64 s e m

theorem toNat_ofParts : (ofParts s e m).toNat = s.toBitVec.toNat * 2 ^ 63 + (e.toNat * 2 ^ 52 + m.toNat) := by
  have hm := m.isLt
  have he := e.isLt
  show (s.toBitVec ++ e ++ m).toNat = _
  rw [BitVec.toNat_append, ← Nat.shiftLeft_add_eq_or_of_lt hm, BitVec.toNat_append,
    ← Nat.shiftLeft_add_eq_or_of_lt he, Nat.shiftLeft_eq, Nat.shiftLeft_eq]
  ring

theorem exists_ofParts (b : BitVec 64) : ∃ s e m, b = ofParts s e m := by
  have hb := b.isLt
  have hs : ∀ v : BitVec 1, (Sign.ofBitVec v).toBitVec = v := by decide
  refine ⟨.ofBitVec (BitVec.ofNat 1 (b.toNat / 2 ^ 63)), BitVec.ofNat 11 (b.toNat / 2 ^ 52), BitVec.ofNat 52 b.toNat, ?_⟩
  apply BitVec.eq_of_toNat_eq
  rw [toNat_ofParts, hs]
  simp only [BitVec.toNat_ofNat]
  omega

theorem toNat_normal : (1#1 ++ m).toNat = 2 ^ 52 + m.toNat := by
  rw [BitVec.toNat_append, ← Nat.shiftLeft_add_eq_or_of_lt m.isLt]
  rfl

theorem unpackSign_ofParts : unpackSign (packComponents .binary64 s e m) = s.toBitVec := by
  have hparts := toNat_ofParts s e m
  have hm := m.isLt
  have he := e.isLt
  apply BitVec.eq_of_toNat_eq
  show ((ofParts s e m).extractLsb 63 63).toNat = _
  rw [BitVec.extractLsb_toNat, hparts, Nat.shiftRight_eq_div_pow]
  cases s <;> simp only [Sign.toBitVec, BitVec.toNat_ofNat] <;> omega

theorem toNat_pos_of_ne {m : BitVec 52} (h : m ≠ 0#52) : 0 < m.toNat := by
  rcases Nat.eq_zero_or_pos m.toNat with hzero | hpos
  · exact absurd (BitVec.eq_of_toNat_eq hzero) h
  · exact hpos

theorem toNat_normal_pos : 0 < (1#1 ++ m).toNat := by
  rw [toNat_normal]
  omega

theorem unpack_ofParts : unpack .binary64 (ofParts s e m) =
    if e = -1#11 then if m = 0#52 then .infinity s else .notANumber
    else if e = 0#11 then
      if h : m = 0#52 then .zero s else .finite s m.toNat (-1074) (toNat_pos_of_ne h)
    else .finite s (1#1 ++ m).toNat (e.toNat - 1075) (toNat_normal_pos m) := by
  have hs : Sign.ofBitVec (unpackSign (packComponents .binary64 s e m)) = s := by
    rw [unpackSign_ofParts]
    cases s <;> rfl
  have he : unpackExponent (packComponents .binary64 s e m) = e := unpackExponent_packComponents
  have hm : unpackMantissa (packComponents .binary64 s e m) = m := unpackMantissa_packComponents
  revert hs he hm
  show ∀ _ _ _, unpack .binary64 (packComponents .binary64 s e m) = _
  generalize packComponents .binary64 s e m = b
  rintro rfl rfl rfl
  unfold unpack
  extract_lets m e exponent sign s
  by_cases hzero : e = 0#11
  · have hexponent : exponent + 1 = -1074 := by
      show (e.toNat : Int) - (1023 + 52) + 1 = -1074
      rw [hzero]
      rfl
    rw [hexponent]
    rfl
  · rw [if_neg hzero, if_neg hzero]
    rfl

variable {s e m}

theorem pack_unpack (he : e ≠ -1#11) : pack .binary64 (unpack .binary64 (ofParts s e m)) = ofParts s e m := by
  have hm := m.isLt
  rw [unpack_ofParts, if_neg he]
  by_cases hfirst : e = 0#11
  · subst hfirst
    rw [if_pos rfl]
    by_cases hzero : m = 0#52
    · subst hzero
      rfl
    · have hpos : m.toNat ≠ 0 := (toNat_pos_of_ne hzero).ne'
      have hlog : m.toNat.log2 + 1 ≠ 53 := by
        have : m.toNat.log2 < 52 := (Nat.log2_lt hpos).2 hm
        omega
      rw [dif_neg hzero]
      show (if m.toNat.log2 + 1 = 53 then _ else packComponents .binary64 s 0#11 (BitVec.ofNat 52 m.toNat)) = _
      rw [if_neg hlog, BitVec.ofNat_toNat, BitVec.setWidth_eq]
  · have hlog : (1#1 ++ m).toNat.log2 = 52 := by
      rw [toNat_normal, Nat.log2_eq_iff (by omega)]
      omega
    have hlast : e.toNat ≠ 2047 := fun h => he (BitVec.eq_of_toNat_eq h)
    have hlt := e.isLt
    let biased := (e.toNat - 1075 + (1023 : Nat) + (52 : Nat) : Int).toNat
    have hbiased : biased = e.toNat := by omega
    rw [if_neg hfirst]
    show (if 2 ^ 11 ≤ biased + 1 then _ else if (1#1 ++ m).toNat.log2 + 1 = 53 then
      packComponents .binary64 s (BitVec.ofNat 11 biased) (BitVec.ofNat 52 _) else _) = _
    rw [hbiased, if_neg (by omega), if_pos (by omega), toNat_normal, BitVec.ofNat_toNat, BitVec.setWidth_eq]
    congr 1
    apply BitVec.eq_of_toNat_eq
    rw [BitVec.toNat_ofNat]
    omega

theorem unpack_negative (he : e ≠ -1#11) :
    unpack .binary64 (ofParts .negative e m) = (unpack .binary64 (ofParts .positive e m)).neg := by
  rw [unpack_ofParts, unpack_ofParts, if_neg he, if_neg he]
  by_cases hfirst : e = 0#11
  · rw [if_pos hfirst, if_pos hfirst]
    by_cases hzero : m = 0#52
    · rw [dif_pos hzero, dif_pos hzero]
      rfl
    · rw [dif_neg hzero, dif_neg hzero]
      rfl
  · rw [if_neg hfirst, if_neg hfirst]
    rfl

theorem toBits_ofBits (he : e ≠ -1#11) :
    (Float.ofBits (.ofBitVec (ofParts s e m))).toBits = .ofBitVec (ofParts s e m) :=
  congrArg UInt64.ofBitVec (pack_unpack he)

theorem neg_ofBits (he : e ≠ -1#11) :
    -Float.ofBits (.ofBitVec (ofParts .positive e m)) = Float.ofBits (.ofBitVec (ofParts .negative e m)) := by
  have hunpack : (Float.ofBits (.ofBitVec (ofParts .positive e m))).toModel.unpack =
      unpack .binary64 (ofParts .positive e m) := by
    show unpack .binary64 (Float.toBits _).toBitVec = _
    rw [toBits_ofBits he]
  show Float.ofModel (.pack (Float.Model.unpack _).neg) = .ofModel (.pack (unpack .binary64 (ofParts .negative e m)))
  rw [unpack_negative he, hunpack]

theorem eq_of_toBits {x y : Float} (h : x.toBits = y.toBits) : x = y := by
  obtain ⟨⟨a, _⟩⟩ := x
  obtain ⟨⟨b, _⟩⟩ := y
  obtain rfl : a = b := h
  rfl

/-! ## Finite floats -/

theorem exists_parts (x : Float) : ∃ s e m, x.toBits = .ofBitVec (ofParts s e m) := by
  obtain ⟨s, e, m, hparts⟩ := exists_ofParts x.toBits.toBitVec
  exact ⟨s, e, m, UInt64.toBitVec_inj.1 hparts⟩

theorem toNat_of_parts {x : Float} (h : x.toBits = .ofBitVec (ofParts s e m)) :
    x.toBits.toNat = s.toBitVec.toNat * 2 ^ 63 + (e.toNat * 2 ^ 52 + m.toNat) := by
  rw [h]
  exact toNat_ofParts s e m

theorem magnitude_of_parts {x : Float} (h : x.toBits = .ofBitVec (ofParts s e m)) :
    magnitude x = e.toNat * 2 ^ 52 + m.toNat := by
  have hnat := toNat_of_parts h
  have he := e.isLt
  have hm := m.isLt
  simp only [magnitude, signBit]
  omega

/-- The last exponent is that of infinity and of what is not a number. -/
theorem exponent_ne_last_iff {x : Float} (h : x.toBits = .ofBitVec (ofParts s e m)) :
    e ≠ -1#11 ↔ magnitude x < infinity := by
  have hmag := magnitude_of_parts h
  have he := e.isLt
  have hm := m.isLt
  have hlast : (-1#11).toNat = 2047 := rfl
  constructor
  · intro hne
    have hlt : e.toNat ≠ 2047 := fun heq => hne (BitVec.eq_of_toNat_eq heq)
    simp only [infinity]
    omega
  · rintro hlt rfl
    simp only [infinity] at hlt
    omega

theorem magnitude_lt_infinity {x : Float} (hnan : x.isNaN = false) (hinf : x.isInf = false) : magnitude x < infinity := by
  obtain ⟨s, e, m, hbits⟩ := exists_parts x
  have hunpack : x.toModel.unpack = unpack .binary64 (ofParts s e m) := by
    show unpack .binary64 x.toBits.toBitVec = _
    rw [hbits]
  change x.toModel.unpack.isNaN = false at hnan
  change x.toModel.unpack.isInf = false at hinf
  refine (exponent_ne_last_iff hbits).1 ?_
  rintro rfl
  rw [hunpack, unpack_ofParts, if_pos rfl] at hnan hinf
  by_cases hm : m = 0#52
  · rw [if_pos hm] at hinf
    cases hinf
  · rw [if_neg hm] at hnan
    cases hnan

/-- **A finite float is given by its magnitude and its sign.** -/
theorem signed_magnitude {x : Float} (hx : magnitude x < infinity) :
    (if isNegative x then -ofMagnitude (magnitude x) else ofMagnitude (magnitude x)) = x := by
  obtain ⟨s, e, m, hbits⟩ := exists_parts x
  have hnat := toNat_of_parts hbits
  have hmag := magnitude_of_parts hbits
  have hlast := (exponent_ne_last_iff hbits).2 hx
  have he := e.isLt
  have hm := m.isLt
  have hof : ofMagnitude (magnitude x) = Float.ofBits (.ofBitVec (ofParts .positive e m)) := by
    unfold ofMagnitude
    congr 1
    apply UInt64.toNat_inj.1
    show _ = (ofParts .positive e m).toNat
    rw [toNat_ofParts, hmag, UInt64.toNat_ofNat']
    simp only [Sign.toBitVec, BitVec.toNat_ofNat]
    omega
  have hx : Float.ofBits (.ofBitVec (ofParts s e m)) = x := eq_of_toBits (by rw [toBits_ofBits hlast, hbits])
  cases s with
  | negative =>
    have hneg : isNegative x = true := by
      simp [isNegative, hnat, Sign.toBitVec, signBit]
    rw [hneg, if_pos rfl, hof, neg_ofBits hlast, hx]
  | positive =>
    have hneg : isNegative x = false := by
      simp [isNegative, hnat, Sign.toBitVec, signBit]
      omega
    rw [hneg, if_neg Bool.false_ne_true, hof, hx]

end ExprLang.Binary64
