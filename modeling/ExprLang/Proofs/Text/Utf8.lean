import ExprLang.Text.Utf8

/-!
# What UTF-8 decoding finds

Reading a character looks at four bytes at most, which is as long as an encoding gets. It finds the character whose
encoding the byte string starts with, and a stray byte exactly where there is none:

* `Utf8.first_eq_char_iff` — a character is read exactly where its encoding stands;
* `Utf8.Decodes s c` — the character shown for the start of `s`;
* `Utf8.toChar_first_iff` — the chunk that is read is shown by that character;
* `Utf8.first_extent` — the chunk ends within the byte string, and no ASCII byte stands in it after the first.
-/

namespace ExprLang.Utf8

/-- The character shown for the start of `s`: the one whose encoding stands there, the replacement if there is none. -/
def Decodes (s : Bytes) (c : Char) : Prop :=
  String.utf8EncodeChar c <+: s ∨ (c = replacement ∧ ∀ d, ¬ String.utf8EncodeChar d <+: s)

variable {b : UInt8} {rest : Bytes} {c : Char}

/-- Decoding four bytes finds the character whose encoding the byte string starts with. -/
theorem utf8DecodeChar?_take_iff :
    (b :: rest.take 3).toByteArray.utf8DecodeChar? 0 = some c ↔ String.utf8EncodeChar c <+: b :: rest := by
  have htake : b :: rest.take 3 = (b :: rest).take 4 := rfl
  constructor
  · intro h
    obtain ⟨l, hl⟩ := ByteArray.exists_of_utf8DecodeChar?_eq_some h
    have e : b :: rest.take 3 = String.utf8EncodeChar c ++ l.data.toList := by
      have hdata := congrArg (fun a : ByteArray => a.data.toList) hl
      simpa using hdata
    rw [htake] at e
    exact List.IsPrefix.trans ⟨_, e.symm⟩ (List.take_prefix 4 _)
  · intro h
    have hlen : (String.utf8EncodeChar c).length ≤ 4 := by
      rw [String.length_utf8EncodeChar]
      exact c.utf8Size_le_four
    obtain ⟨t, ht⟩ : String.utf8EncodeChar c <+: b :: rest.take 3 := by
      rw [htake]
      exact List.prefix_take_iff.2 ⟨h, hlen⟩
    rw [← ht, List.toByteArray_append]
    exact ByteArray.utf8DecodeChar?_utf8EncodeChar_append

theorem first_eq_char_iff {n : Nat} :
    first b rest = (.char c, n) ↔ String.utf8EncodeChar c <+: b :: rest ∧ n = c.utf8Size - 1 := by
  unfold first
  rw [← utf8DecodeChar?_take_iff]
  split
  · rename_i d hd
    rw [hd]
    constructor
    · intro h
      cases h
      exact ⟨rfl, rfl⟩
    · rintro ⟨h, rfl⟩
      cases h
      rfl
  · rename_i hd
    simp [hd]

/-- **The chunk that is read is shown by the character that stands there.** -/
theorem toChar_first_iff : (first b rest).1.toChar = c ↔ Decodes (b :: rest) c := by
  unfold Decodes
  rcases hf : first b rest with ⟨d | _, n⟩
  · obtain ⟨hd, -⟩ := first_eq_char_iff.1 hf
    show d = c ↔ _
    constructor
    · rintro rfl
      exact .inl hd
    · rintro (hc | ⟨-, none⟩)
      · -- two encodings at one place are decoded to the same character
        have hdec := utf8DecodeChar?_take_iff.2 hd
        rw [utf8DecodeChar?_take_iff.2 hc] at hdec
        exact (Option.some.inj hdec).symm
      · exact absurd hd (none d)
  · have none : ∀ d, ¬ String.utf8EncodeChar d <+: b :: rest := by
      intro d hd
      rw [first_eq_char_iff.2 ⟨hd, rfl⟩] at hf
      cases hf
    show replacement = c ↔ _
    constructor
    · rintro rfl
      exact .inr ⟨rfl, none⟩
    · rintro (hc | ⟨rfl, -⟩)
      · exact absurd hc (none c)
      · rfl

/-- An ASCII byte stands at the start of an encoding only. -/
theorem eq_nil_of_encode {a : Bytes} (h : String.utf8EncodeChar c = a ++ b :: rest) (hb : b < 128) : a = [] := by
  have hi : a.length < (String.utf8EncodeChar c).length := by simp [h]
  have hget : (String.utf8EncodeChar c)[a.length] = b := by simp [h]
  have hfirst : b.IsUTF8FirstByte := by
    have all : ∀ n : Fin 128, (UInt8.ofNat n).IsUTF8FirstByte := by decide
    have hn := all ⟨b.toNat, hb⟩
    simpa using hn
  rw [← hget, UInt8.isUTF8FirstByte_getElem_utf8EncodeChar] at hfirst
  exact List.eq_nil_of_length_eq_zero hfirst

/-- The bytes that belong to a character after its first one are there, and none of them is an ASCII byte. -/
theorem first_extent (b : UInt8) (rest : Bytes) :
    (first b rest).2 ≤ rest.length ∧ ∀ x ∈ rest.take (first b rest).2, ¬ x < 128 := by
  rcases hf : first b rest with ⟨c | _, n⟩
  · obtain ⟨⟨tail, htail⟩, rfl⟩ := first_eq_char_iff.1 hf
    obtain ⟨b', more, hmore⟩ := List.exists_cons_of_ne_nil (String.utf8EncodeChar_ne_nil (c := c))
    have hlen : c.utf8Size - 1 = more.length := by
      rw [← String.length_utf8EncodeChar, hmore, List.length_cons, Nat.add_sub_cancel]
    rw [hmore, List.cons_append] at htail
    obtain ⟨rfl, rfl⟩ := List.cons.inj htail
    simp only [hlen, List.take_left]
    refine ⟨by simp, fun x hx hlt => ?_⟩
    obtain ⟨before, after, rfl⟩ := List.append_of_mem hx
    have hnil := eq_nil_of_encode (a := b' :: before) hmore hlt
    cases hnil
  · unfold first at hf
    split at hf <;> cases hf
    exact ⟨Nat.zero_le _, by simp⟩

/-- A character that does not start with an ASCII byte `b` is encoded before `b` or not at all. -/
theorem encode_prefix_append_iff {s more : Bytes} (hs : s ≠ []) (hb : b < 128) :
    String.utf8EncodeChar c <+: s ++ b :: more ↔ String.utf8EncodeChar c <+: s := by
  constructor
  · intro h
    rcases List.prefix_or_prefix_of_prefix h (List.prefix_append s _) with hc | ⟨t, ht⟩
    · exact hc
    · rw [← ht, List.prefix_append_right_inj] at h
      cases t with
      | nil => simp [← ht]
      | cons b' t =>
        obtain ⟨tail, htail⟩ := h
        obtain rfl : b' = b := (List.cons.inj htail).1
        exact absurd (eq_nil_of_encode ht.symm hb) hs
  · intro h
    exact h.trans (List.prefix_append s _)

theorem decodes_append_iff {s more : Bytes} (hs : s ≠ []) (hb : b < 128) :
    Decodes (s ++ b :: more) c ↔ Decodes s c := by
  unfold Decodes
  simp only [encode_prefix_append_iff hs hb]

end ExprLang.Utf8
