import ExprLang.Proofs.Text.Encoding
import ExprLang.Text.Blank

/-!
# Texts of white space

* `Text.IsBlank` — the encodings of characters that are all white space;
* `Text.allBlank_iff` — these are the texts that are found to be blank;
* `Text.isBlank_dropTrailing` — taking ASCII white space off the end does not change whether a text is blank.
-/

namespace ExprLang

namespace Text

/-- The text is made of white-space characters only. -/
def IsBlank (s : Bytes) : Prop := ∃ cs : List Char, (∀ c ∈ cs, isBlank c) ∧ s = cs.flatMap String.utf8EncodeChar

theorem allBlank_iff {s : Bytes} : allBlank s = true ↔ IsBlank s := by
  unfold allBlank
  constructor
  · intro h
    have hchar : ∀ chunk ∈ Utf8.chunks s, chunk = .char chunk.toChar ∧ isBlank chunk.toChar := by
      intro chunk hmem
      have hblank := List.all_eq_true.1 h chunk hmem
      cases chunk with
      | char c => exact ⟨rfl, hblank⟩
      | stray b => cases hblank
    refine ⟨(Utf8.chunks s).map Utf8.Chunk.toChar, List.forall_mem_map.2 fun chunk hmem => (hchar chunk hmem).2, ?_⟩
    rw [← Utf8.chunks_eq_map_char_iff, List.map_map]
    calc Utf8.chunks s = (Utf8.chunks s).map id := (List.map_id _).symm
      _ = _ := List.map_congr_left fun chunk hmem => (hchar chunk hmem).1
  · rintro ⟨cs, hcs, hs⟩
    rw [Utf8.chunks_eq_map_char_iff.2 hs, List.all_map]
    exact List.all_eq_true.2 hcs

instance (s : Bytes) : Decidable (IsBlank s) := decidable_of_iff _ allBlank_iff

theorem isBlank_concat_iff {s : Bytes} {b : UInt8} (hb : b < 128) (hblank : isBlank (Char.ofNat b.toNat)) :
    IsBlank (s ++ [b]) ↔ IsBlank s := by
  constructor
  · rintro ⟨cs, hcs, h⟩
    rcases List.eq_nil_or_concat cs with rfl | ⟨cs, c, rfl⟩
    · simp at h
    · -- the last character ends with the ASCII byte, so it is that byte
      rw [List.concat_eq_append] at hcs h
      rw [List.flatMap_append, List.flatMap_singleton] at h
      rcases List.eq_nil_or_concat (String.utf8EncodeChar c) with hc | ⟨a, b', hc⟩
      · exact absurd hc String.utf8EncodeChar_ne_nil
      · rw [List.concat_eq_append] at hc
        rw [hc, ← List.append_assoc] at h
        obtain ⟨hs, hb'⟩ := List.append_inj' h rfl
        obtain rfl : b = b' := by simpa using hb'
        obtain rfl := Utf8.eq_nil_of_encode hc hb
        refine ⟨cs, fun d hd => hcs d (List.mem_append_left _ hd), ?_⟩
        rw [hs, List.append_nil]
  · rintro ⟨cs, hcs, rfl⟩
    refine ⟨cs ++ [Char.ofNat b.toNat], List.forall_mem_append.2 ⟨hcs, List.forall_mem_singleton.2 hblank⟩, ?_⟩
    rw [List.flatMap_append, List.flatMap_singleton, Utf8.encode_ascii hb]

theorem isBlank_dropTrailing {p : UInt8 → Bool} (hp : ∀ b, p b = true → b < 128 ∧ isBlank (Char.ofNat b.toNat))
    (s : Bytes) : IsBlank (s.dropTrailing p) ↔ IsBlank s := by
  -- by induction from the end of the text
  have key : ∀ r : Bytes, IsBlank (r.dropWhile p).reverse ↔ IsBlank r.reverse := by
    intro r
    induction r with
    | nil => exact Iff.rfl
    | cons b r ih =>
      by_cases hb : p b = true
      · rw [List.dropWhile_cons_of_pos hb, ih, List.reverse_cons, isBlank_concat_iff (hp b hb).1 (hp b hb).2]
      · rw [List.dropWhile_cons_of_neg hb]
  have h := key s.reverse
  rwa [List.reverse_reverse] at h

end Text

end ExprLang
