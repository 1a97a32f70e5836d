import ExprLang.Proofs.Text.Utf8

/-!
# Encoded texts

* `Utf8.chunks_eq_map_char_iff` — what is read as characters is their encodings, one after the other;
* `Utf8.flatMap_bytes_chunks` — the chunks that are read hold all bytes;
* `Utf8.encode` — the bytes of a text, and `Utf8.characters?` — the text that bytes are the encoding of;
* `Utf8.shown` — the characters shown for a byte string, with a replacement for every stray byte;
* `Utf8.ofAscii` — the characters of an ASCII string.
-/

namespace ExprLang

/-! ## Reading encodings -/

namespace Utf8

theorem chunksFrom_append (a rest : Bytes) : chunksFrom a.length (a ++ rest) = chunksFrom 0 rest := by
  induction a with
  | nil => rfl
  | cons b a ih => exact ih

theorem chunks_encode_append (c : Char) (rest : Bytes) :
    chunks (String.utf8EncodeChar c ++ rest) = .char c :: chunks rest := by
  obtain ⟨b, tail, h⟩ := List.exists_cons_of_ne_nil (String.utf8EncodeChar_ne_nil (c := c))
  have hfirst : first b (tail ++ rest) = (.char c, c.utf8Size - 1) := by
    refine first_eq_char_iff.2 ⟨⟨rest, ?_⟩, rfl⟩
    rw [h, List.cons_append]
  have hlength : c.utf8Size - 1 = tail.length := by
    rw [← String.length_utf8EncodeChar, h, List.length_cons, Nat.add_sub_cancel]
  rw [h, List.cons_append, chunks, chunksFrom, hfirst]
  simp only [hlength, chunksFrom_append, chunks]

/-- **What is read as characters is their encodings.** -/
theorem chunks_eq_map_char_iff {s : Bytes} {cs : List Char} :
    chunks s = cs.map .char ↔ s = cs.flatMap String.utf8EncodeChar := by
  constructor
  · intro h
    induction cs generalizing s with
    | nil =>
      cases s with
      | nil => rfl
      | cons b rest => simp [chunks, chunksFrom] at h
    | cons c cs ih =>
      match s with
      | [] => simp [chunks, chunksFrom] at h
      | b :: rest =>
        rcases hf : first b rest with ⟨chunk, more⟩
        have hchunk : chunk = .char c := by
          simp only [chunks, chunksFrom, hf, List.map_cons, List.cons.injEq] at h
          exact h.1
        obtain ⟨⟨tail, htail⟩, -⟩ := first_eq_char_iff.1 (hchunk ▸ hf)
        rw [← htail, chunks_encode_append, List.map_cons, List.cons.injEq] at h
        rw [← htail, ih h.2, List.flatMap_cons]
  · rintro rfl
    induction cs with
    | nil => rfl
    | cons c cs ih => rw [List.flatMap_cons, chunks_encode_append, ih, List.map_cons]

/-- The bytes of a chunk. -/
def Chunk.bytes : Chunk → Bytes
  | .char c => String.utf8EncodeChar c
  | .stray b => [b]

/-- Nothing is lost in reading. -/
theorem flatMap_bytes_chunks (s : Bytes) : (chunks s).flatMap Chunk.bytes = s := by
  -- by induction on the length, as a character may take several bytes
  obtain ⟨n, hn⟩ : ∃ n, s.length = n := ⟨_, rfl⟩
  induction n using Nat.strongRecOn generalizing s with
  | ind n ih =>
    match s with
    | [] => rfl
    | b :: rest =>
      rcases hf : first b rest with ⟨c | b', more⟩
      · obtain ⟨⟨tail, htail⟩, -⟩ := first_eq_char_iff.1 hf
        have hpos := List.length_pos_iff.2 (String.utf8EncodeChar_ne_nil (c := c))
        have hlength := congrArg List.length htail
        rw [List.length_append] at hlength
        rw [← htail, chunks_encode_append, List.flatMap_cons, ih tail.length (by omega) tail rfl]
        rfl
      · have hstray : first b rest = (.stray b, 0) := by
          unfold first at hf ⊢
          split
          · rename_i hd
            rw [hd] at hf
            cases hf
          · rfl
        rw [chunks, chunksFrom, hstray, List.flatMap_cons]
        exact congrArg (b :: ·) (ih rest.length (by simp at hn; omega) rest rfl)

theorem encode_ascii {b : UInt8} (hb : b < 128) : String.utf8EncodeChar (Char.ofNat b.toNat) = [b] := by
  have all : ∀ n : Fin 128, String.utf8EncodeChar (Char.ofNat n) = [UInt8.ofNat n] := by decide
  have h := all ⟨b.toNat, hb⟩
  simpa using h

/-- A character whose encoding holds an ASCII byte is that byte. -/
theorem eq_ofNat_of_mem_encode {b : UInt8} {c : Char} (h : b ∈ String.utf8EncodeChar c) (hb : b < 128) :
    c = Char.ofNat b.toNat := by
  obtain ⟨a, rest, e⟩ := List.append_of_mem h
  obtain rfl := eq_nil_of_encode e hb
  have hc : String.utf8EncodeChar c <+: b :: rest := ⟨[], by rw [e, List.append_nil, List.nil_append]⟩
  have hd : String.utf8EncodeChar (Char.ofNat b.toNat) <+: b :: rest := by
    rw [encode_ascii hb]
    exact ⟨rest, rfl⟩
  have hdecode := utf8DecodeChar?_take_iff.2 hc
  rw [utf8DecodeChar?_take_iff.2 hd] at hdecode
  exact (Option.some.inj hdecode).symm

/-- The bytes of a text. -/
def encode (cs : List Char) : Bytes := cs.flatMap String.utf8EncodeChar

/-- The characters shown for a byte string, one for each stray byte. -/
def shown (s : Bytes) : List Char := (chunks s).map Chunk.toChar

/-- The text that a byte string is the encoding of, if it is valid UTF-8. -/
def characters? (s : Bytes) : Option (List Char) := if isValid s then some (shown s) else none

theorem encode_append (a b : List Char) : encode (a ++ b) = encode a ++ encode b := List.flatMap_append

theorem encode_cons (c : Char) (cs : List Char) : encode (c :: cs) = String.utf8EncodeChar c ++ encode cs :=
  List.flatMap_cons

theorem shown_encode (cs : List Char) : shown (encode cs) = cs := by
  rw [shown, encode, chunks_eq_map_char_iff.2 rfl, List.map_map]
  exact List.map_id cs

theorem shown_utf8 (s : String) : shown (utf8 s) = s.toList := shown_encode s.toList

theorem characters?_encode (cs : List Char) : characters? (encode cs) = some cs := by
  have hvalid : isValid (encode cs) = true := by
    rw [isValid, encode, chunks_eq_map_char_iff.2 rfl, List.all_map]
    exact List.all_eq_true.2 fun _ _ => rfl
  rw [characters?, if_pos hvalid, shown_encode]

/-- The characters of an ASCII string. -/
def ofAscii (s : Bytes) : List Char := s.map fun b => Char.ofNat b.toNat

theorem ofAscii_append (a b : Bytes) : ofAscii (a ++ b) = ofAscii a ++ ofAscii b := List.map_append

theorem encode_ofAscii {s : Bytes} (h : ∀ b ∈ s, b < 128) : encode (ofAscii s) = s := by
  induction s with
  | nil => rfl
  | cons b s ih =>
    rw [List.forall_mem_cons] at h
    rw [ofAscii, List.map_cons, encode_cons, encode_ascii h.1, ← ofAscii, ih h.2, List.singleton_append]

end Utf8

end ExprLang
