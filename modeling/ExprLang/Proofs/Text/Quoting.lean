import ExprLang.Proofs.Text.Encoding
import ExprLang.Text.Quoted
import Mathlib.Algebra.Group.Nat.Defs

/-!
# Quoted text can be read back

Every byte string can be read back from the form in which it is quoted, and that form is on one line.

* `Quoted.Escaped t s` — between double quotes, the text `t` stands for the bytes `s`;
* `Quoted.escaped_chunks` — what is written between the quotes stands for what is quoted;
* `Quoted.unquoted` — reads up to the closing quote, and `Quoted.Escaped.unquoted_append` — it reads what a text stands for;
* `Quoted.string_injective` — no two byte strings are quoted alike;
* `Quoted.lineFeed_notMem_string` — there is no line feed in what is quoted;
* `Quoted.string_of_isPlain` — characters that need no escape are quoted as they are.
-/

namespace ExprLang.Quoted

open Bytes (lineFeed)
open Utf8 (Chunk)

/-! ## Escapes -/

/-- The quote before and after a quoted byte string. -/
def quoteMark : UInt8 := 34

/-- The byte that starts an escape. -/
def backslash : UInt8 := 92

/-- Between double quotes, a text stands for bytes: for itself if there is no need to escape it, and an escape for a quote
or a backslash, for a control character, for a byte, or for a character by its code point. -/
inductive Escaped : Bytes → Bytes → Prop where
  | plain {s : Bytes} (h : ∀ b ∈ s, b ∉ [quoteMark, backslash, lineFeed]) : Escaped s s
  | self {b : UInt8} (h : b = quoteMark ∨ b = backslash) : Escaped [backslash, b] [b]
  | control {c letter : Char} (h : controlLetter? c = some letter) :
      Escaped (backslash :: String.utf8EncodeChar letter) (String.utf8EncodeChar c)
  | byte (b : UInt8) : Escaped (utf8 "\\x" ++ hex 2 b.toNat) [b]
  | short (c : Char) (h : c.toNat < 0x10000) : Escaped (utf8 "\\u" ++ hex 4 c.toNat) (String.utf8EncodeChar c)
  | long (c : Char) : Escaped (utf8 "\\U" ++ hex 8 c.toNat) (String.utf8EncodeChar c)
  | append {t s t' s' : Bytes} (first : Escaped t s) (more : Escaped t' s') : Escaped (t ++ t') (s ++ s')

/-- The control characters that have a letter, by code point, with their letters. -/
def controls : List (Nat × Char) :=
  [(0x07, 'a'), (0x08, 'b'), (0x09, 't'), (0x0A, 'n'), (0x0B, 'v'), (0x0C, 'f'), (0x0D, 'r')]

theorem mem_controls {c letter : Char} (h : controlLetter? c = some letter) : (c.toNat, letter) ∈ controls := by
  unfold controlLetter? at h
  split at h
  case h_8 => cases h
  all_goals
    rename_i hc
    rw [hc]
    cases h
    decide

theorem escaped_escapeCode (c : Char) : Escaped (escapeCode c.toNat) (String.utf8EncodeChar c) := by
  unfold escapeCode
  split
  · rename_i hascii
    have hnat : c.toNat.toUInt8.toNat = c.toNat := by
      rw [Nat.toUInt8, UInt8.toNat_ofNat']
      omega
    have hbyte := Escaped.byte c.toNat.toUInt8
    have hencode := Utf8.encode_ascii (b := c.toNat.toUInt8) (UInt8.lt_iff_toNat_lt.2 (hnat.symm ▸ hascii))
    rw [hnat] at hbyte hencode
    rw [Char.ofNat_toNat] at hencode
    rwa [hencode]
  · split
    · rename_i hshort
      exact .short c hshort
    · exact .long c

theorem escaped_escapeChunk (chunk : Chunk) : Escaped (escapeChunk chunk) chunk.bytes := by
  cases chunk with
  | stray b => exact .byte b
  | char c =>
    show Escaped (escapeChar '"' c) (String.utf8EncodeChar c)
    unfold escapeChar
    split
    · rename_i hc
      rcases hc with rfl | rfl
      · exact .self (.inl rfl)
      · exact .self (.inr rfl)
    · rename_i hc
      split
      · rename_i letter hletter
        exact .control hletter
      · rename_i hnone
        split
        · refine .plain fun b hb hmem => ?_
          simp only [List.mem_cons, List.not_mem_nil, or_false] at hmem
          -- an ASCII byte of the encoding is the character itself, which would have been escaped
          rcases hmem with rfl | rfl | rfl
          · exact hc (.inl (Utf8.eq_ofNat_of_mem_encode hb (by decide)))
          · exact hc (.inr (Utf8.eq_ofNat_of_mem_encode hb (by decide)))
          · rw [Utf8.eq_ofNat_of_mem_encode hb (by decide)] at hnone
            cases hnone
        · exact escaped_escapeCode c

theorem escaped_chunks (s : Bytes) : Escaped ((Utf8.chunks s).flatMap escapeChunk) s := by
  suffices h : ∀ chunks : List Chunk, Escaped (chunks.flatMap escapeChunk) (chunks.flatMap Chunk.bytes) by
    have hs := h (Utf8.chunks s)
    rwa [Utf8.flatMap_bytes_chunks] at hs
  intro chunks
  induction chunks with
  | nil => exact .plain (by simp)
  | cons chunk chunks ih => exact .append (escaped_escapeChunk chunk) ih

/-! ## Hexadecimal digits -/

/-- The value of a hexadecimal digit. -/
def hexValue (b : UInt8) : Nat := if b ≤ 57 then b.toNat - 48 else b.toNat - 87

/-- The number that hexadecimal digits spell. -/
def unhex (s : Bytes) : Nat := s.foldl (fun n b => 16 * n + hexValue b) 0

/-- Each digit has its value, and is no line feed. -/
theorem hexDigit_spec {n : Nat} (h : n < 16) : hexValue (hexDigit n) = n ∧ hexDigit n ≠ lineFeed := by
  have all : ∀ n : Fin 16, hexValue (hexDigit n) = n ∧ hexDigit n ≠ lineFeed := by decide
  exact all ⟨n, h⟩

theorem length_hex (width n : Nat) : (hex width n).length = width := by
  induction width generalizing n with
  | zero => rfl
  | succ width ih => rw [hex, List.length_append, ih, List.length_singleton]

theorem unhex_hex (width n : Nat) : unhex (hex width n) = n % 16 ^ width := by
  induction width generalizing n with
  | zero => exact (Nat.mod_one n).symm
  | succ width ih =>
    have hfold : unhex (hex width (n / 16) ++ [hexDigit (n % 16)]) =
        16 * unhex (hex width (n / 16)) + hexValue (hexDigit (n % 16)) := by
      rw [unhex, List.foldl_append]
      rfl
    rw [hex, hfold, ih, (hexDigit_spec (Nat.mod_lt n (by decide))).1, Nat.pow_succ', Nat.mod_mul, Nat.add_comm]

theorem lineFeed_notMem_hex (width n : Nat) : lineFeed ∉ hex width n := by
  induction width generalizing n with
  | zero => exact List.not_mem_nil
  | succ width ih =>
    rw [hex, List.mem_append, List.mem_singleton, not_or]
    exact ⟨ih _, (hexDigit_spec (Nat.mod_lt n (by decide))).2.symm⟩

/-! ## Reading -/

/-- What an escape stands for that goes on like this after the backslash, and how many bytes of this belong to it. -/
def unescape : Bytes → Bytes × Nat
  | [] => ([], 0)
  | mark :: rest =>
    match Char.ofNat mark.toNat with
    | 'x' => ([(unhex (rest.take 2)).toUInt8], 3)
    | 'u' => (String.utf8EncodeChar (Char.ofNat (unhex (rest.take 4))), 5)
    | 'U' => (String.utf8EncodeChar (Char.ofNat (unhex (rest.take 8))), 9)
    | 'a' => ([0x07], 1)
    | 'b' => ([0x08], 1)
    | 't' => ([0x09], 1)
    | 'n' => ([0x0A], 1)
    | 'v' => ([0x0B], 1)
    | 'f' => ([0x0C], 1)
    | 'r' => ([0x0D], 1)
    | _ => ([mark], 1)

/-- What a text stands for up to the first quote, after skipping `skip` bytes of an escape that has been read. -/
def unquotedFrom : (skip : Nat) → Bytes → Bytes
  | _, [] => []
  | skip + 1, _ :: rest => unquotedFrom skip rest
  | 0, b :: rest =>
    if b = quoteMark then []
    else if b = backslash then (unescape rest).1 ++ unquotedFrom (unescape rest).2 rest
    else b :: unquotedFrom 0 rest

/-- What a text stands for up to the first quote. -/
def unquoted (t : Bytes) : Bytes := unquotedFrom 0 t

theorem unquotedFrom_append (t rest : Bytes) : unquotedFrom t.length (t ++ rest) = unquoted rest := by
  induction t with
  | nil => rfl
  | cons b t ih => exact ih

/-- An escape is read as a whole. -/
theorem unquoted_escape {t s rest : Bytes} (h : unescape (t ++ rest) = (s, t.length)) :
    unquoted (backslash :: (t ++ rest)) = s ++ unquoted rest := by
  have hread : unquoted (backslash :: (t ++ rest)) =
      (unescape (t ++ rest)).1 ++ unquotedFrom (unescape (t ++ rest)).2 (t ++ rest) := rfl
  rw [hread, h, unquotedFrom_append]

theorem unquoted_plain {s : Bytes} (h : ∀ b ∈ s, b ∉ [quoteMark, backslash, lineFeed]) (rest : Bytes) :
    unquoted (s ++ rest) = s ++ unquoted rest := by
  induction s with
  | nil => rfl
  | cons b s ih =>
    obtain ⟨hb, hs⟩ := List.forall_mem_cons.1 h
    simp only [List.mem_cons, not_or] at hb
    rw [List.cons_append, unquoted, unquotedFrom, if_neg hb.1, if_neg hb.2.1]
    exact congrArg (b :: ·) (ih hs)

/-- The digits after a mark spell the number, whatever follows them. -/
theorem unhex_take {width n : Nat} (h : n < 16 ^ width) (rest : Bytes) :
    unhex ((hex width n ++ rest).take width) = n := by
  rw [List.take_left' (length_hex width n), unhex_hex, Nat.mod_eq_of_lt h]

theorem unescape_control {c letter : Char} (h : controlLetter? c = some letter) (rest : Bytes) :
    unescape (String.utf8EncodeChar letter ++ rest) =
      (String.utf8EncodeChar c, (String.utf8EncodeChar letter).length) := by
  have all : ∀ e ∈ controls, unescape (String.utf8EncodeChar e.2 ++ rest) =
      (String.utf8EncodeChar (Char.ofNat e.1), (String.utf8EncodeChar e.2).length) := by
    simp only [controls, List.forall_mem_cons]
    exact ⟨rfl, rfl, rfl, rfl, rfl, rfl, rfl, List.forall_mem_nil _⟩
  have hread := all _ (mem_controls h)
  rwa [Char.ofNat_toNat] at hread

/-- **What a text stands for is read from it**, whatever follows. -/
theorem Escaped.unquoted_append {t s : Bytes} (h : Escaped t s) (rest : Bytes) :
    unquoted (t ++ rest) = s ++ unquoted rest := by
  induction h generalizing rest with
  | plain h => exact unquoted_plain h rest
  | self h =>
    rcases h with rfl | rfl
    · rfl
    · rfl
  | control h => exact unquoted_escape (unescape_control h rest)
  | byte b =>
    have hread : unescape (utf8 "x" ++ hex 2 b.toNat ++ rest) = ([b], (utf8 "x" ++ hex 2 b.toNat).length) := by
      show ([(unhex ((hex 2 b.toNat ++ rest).take 2)).toUInt8], 3) = _
      rw [unhex_take b.toNat_lt, List.length_append, length_hex]
      exact congrArg (([·], 3)) UInt8.ofNat_toNat
    exact unquoted_escape hread
  | short c hc =>
    have hread : unescape (utf8 "u" ++ hex 4 c.toNat ++ rest) =
        (String.utf8EncodeChar c, (utf8 "u" ++ hex 4 c.toNat).length) := by
      show (String.utf8EncodeChar (Char.ofNat (unhex ((hex 4 c.toNat ++ rest).take 4))), 5) = _
      rw [unhex_take hc, Char.ofNat_toNat, List.length_append, length_hex]
      rfl
    exact unquoted_escape hread
  | long c =>
    have hread : unescape (utf8 "U" ++ hex 8 c.toNat ++ rest) =
        (String.utf8EncodeChar c, (utf8 "U" ++ hex 8 c.toNat).length) := by
      show (String.utf8EncodeChar (Char.ofNat (unhex ((hex 8 c.toNat ++ rest).take 8))), 9) = _
      have hc : c.toNat.isValidChar := c.valid
      unfold Nat.isValidChar at hc
      rw [unhex_take (by omega), Char.ofNat_toNat, List.length_append, length_hex]
      rfl
    exact unquoted_escape hread
  | append _ _ ih ih' => rw [List.append_assoc, ih, ih', List.append_assoc]

theorem Escaped.lineFeed_notMem {t s : Bytes} (h : Escaped t s) : lineFeed ∉ t := by
  induction h with
  | plain h => exact fun hmem => h _ hmem (by simp)
  | self h =>
    rcases h with rfl | rfl
    · decide
    · decide
  | control h =>
    have all : ∀ e ∈ controls,
        lineFeed ∉ backslash :: String.utf8EncodeChar e.2 := by decide
    exact all _ (mem_controls h)
  | byte b => exact List.not_mem_append (by decide) (lineFeed_notMem_hex _ _)
  | short c => exact List.not_mem_append (by decide) (lineFeed_notMem_hex _ _)
  | long c => exact List.not_mem_append (by decide) (lineFeed_notMem_hex _ _)
  | append _ _ ih ih' => exact List.not_mem_append ih ih'

/-! ## Quoted byte strings -/

/-- Reading undoes quoting. -/
theorem unquoted_string (s : Bytes) : unquoted (string s).tail = s := by
  have hread := (escaped_chunks s).unquoted_append (utf8 "\"")
  have hend : unquoted (utf8 "\"") = [] := rfl
  rw [hend, List.append_nil] at hread
  exact hread

/-- **No two byte strings are quoted alike.** -/
theorem string_injective {s t : Bytes} (h : string s = string t) : s = t := by
  rw [← unquoted_string s, h, unquoted_string t]

/-- **A quoted byte string is on one line.** -/
theorem lineFeed_notMem_string (s : Bytes) : lineFeed ∉ string s :=
  List.not_mem_append (List.not_mem_append (by decide) (escaped_chunks s).lineFeed_notMem) (by decide)

/-- Whether a character stands for itself between double quotes. -/
def isPlain (c : Char) : Bool := c != '"' && c != '\\' && (controlLetter? c).isNone && Text.isPrintable c

theorem escapeChar_of_isPlain {c : Char} (h : isPlain c = true) : escapeChar '"' c = String.utf8EncodeChar c := by
  simp only [isPlain, Bool.and_eq_true, bne_iff_ne, Option.isNone_iff_eq_none] at h
  obtain ⟨⟨⟨hquote, hbackslash⟩, hcontrol⟩, hprintable⟩ := h
  simp only [escapeChar, hcontrol, hprintable, hquote, hbackslash, or_self, if_false, if_true]

/-- Characters that stand for themselves are quoted as they are. -/
theorem string_of_isPlain {cs : List Char} (h : cs.all isPlain = true) :
    string (cs.flatMap String.utf8EncodeChar) = utf8 "\"" ++ cs.flatMap String.utf8EncodeChar ++ utf8 "\"" := by
  have hescape : (cs.map Chunk.char).flatMap escapeChunk = cs.flatMap String.utf8EncodeChar := by
    rw [List.flatMap_map, List.flatMap_def, List.flatMap_def]
    exact congrArg List.flatten (List.map_congr_left fun c hc => escapeChar_of_isPlain (List.all_eq_true.1 h c hc))
  rw [string, Utf8.chunks_eq_map_char_iff.2 rfl, hescape]

end ExprLang.Quoted
