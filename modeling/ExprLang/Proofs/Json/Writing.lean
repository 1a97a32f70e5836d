import ExprLang.Json
import ExprLang.Proofs.Json.Grammar
import ExprLang.Proofs.Number.Spelling
import ExprLang.Proofs.Text.Encoding

/-!
# What is written is JSON

* `Json.exists_numberText`, `Json.exists_stringText` — what is written for a finite float is a number that reads back to it,
  and what is written for a string is the text of the characters that it shows;
* `Json.Represents` — what the text of a document stands for;
* `Json.exists_written` — what is written for a document is a JSON text that stands for it.
-/

namespace ExprLang.Json

open Utf8 (encode ofAscii)

/-! ## Numbers -/

theorem toNat_ofByte (b : UInt8) : (Char.ofNat b.toNat).toNat = b.toNat := by
  have hb := b.toNat_lt
  have hvalid : b.toNat.isValidChar := .inl (by omega)
  rw [Char.ofNat, dif_pos hvalid]
  rfl

theorem ofDigitChars_ofAscii (s : Bytes) : Nat.ofDigitChars 10 (ofAscii s) 0 = Decimal.ofDigits s := by
  rw [Nat.ofDigitChars_eq_foldl, ofAscii, List.foldl_map, Decimal.ofDigits]
  simp only [toNat_ofByte]
  rfl

theorem isDigit_ofByte {b : UInt8} (h : Bytes.isDigit b) : (Char.ofNat b.toNat).isDigit ∧ b < 128 := by
  simp only [Bytes.isDigit, Bool.and_eq_true, decide_eq_true_eq, UInt8.le_iff_toNat_le] at h
  obtain ⟨hlow, hhigh⟩ : 48 ≤ b.toNat ∧ b.toNat ≤ 57 := h
  constructor
  · have hchar := toNat_ofByte b
    simp only [Char.isDigit, Bool.and_eq_true, decide_eq_true_eq, ge_iff_le, UInt32.le_iff_toNat_le]
    show 48 ≤ (Char.ofNat b.toNat).toNat ∧ (Char.ofNat b.toNat).toNat ≤ 57
    omega
  · rw [UInt8.lt_iff_toNat_lt]
    show b.toNat < 128
    omega

theorem isDigits_ofAscii {s : Bytes} (h : s.IsDigits) : IsDigits (ofAscii s) := by
  refine ⟨mt List.map_eq_nil_iff.1 h.1, ?_⟩
  intro c hc
  obtain ⟨b, hb, rfl⟩ := List.mem_map.1 hc
  exact (isDigit_ofByte (h.2 b hb)).1

theorem isWhole_ofAscii {s : Bytes} (h : s.IsWhole) : IsWhole (ofAscii s) := by
  refine ⟨isDigits_ofAscii h.1, ?_⟩
  intro hhead
  rw [ofAscii, List.head?_map, Option.map_eq_some_iff] at hhead
  obtain ⟨b, hb, hzero⟩ := hhead
  have hnat := toNat_ofByte b
  rw [hzero] at hnat
  obtain rfl : b = 48 := UInt8.toNat_inj.1 hnat.symm
  rw [h.2 hb]
  rfl

theorem encode_digits {s : Bytes} (h : s.IsDigits) : encode (ofAscii s) = s :=
  Utf8.encode_ofAscii fun b hb => (isDigit_ofByte (h.2 b hb)).2

/-- A number in positional notation, with a sign before it and an exponent after it. -/
theorem exists_positionalText {text : Bytes} {d : Decimal} {tail : List Char} {x : Int} (negative : Bool)
    (h : NumberStyle.Positional text d) (htail : Exponent tail x) :
    ∃ cs, encode cs = encode (sign negative) ++ (text ++ encode tail) ∧
      NumberText cs ⟨negative, ⟨d.digits, x + d.exponent⟩⟩ := by
  cases h with
  | whole hw =>
    have hnumber := NumberText.mk negative (isWhole_ofAscii hw) .none htail
    refine ⟨sign negative ++ (ofAscii text ++ tail), ?_, ?_⟩
    · rw [Utf8.encode_append, Utf8.encode_append, encode_digits hw.1]
    · rw [List.append_nil, ofDigitChars_ofAscii, List.length_nil, Int.ofNat_zero, sub_zero] at hnumber
      rw [add_zero]
      exact hnumber
  | @fraction w f hw hf =>
    have hnumber := NumberText.mk negative (isWhole_ofAscii hw) (.some (isDigits_ofAscii hf)) htail
    refine ⟨sign negative ++ (ofAscii w ++ ('.' :: ofAscii f ++ tail)), ?_, ?_⟩
    · have hpoint : String.utf8EncodeChar '.' = [46] := rfl
      simp only [Utf8.encode_append, Utf8.encode_cons, encode_digits hw.1, encode_digits hf, hpoint, List.append_assoc,
        List.cons_append, List.nil_append]
    · have hlen : (ofAscii f).length = f.length := List.length_map _
      rw [← Utf8.ofAscii_append, ofDigitChars_ofAscii, hlen] at hnumber
      exact hnumber

/-- What is written for an exponent is one. -/
theorem exists_exponentText (width : Nat) (x : Int) :
    ∃ text, NumberStyle.exponentPart width x = encode text ∧ Exponent text x := by
  unfold NumberStyle.exponentPart
  extract_lets numeral
  obtain ⟨digits, hdigits⟩ : ∃ digits : Bytes,
      digits = List.replicate (width - numeral.length) NumberStyle.zeroDigit ++ numeral := ⟨_, rfl⟩
  have hwhole := Bytes.isWhole_ofNat x.natAbs
  have hisDigits : digits.IsDigits := by
    rw [hdigits]
    exact ⟨List.append_ne_nil_of_right_ne_nil _ hwhole.1.1,
      List.forall_mem_append.2 ⟨NumberStyle.isDigit_zeros, hwhole.1.2⟩⟩
  have hvalue : Nat.ofDigitChars 10 (ofAscii digits) 0 = x.natAbs := by
    rw [ofDigitChars_ofAscii, hdigits, Decimal.ofDigits_append, NumberStyle.zeroDigit, Decimal.ofDigits_zeros, zero_mul,
      zero_add, Decimal.ofDigits_ofNat]
  rw [List.append_assoc, ← hdigits]
  by_cases hx : x < 0
  · have hexponent := Exponent.some (.inl rfl) .minus (isDigits_ofAscii hisDigits)
    refine ⟨'e' :: (['-'] ++ ofAscii digits), ?_, ?_⟩
    · rw [if_pos hx, Utf8.encode_cons, Utf8.encode_append, encode_digits hisDigits]
      rfl
    · rw [if_pos rfl, hvalue] at hexponent
      rwa [show -(x.natAbs : Int) = x by omega] at hexponent
  · have hexponent := Exponent.some (.inl rfl) .plus (isDigits_ofAscii hisDigits)
    refine ⟨'e' :: (['+'] ++ ofAscii digits), ?_, ?_⟩
    · rw [if_neg hx, Utf8.encode_cons, Utf8.encode_append, encode_digits hisDigits]
      rfl
    · rw [if_neg Bool.false_ne_true, hvalue] at hexponent
      rwa [show (x.natAbs : Int) = x by omega] at hexponent

/-- **What is written for a finite float is a number that reads back.** -/
theorem exists_numberText (style : NumberStyle) {x : Float} (hx : Binary64.magnitude x < Binary64.infinity) :
    ∃ text n, style.format x = encode text ∧ NumberText text n ∧ n.toFloat = x := by
  obtain ⟨text, d, tail, y, hformat, hpositional, htail, hround⟩ := style.exists_positional hx
  obtain ⟨tail', hencode, hexponent⟩ : ∃ cs, tail = encode cs ∧ Exponent cs y := by
    rcases htail with ⟨rfl, rfl⟩ | rfl
    · exact ⟨[], rfl, .none⟩
    · exact exists_exponentText _ _
  obtain ⟨cs, hcs, hnumber⟩ := exists_positionalText (Binary64.isNegative x) hpositional hexponent
  refine ⟨cs, _, ?_, hnumber, ?_⟩
  · have hsign : encode (sign (Binary64.isNegative x)) = if Binary64.isNegative x then utf8 "-" else [] := by
      cases Binary64.isNegative x <;> rfl
    rw [hcs, ← hencode, ← hformat, hsign, NumberStyle.format, if_neg (by omega), if_neg (by omega)]
  · have hfloat : (⟨d.digits, y + d.exponent⟩ : Decimal).toFloat = Binary64.ofMagnitude (Binary64.magnitude x) := by
      rw [Decimal.toFloat, hround]
    rw [Numeral.toFloat, hfloat]
    exact Binary64.signed_magnitude hx

/-- What is written for an integer is a number of that value. -/
theorem exists_integerText (n : Int) : ∃ text m, Bytes.ofInt n = encode text ∧ NumberText text m ∧ m.value = n := by
  obtain ⟨negative, k, hn, hofInt⟩ : ∃ negative k, n = (if negative then -(k : Int) else k) ∧
      Bytes.ofInt n = encode (sign negative) ++ Bytes.ofNat k := by
    cases n with
    | ofNat k => exact ⟨false, k, rfl, rfl⟩
    | negSucc k => exact ⟨true, k + 1, rfl, rfl⟩
  obtain ⟨cs, hcs, hnumber⟩ := exists_positionalText negative (.whole (Bytes.isWhole_ofNat k)) .none
  refine ⟨cs, _, ?_, hnumber, ?_⟩
  · rw [hcs, hofInt]
    simp [encode]
  · rw [Numeral.value, Decimal.value, Decimal.ofDigits_ofNat, hn]
    cases negative <;> simp

/-! ## Strings -/

/-- How a character of a string is given in its text. -/
def pieceOf (c : Char) : Piece := if escapeLetter? c = none ∧ isEscaped c then .code c.toNat else .char c

theorem unescape?_of_escapeLetter? {c letter : Char} (h : escapeLetter? c = some letter) : unescape? letter = some c := by
  unfold escapeLetter? at h
  split at h <;> cases h
  all_goals
    rename_i hnat
    rw [← Char.ofNat_toNat c, hnat]
    rfl

theorem exists_hexText {n : Nat} (hn : n < 0x10000) :
    ∃ a b c d, encode [a, b, c, d] = Quoted.hex 4 n ∧ hexCode? a b c d = some n := by
  let digit (k : Nat) : UInt8 := Quoted.hexDigit (k % 16)
  have hvalue : ∀ k, hexValue? (Char.ofNat (digit k).toNat) = some (k % 16) := by
    intro k
    have all : ∀ k : Fin 16, hexValue? (Char.ofNat (Quoted.hexDigit k).toNat) = some k.val := by decide
    exact all ⟨k % 16, Nat.mod_lt k (by decide)⟩
  have hascii : ∀ k, digit k < 128 := by
    intro k
    have all : ∀ k : Fin 16, Quoted.hexDigit k < 128 := by decide
    exact all ⟨k % 16, Nat.mod_lt k (by decide)⟩
  refine ⟨_, _, _, _, @Utf8.encode_ofAscii [digit (n / 16 / 16 / 16), digit (n / 16 / 16), digit (n / 16), digit n] ?_, ?_⟩
  · intro b hb
    simp only [List.mem_cons, List.not_mem_nil, or_false] at hb
    rcases hb with rfl | rfl | rfl | rfl <;> exact hascii _
  · simp only [hexCode?, hvalue, Option.pure_def, Option.bind_eq_bind, Option.bind_some, Option.some.injEq]
    omega

theorem of_escapeLetter?_eq_none {c : Char} (h : escapeLetter? c = none) : c ≠ '"' ∧ c ≠ '\\' := by
  constructor <;> rintro rfl <;> cases h

theorem lt_of_isEscaped {c : Char} (h : isEscaped c) : c.toNat < 0x10000 := by
  simp only [isEscaped, Bool.or_eq_true, decide_eq_true_eq, beq_iff_eq] at h
  rcases h with ((((h | rfl) | rfl) | rfl) | h) | h
  any_goals decide
  all_goals omega

/-- What is written for a character is a piece of a string. -/
theorem exists_pieceText (c : Char) : ∃ text, escapeChar c = encode text ∧ PieceText text (pieceOf c) := by
  cases h : escapeLetter? c with
  | some letter =>
    refine ⟨['\\', letter], ?_, ?_⟩
    · simp only [escapeChar, h]
      exact congrArg _ (List.append_nil _).symm
    · rw [pieceOf, if_neg (by simp [h])]
      exact .letter (unescape?_of_escapeLetter? h)
  | none =>
    by_cases hescaped : isEscaped c
    · obtain ⟨i, j, k, l, hencode, hcode⟩ := exists_hexText (lt_of_isEscaped hescaped)
      refine ⟨['\\', 'u', i, j, k, l], ?_, ?_⟩
      · simp only [escapeChar, h, hescaped, if_true, ← hencode]
        rfl
      · rw [pieceOf, if_pos ⟨h, hescaped⟩]
        exact .code hcode
    · obtain ⟨hquote, hbackslash⟩ := of_escapeLetter?_eq_none h
      have hvisible : 0x20 ≤ c.toNat := by
        by_contra hlow
        exact hescaped (by simp [isEscaped, show c.toNat < 0x20 by omega])
      refine ⟨[c], ?_, ?_⟩
      · simp only [escapeChar, h, hescaped]
        exact (List.append_nil _).symm
      · rw [pieceOf, if_neg (by simp [hescaped])]
        exact .plain hvisible hquote hbackslash

theorem join_code {n : Nat} (hn : Piece.isHigh n = false) (rest : List Piece) :
    Piece.join (.code n :: rest) = Piece.single n :: Piece.join rest := by
  match rest with
  | [] => rfl
  | .char c :: rest => rfl
  | .code m :: rest => rw [Piece.join, hn, Bool.false_and, if_neg Bool.false_ne_true]

/-- A character is no surrogate. -/
theorem not_surrogate (c : Char) : Piece.isHigh c.toNat = false ∧ Piece.isLow c.toNat = false := by
  have hvalid : c.toNat < 0xD800 ∨ 0xDFFF < c.toNat ∧ c.toNat < 0x110000 := c.valid
  simp only [Piece.isHigh, Piece.isLow, Bool.and_eq_false_iff, decide_eq_false_iff_not]
  omega

theorem join_pieceOf (cs : List Char) : Piece.join (cs.map pieceOf) = cs := by
  induction cs with
  | nil => rfl
  | cons c cs ih =>
    rw [List.map_cons, pieceOf]
    split
    · obtain ⟨hhigh, hlow⟩ := not_surrogate c
      rw [join_code hhigh, ih, Piece.single, hhigh, hlow, Bool.or_false, if_neg Bool.false_ne_true, Char.ofNat_toNat]
    · rw [Piece.join, ih]

/-- **What is written for a string is the text of what it shows.** -/
theorem exists_stringText (s : Bytes) : ∃ text, quote s = encode text ∧ StringText text (Utf8.shown s) := by
  obtain ⟨text, hencode, hpieces⟩ : ∃ text, (Utf8.shown s).flatMap escapeChar = encode text ∧
      PiecesText text ((Utf8.shown s).map pieceOf) := by
    generalize Utf8.shown s = cs
    induction cs with
    | nil => exact ⟨[], rfl, .nil⟩
    | cons c cs ih =>
      obtain ⟨text, hencode, hpiece⟩ := exists_pieceText c
      obtain ⟨rest, hrest, hpieces⟩ := ih
      exact ⟨text ++ rest, by rw [List.flatMap_cons, hencode, hrest, Utf8.encode_append], .cons hpiece hpieces⟩
  refine ⟨'"' :: (text ++ ['"']), ?_, ?_⟩
  · have hflat : (Utf8.chunks s).flatMap (fun chunk => escapeChar chunk.toChar) = encode text := by
      rw [← hencode, Utf8.shown, List.flatMap_map]
    rw [quote, hflat, Utf8.encode_cons, Utf8.encode_append, List.append_assoc]
    rfl
  · have hstring := StringText.mk hpieces
    rwa [join_pieceOf] at hstring

/-! ## Documents -/

mutual

/-- All floats in the document are finite. -/
def IsFinite : Json → Prop
  | .number x => Binary64.magnitude x < Binary64.infinity
  | .object ms => MembersFinite ms
  | _ => True

def MembersFinite : List (Bytes × Json) → Prop
  | [] => True
  | (_, doc) :: ms => doc.IsFinite ∧ MembersFinite ms

end

mutual

/-- What a text of the document stands for. -/
def Represents : Json → Datum → Prop
  | .null, v => v = .null
  | .bool b, v => v = .bool b
  | .int n, v => ∃ m : Numeral, v = .number m ∧ m.value = n
  | .number x, v => ∃ m : Numeral, v = .number m ∧ m.toFloat = x
  | .string s, v => v = .string (Utf8.shown s)
  | .object ms, v => ∃ vs, v = .object vs ∧ MembersRepresent ms vs

def MembersRepresent : List (Bytes × Json) → List (List Char × Datum) → Prop
  | [], vs => vs = []
  | (key, doc) :: ms, vs => ∃ v rest, vs = (Utf8.shown key, v) :: rest ∧ doc.Represents v ∧ MembersRepresent ms rest

end

theorem exists_newline (depth : Nat) : ∃ blanks, newline depth = encode blanks ∧ Blanks blanks := by
  have hmem : ∀ b ∈ newline depth, b = 10 ∨ b = 32 := by
    intro b hb
    rcases List.mem_append.1 hb with hb | hb
    · exact .inl (List.mem_singleton.1 hb)
    · exact .inr (List.eq_of_mem_replicate hb)
  refine ⟨ofAscii (newline depth), (Utf8.encode_ofAscii ?_).symm, ?_⟩
  · intro b hb
    rcases hmem b hb with rfl | rfl <;> decide
  · intro c hc
    obtain ⟨b, hb, rfl⟩ := List.mem_map.1 hc
    rcases hmem b hb with rfl | rfl <;> rfl

theorem blanks_nil : Blanks [] := List.forall_mem_nil _

theorem blanks_space : Blanks [' '] := List.forall_mem_singleton.2 rfl

mutual

/-- **What is written for a document is a JSON text that stands for it.** -/
theorem exists_written (depth : Nat) : ∀ doc : Json, doc.IsFinite →
    ∃ text v, (∀ rest, renderOnto depth doc rest = encode text ++ rest) ∧ Written text (.value v) ∧ doc.Represents v
  | .null, _ => ⟨_, _, fun _ => rfl, .word (.head _), rfl⟩
  | .bool true, _ => ⟨_, _, fun _ => rfl, .word (.tail _ (.head _)), rfl⟩
  | .bool false, _ => ⟨_, _, fun _ => rfl, .word (.tail _ (.tail _ (.head _))), rfl⟩
  | .int n, _ => by
    obtain ⟨text, m, htext, hnumber, hvalue⟩ := exists_integerText n
    exact ⟨text, _, fun rest => by rw [renderOnto, htext], .number hnumber, m, rfl, hvalue⟩
  | .number x, hx => by
    obtain ⟨text, m, htext, hnumber, hvalue⟩ := exists_numberText numberStyle hx
    exact ⟨text, _, fun rest => by rw [renderOnto, htext], .number hnumber, m, rfl, hvalue⟩
  | .string s, _ => by
    obtain ⟨text, htext, hstring⟩ := exists_stringText s
    exact ⟨text, _, fun rest => by rw [renderOnto, htext], .string hstring, rfl⟩
  | .object [], _ => ⟨_, _, fun _ => rfl, .emptyObject blanks_nil, [], rfl, rfl⟩
  | .object (m :: ms), hms => by
    obtain ⟨blanks, hblanks, hnewline⟩ := exists_newline depth
    obtain ⟨vs, hvs, hwritten⟩ := exists_writtenMembers (depth + 1) (m :: ms) (List.cons_ne_nil m ms) hms
    obtain ⟨text, htext, hmembers⟩ := hwritten blanks hnewline
    refine ⟨'\x7b' :: (text ++ ['\x7d']), .object vs, ?_, .object hmembers, vs, rfl, hvs⟩
    intro rest
    rw [renderOnto, hblanks, htext, Utf8.encode_cons, Utf8.encode_append]
    simp only [List.append_assoc]
    rfl

/-- The members of an object, with the blanks after the last of them. -/
theorem exists_writtenMembers (depth : Nat) : ∀ ms : List (Bytes × Json), ms ≠ [] → MembersFinite ms →
    ∃ vs, MembersRepresent ms vs ∧ ∀ after, Blanks after → ∃ text,
      (∀ rest, membersOnto depth ms (encode after ++ rest) = encode text ++ rest) ∧ Written text (.members vs)
  | [], hne, _ => absurd rfl hne
  | [(key, doc)], _, h => by
    obtain ⟨blanks, hblanks, hnewline⟩ := exists_newline depth
    obtain ⟨keyText, hkeyText, hkey⟩ := exists_stringText key
    obtain ⟨text, v, htext, hwritten, hrepresents⟩ := exists_written depth doc h.1
    refine ⟨[(Utf8.shown key, v)], ⟨v, [], rfl, hrepresents, rfl⟩, ?_⟩
    intro after hafter
    refine ⟨_, ?_, .member hnewline hkey blanks_nil blanks_space hwritten hafter⟩
    intro rest
    rw [membersOnto, hblanks, hkeyText, htext]
    simp only [Utf8.encode_append, Utf8.encode_cons, List.append_assoc]
    rfl
  | (key, doc) :: m :: ms, _, h => by
    obtain ⟨blanks, hblanks, hnewline⟩ := exists_newline depth
    obtain ⟨keyText, hkeyText, hkey⟩ := exists_stringText key
    obtain ⟨text, v, htext, hwritten, hrepresents⟩ := exists_written depth doc h.1
    obtain ⟨vs, hvs, hmore⟩ := exists_writtenMembers depth (m :: ms) (List.cons_ne_nil m ms) h.2
    refine ⟨(Utf8.shown key, v) :: vs, ⟨v, vs, rfl, hrepresents, hvs⟩, ?_⟩
    intro after hafter
    obtain ⟨more, hmoreText, hmembers⟩ := hmore after hafter
    refine ⟨_, ?_, .members hnewline hkey blanks_nil blanks_space hwritten blanks_nil hmembers⟩
    intro rest
    rw [membersOnto, hblanks, hkeyText, htext, hmoreText]
    · simp only [Utf8.encode_append, Utf8.encode_cons, List.append_assoc]
      rfl
    · exact List.cons_ne_nil m ms

end

end ExprLang.Json
