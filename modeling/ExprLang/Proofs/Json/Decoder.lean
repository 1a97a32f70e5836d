import ExprLang.Proofs.Json.Grammar
import Mathlib.Data.List.TakeWhile

/-!
# Decoding JSON texts

A decoder for all JSON texts, which takes the longest number and reads values, items and members by recursive descent.

* `Json.decode` — what a text stands for, if it is a JSON text;
* `Json.Sound` — what is read is written there; `Json.Written.readBack` — what is written is read;
* `Json.decode_eq_some_iff` — so a text is decoded exactly if it is a JSON text, which stands for one thing only.
-/

namespace ExprLang.Json

/-! ## Reading -/

/-- The longest run of digits, if it is not empty, and what follows it. -/
def readDigits (cs : List Char) : Option (List Char × List Char) :=
  if cs.takeWhile Char.isDigit = [] then none else some (cs.takeWhile Char.isDigit, cs.dropWhile Char.isDigit)

def readFraction : List Char → Option (List Char × List Char)
  | [] => some ([], [])
  | c :: rest => if c = '.' then readDigits rest else some ([], c :: rest)

def readSign : List Char → Bool × List Char
  | [] => (false, [])
  | c :: rest => if c = '-' then (true, rest) else if c = '+' then (false, rest) else (false, c :: rest)

def readExponent : List Char → Option (Int × List Char)
  | [] => some (0, [])
  | c :: rest =>
    if c = 'e' ∨ c = 'E' then
      let (negative, rest) := readSign rest
      (readDigits rest).map fun (ds, rest) => (if negative then -(Nat.ofDigitChars 10 ds 0 : Int) else Nat.ofDigitChars 10 ds 0, rest)
    else some (0, c :: rest)

/-- A number without its sign. -/
def readMagnitude (cs : List Char) : Option (Decimal × List Char) :=
  (readDigits cs).bind fun (whole, rest) =>
    if whole.head? = some '0' ∧ whole ≠ ['0'] then none
    else
      (readFraction rest).bind fun (digits, rest) =>
        (readExponent rest).map fun (x, rest) => (⟨Nat.ofDigitChars 10 (whole ++ digits) 0, x - digits.length⟩, rest)

def readNumber : List Char → Option (Numeral × List Char)
  | [] => none
  | c :: rest =>
    if c = '-' then (readMagnitude rest).map fun (d, rest) => (⟨true, d⟩, rest)
    else (readMagnitude (c :: rest)).map fun (d, rest) => (⟨false, d⟩, rest)

/-- The pieces of a string up to the quote that ends it, and what follows that. -/
def readPieces : List Char → Option (List Piece × List Char)
  | [] => none
  | c :: rest =>
    if c = '"' then some ([], rest)
    else if c = '\\' then
      match rest with
      | [] => none
      | e :: rest =>
        if e = 'u' then
          match rest with
          | i :: j :: k :: l :: rest =>
            (hexCode? i j k l).bind fun n => (readPieces rest).map fun (ps, rest) => (.code n :: ps, rest)
          | _ => none
        else (unescape? e).bind fun c => (readPieces rest).map fun (ps, rest) => (.char c :: ps, rest)
    else if 0x20 ≤ c.toNat then (readPieces rest).map fun (ps, rest) => (.char c :: ps, rest)
    else none

def readString : List Char → Option (List Char × List Char)
  | [] => none
  | c :: rest => if c = '"' then (readPieces rest).map fun (ps, rest) => (Piece.join ps, rest) else none

def readWord (cs : List Char) : Option (Datum × List Char) :=
  words.findSome? fun (text, v) => if text.isPrefixOf cs then some (v, cs.drop text.length) else none

def skipBlanks (cs : List Char) : List Char := cs.dropWhile isBlank

/-- Goes over the character `c`. -/
def expect (c : Char) : List Char → Option (List Char)
  | [] => none
  | d :: rest => if d = c then some rest else none

mutual

/-- Reads a value with at most `calls` calls open at a time. -/
def readValue : (calls : Nat) → List Char → Option (Datum × List Char)
  | 0, _ => none
  | _, [] => none
  | calls + 1, c :: rest =>
    if c = '"' then (readString (c :: rest)).map fun (s, rest) => (.string s, rest)
    else if c = '[' then
      match expect ']' (skipBlanks rest) with
      | some rest => some (.array [], rest)
      | none => (readItems calls rest).bind fun (vs, rest) => (expect ']' rest).map fun rest => (.array vs, rest)
    else if c = '\x7b' then
      match expect '\x7d' (skipBlanks rest) with
      | some rest => some (.object [], rest)
      | none => (readMembers calls rest).bind fun (ms, rest) => (expect '\x7d' rest).map fun rest => (.object ms, rest)
    else if c = '-' ∨ c.isDigit then (readNumber (c :: rest)).map fun (n, rest) => (.number n, rest)
    else readWord (c :: rest)

/-- Reads the items of an array, up to the bracket that closes it. -/
def readItems : (calls : Nat) → List Char → Option (List Datum × List Char)
  | 0, _ => none
  | calls + 1, cs =>
    (readValue calls (skipBlanks cs)).bind fun (v, rest) =>
      match expect ',' (skipBlanks rest) with
      | none => some ([v], skipBlanks rest)
      | some rest => (readItems calls rest).map fun (vs, rest) => (v :: vs, rest)

/-- Reads the members of an object, up to the bracket that closes it. -/
def readMembers : (calls : Nat) → List Char → Option (List (List Char × Datum) × List Char)
  | 0, _ => none
  | calls + 1, cs =>
    (readString (skipBlanks cs)).bind fun (key, rest) =>
      (expect ':' (skipBlanks rest)).bind fun rest =>
        (readValue calls (skipBlanks rest)).bind fun (v, rest) =>
          match expect ',' (skipBlanks rest) with
          | none => some ([(key, v)], skipBlanks rest)
          | some rest => (readMembers calls rest).map fun (ms, rest) => ((key, v) :: ms, rest)

end

/-- What a text stands for, if it is a JSON text. -/
def decode (cs : List Char) : Option Datum :=
  (readValue (2 * cs.length) (skipBlanks cs)).bind fun (v, rest) => if skipBlanks rest = [] then some v else none

/-! ## What is read is written there -/

variable {cs rest : List Char}

theorem of_readDigits {ds} (h : readDigits cs = some (ds, rest)) : cs = ds ++ rest ∧ IsDigits ds := by
  unfold readDigits at h
  split at h
  · cases h
  · rename_i hne
    cases h
    exact ⟨List.takeWhile_append_dropWhile.symm, hne, fun c hc => List.mem_takeWhile_imp hc⟩

theorem of_readFraction {ds} (h : readFraction cs = some (ds, rest)) : ∃ text, cs = text ++ rest ∧ Fraction text ds := by
  unfold readFraction at h
  split at h
  · cases h
    exact ⟨[], rfl, .none⟩
  · split at h
    · rename_i hc
      obtain ⟨rfl, hds⟩ := of_readDigits h
      exact ⟨'.' :: ds, by rw [hc, List.cons_append], .some hds⟩
    · cases h
      exact ⟨[], rfl, .none⟩

theorem of_readSign {negative} (h : readSign cs = (negative, rest)) : ∃ text, cs = text ++ rest ∧ Signed text negative := by
  revert h
  fun_cases readSign cs <;> rintro ⟨⟩
  · exact ⟨[], rfl, .none⟩
  · exact ⟨['-'], rfl, .minus⟩
  · exact ⟨['+'], rfl, .plus⟩
  · exact ⟨[], rfl, .none⟩

theorem of_readExponent {x} (h : readExponent cs = some (x, rest)) : ∃ text, cs = text ++ rest ∧ Exponent text x := by
  unfold readExponent at h
  split at h
  · cases h
    exact ⟨[], rfl, .none⟩
  · rename_i c tail
    split at h
    · rename_i hmark
      rcases hs : readSign tail with ⟨negative, digits⟩
      obtain ⟨sign, rfl, hsign⟩ := of_readSign hs
      rw [hs, Option.map_eq_some_iff] at h
      obtain ⟨⟨ds, rest'⟩, hds, heq⟩ := h
      obtain ⟨rfl, digits⟩ := of_readDigits hds
      cases heq
      exact ⟨_, by simp, .some hmark hsign digits⟩
    · cases h
      exact ⟨[], rfl, .none⟩

theorem of_readMagnitude {d} (negative : Bool) (h : readMagnitude cs = some (d, rest)) :
    ∃ text, cs = text ++ rest ∧ NumberText (sign negative ++ text) ⟨negative, d⟩ := by
  rw [readMagnitude, Option.bind_eq_some_iff] at h
  obtain ⟨⟨whole, rest₁⟩, hwhole, h⟩ := h
  obtain ⟨rfl, hdigits⟩ := of_readDigits hwhole
  dsimp only at h
  split at h
  · cases h
  · rename_i hzero
    rw [Option.bind_eq_some_iff] at h
    obtain ⟨⟨digits, rest₂⟩, hfraction, h⟩ := h
    obtain ⟨fraction, rfl, hdigits'⟩ := of_readFraction hfraction
    obtain ⟨⟨x, rest₃⟩, htail, h⟩ := Option.map_eq_some_iff.1 h
    obtain ⟨tail, rfl, hx⟩ := of_readExponent htail
    cases h
    refine ⟨whole ++ (fraction ++ tail), by simp, .mk negative ⟨hdigits, fun h0 => ?_⟩ hdigits' hx⟩
    by_contra hne
    exact hzero ⟨h0, hne⟩

theorem of_readNumber {n} (h : readNumber cs = some (n, rest)) : ∃ text, cs = text ++ rest ∧ NumberText text n := by
  unfold readNumber at h
  split at h
  · cases h
  · split at h <;> obtain ⟨⟨d, rest'⟩, hd, heq⟩ := Option.map_eq_some_iff.1 h <;> cases heq
    · rename_i hc
      obtain ⟨text, rfl, htext⟩ := of_readMagnitude true hd
      exact ⟨'-' :: text, by rw [hc, List.cons_append], htext⟩
    · exact of_readMagnitude false hd

theorem of_readPieces {ps} (h : readPieces cs = some (ps, rest)) :
    ∃ text, cs = text ++ '"' :: rest ∧ PiecesText text ps := by
  fun_induction readPieces cs generalizing ps rest with
  | case1 => cases h
  | case2 tail =>
    cases h
    exact ⟨[], rfl, .nil⟩
  | case3 => cases h
  | case4 i j k l tail _ ih =>
    obtain ⟨n, hn, h⟩ := Option.bind_eq_some_iff.1 h
    obtain ⟨⟨ps, rest'⟩, hps, heq⟩ := Option.map_eq_some_iff.1 h
    cases heq
    obtain ⟨text, rfl, htext⟩ := ih hps
    exact ⟨_, rfl, .cons (.code hn) htext⟩
  | case5 => cases h
  | case6 e tail _ _ ih =>
    obtain ⟨c, hc, h⟩ := Option.bind_eq_some_iff.1 h
    obtain ⟨⟨ps, rest'⟩, hps, heq⟩ := Option.map_eq_some_iff.1 h
    cases heq
    obtain ⟨text, rfl, htext⟩ := ih hps
    exact ⟨_, rfl, .cons (.letter hc) htext⟩
  | case7 c tail hquote hbackslash visible ih =>
    obtain ⟨⟨ps, rest'⟩, hps, heq⟩ := Option.map_eq_some_iff.1 h
    cases heq
    obtain ⟨text, rfl, htext⟩ := ih hps
    exact ⟨_, rfl, .cons (.plain visible hquote hbackslash) htext⟩
  | case8 => cases h

theorem of_readString {s} (h : readString cs = some (s, rest)) : ∃ text, cs = text ++ rest ∧ StringText text s := by
  unfold readString at h
  split at h
  · cases h
  · split at h
    · rename_i hc
      obtain ⟨⟨ps, rest'⟩, hps, heq⟩ := Option.map_eq_some_iff.1 h
      cases heq
      obtain ⟨text, rfl, htext⟩ := of_readPieces hps
      exact ⟨_, by simp [hc], .mk htext⟩
    · cases h

theorem of_readWord {v} (h : readWord cs = some (v, rest)) : ∃ text, cs = text ++ rest ∧ (text, v) ∈ words := by
  obtain ⟨⟨text, w⟩, hmem, h⟩ := List.exists_of_findSome?_eq_some h
  dsimp only at h
  split at h
  · rename_i hprefix
    cases h
    obtain ⟨tail, rfl⟩ := List.isPrefixOf_iff_prefix.1 hprefix
    exact ⟨text, by simp, hmem⟩
  · cases h

theorem of_expect {c} (h : expect c cs = some rest) : cs = c :: rest := by
  revert h
  fun_cases expect c cs <;> rintro ⟨⟩
  rfl

theorem exists_skipBlanks (cs : List Char) : ∃ blanks, cs = blanks ++ skipBlanks cs ∧ Blanks blanks :=
  ⟨cs.takeWhile isBlank, List.takeWhile_append_dropWhile.symm, fun _ hc => List.mem_takeWhile_imp hc⟩

theorem of_expect_skipBlanks {c} (h : expect c (skipBlanks cs) = some rest) :
    ∃ blanks, cs = blanks ++ c :: rest ∧ Blanks blanks := by
  obtain ⟨blanks, hcs, hblanks⟩ := exists_skipBlanks cs
  exact ⟨blanks, of_expect h ▸ hcs, hblanks⟩

/-- What `calls` calls read is written there. -/
structure Sound (calls : Nat) : Prop where
  value : ∀ {cs v rest}, readValue calls cs = some (v, rest) → ∃ text, cs = text ++ rest ∧ Written text (.value v)
  items : ∀ {cs vs rest}, readItems calls cs = some (vs, rest) → ∃ text, cs = text ++ rest ∧ Written text (.items vs)
  members : ∀ {cs ms rest}, readMembers calls cs = some (ms, rest) → ∃ text, cs = text ++ rest ∧ Written text (.members ms)

theorem Sound.of_readValue {calls v} (sound : Sound calls) (h : readValue (calls + 1) cs = some (v, rest)) :
    ∃ text, cs = text ++ rest ∧ Written text (.value v) := by
  match cs with
  | [] => cases h
  | c :: tail =>
    rw [readValue] at h
    split at h
    · obtain ⟨⟨s, rest'⟩, hs, heq⟩ := Option.map_eq_some_iff.1 h
      cases heq
      obtain ⟨text, htail, htext⟩ := of_readString hs
      exact ⟨text, htail, .string htext⟩
    split at h
    · rename_i hc
      split at h
      · rename_i rest' hclose
        cases h
        obtain ⟨blanks, rfl, hblanks⟩ := of_expect_skipBlanks hclose
        exact ⟨_, by simp [hc], .emptyArray hblanks⟩
      · obtain ⟨⟨vs, rest'⟩, hvs, h⟩ := Option.bind_eq_some_iff.1 h
        obtain ⟨rest'', hclose, heq⟩ := Option.map_eq_some_iff.1 h
        cases heq
        obtain ⟨text, rfl, htext⟩ := sound.items hvs
        rw [of_expect hclose]
        exact ⟨_, by simp [hc], .array htext⟩
    split at h
    · rename_i hc
      split at h
      · rename_i rest' hclose
        cases h
        obtain ⟨blanks, rfl, hblanks⟩ := of_expect_skipBlanks hclose
        exact ⟨_, by simp [hc], .emptyObject hblanks⟩
      · obtain ⟨⟨ms, rest'⟩, hms, h⟩ := Option.bind_eq_some_iff.1 h
        obtain ⟨rest'', hclose, heq⟩ := Option.map_eq_some_iff.1 h
        cases heq
        obtain ⟨text, rfl, htext⟩ := sound.members hms
        rw [of_expect hclose]
        exact ⟨_, by simp [hc], .object htext⟩
    split at h
    · obtain ⟨⟨n, rest'⟩, hn, heq⟩ := Option.map_eq_some_iff.1 h
      cases heq
      obtain ⟨text, htail, htext⟩ := of_readNumber hn
      exact ⟨text, htail, .number htext⟩
    · obtain ⟨text, htail, htext⟩ := of_readWord h
      exact ⟨text, htail, .word htext⟩

theorem Sound.of_readItems {calls vs} (sound : Sound calls) (h : readItems (calls + 1) cs = some (vs, rest)) :
    ∃ text, cs = text ++ rest ∧ Written text (.items vs) := by
  obtain ⟨before, hcs, hbefore⟩ := exists_skipBlanks cs
  rw [readItems, Option.bind_eq_some_iff] at h
  obtain ⟨⟨v, rest₁⟩, hv, h⟩ := h
  obtain ⟨text, htext, hwritten⟩ := sound.value hv
  dsimp only at h
  split at h
  · obtain ⟨after, hrest, hafter⟩ := exists_skipBlanks rest₁
    cases h
    refine ⟨before ++ (text ++ after), ?_, .item hbefore hwritten hafter⟩
    rw [List.append_assoc, List.append_assoc, ← hrest, ← htext]
    exact hcs
  · rename_i rest₂ hcomma
    obtain ⟨after, hrest, hafter⟩ := of_expect_skipBlanks hcomma
    obtain ⟨⟨vs, rest₃⟩, hvs, heq⟩ := Option.map_eq_some_iff.1 h
    cases heq
    obtain ⟨more, rfl, hmore⟩ := sound.items hvs
    refine ⟨before ++ (text ++ (after ++ ',' :: more)), ?_, .items hbefore hwritten hafter hmore⟩
    rw [hcs, htext, hrest]
    simp

theorem Sound.of_readMembers {calls ms} (sound : Sound calls) (h : readMembers (calls + 1) cs = some (ms, rest)) :
    ∃ text, cs = text ++ rest ∧ Written text (.members ms) := by
  obtain ⟨before, hcs, hbefore⟩ := exists_skipBlanks cs
  rw [readMembers, Option.bind_eq_some_iff] at h
  obtain ⟨⟨s, rest₁⟩, hs, h⟩ := h
  obtain ⟨key, hkey, hstring⟩ := of_readString hs
  rw [Option.bind_eq_some_iff] at h
  obtain ⟨rest₂, hcolon, h⟩ := h
  obtain ⟨middle, hrest₁, hmiddle⟩ := of_expect_skipBlanks hcolon
  obtain ⟨between, hrest₂, hbetween⟩ := exists_skipBlanks rest₂
  rw [Option.bind_eq_some_iff] at h
  obtain ⟨⟨v, rest₃⟩, hv, h⟩ := h
  obtain ⟨text, htext, hwritten⟩ := sound.value hv
  have hcs' : cs = before ++ (key ++ (middle ++ ':' :: (between ++ (text ++ rest₃)))) := by
    rw [← htext, ← hrest₂, ← hrest₁, ← hkey]
    exact hcs
  dsimp only at h
  split at h
  · obtain ⟨after, hrest, hafter⟩ := exists_skipBlanks rest₃
    cases h
    refine ⟨before ++ (key ++ (middle ++ ':' :: (between ++ (text ++ after)))), ?_,
      .member hbefore hstring hmiddle hbetween hwritten hafter⟩
    rw [hcs']
    nth_rewrite 1 [hrest]
    simp
  · rename_i rest₄ hcomma
    obtain ⟨after, hrest, hafter⟩ := of_expect_skipBlanks hcomma
    obtain ⟨⟨ms, rest₅⟩, hms, heq⟩ := Option.map_eq_some_iff.1 h
    cases heq
    obtain ⟨more, rfl, hmore⟩ := sound.members hms
    refine ⟨before ++ (key ++ (middle ++ ':' :: (between ++ (text ++ (after ++ ',' :: more))))), ?_,
      .members hbefore hstring hmiddle hbetween hwritten hafter hmore⟩
    rw [hcs', hrest]
    simp

/-- **What is read is written there.** -/
theorem sound (calls : Nat) : Sound calls := by
  induction calls with
  | zero => constructor <;> rintro _ _ _ ⟨⟩
  | succ calls ih => exact ⟨ih.of_readValue, ih.of_readItems, ih.of_readMembers⟩

/-! ## What is written is read -/

/-- No character of `p` comes next. -/
def Clear (p : Char → Bool) (rest : List Char) : Prop := ∀ c ∈ rest.head?, p c = false

theorem takeWhile_append_of_clear {p : Char → Bool} {run : List Char} (hrun : ∀ c ∈ run, p c) (hrest : Clear p rest) :
    (run ++ rest).takeWhile p = run ∧ (run ++ rest).dropWhile p = rest := by
  rw [List.takeWhile_append_of_pos hrun, List.dropWhile_append_of_pos hrun]
  cases rest with
  | nil => simp
  | cons c rest =>
    have hc : p c = false := hrest c rfl
    simp [hc]

theorem readDigits_append {ds : List Char} (h : IsDigits ds) (hrest : Clear Char.isDigit rest) :
    readDigits (ds ++ rest) = some (ds, rest) := by
  obtain ⟨htake, hdrop⟩ := takeWhile_append_of_clear h.2 hrest
  rw [readDigits, htake, hdrop, if_neg h.1]

/-- The characters that may follow a value. -/
def isEnd (c : Char) : Bool := isBlank c || c == ',' || c == ']' || c == '\x7d'

def Ends (rest : List Char) : Prop := ∀ c ∈ rest.head?, isEnd c

theorem of_isEnd {c : Char} (h : isEnd c) : c.isDigit = false ∧ c ≠ '.' ∧ c ≠ 'e' ∧ c ≠ 'E' := by
  simp only [isEnd, isBlank, Bool.or_eq_true, beq_iff_eq] at h
  rcases h with (((((rfl | rfl) | rfl) | rfl) | rfl) | rfl) | rfl <;> decide

theorem readSign_append {text ds : List Char} {negative : Bool} (h : Signed text negative) (hds : IsDigits ds) :
    readSign (text ++ (ds ++ rest)) = (negative, ds ++ rest) := by
  cases h with
  | plus => rfl
  | minus => rfl
  | none =>
    obtain ⟨d, ds, rfl⟩ := List.exists_cons_of_ne_nil hds.1
    have hd : d.isDigit := hds.2 d List.mem_cons_self
    have hminus : d ≠ '-' := by
      rintro rfl
      cases hd
    have hplus : d ≠ '+' := by
      rintro rfl
      cases hd
    rw [List.nil_append, List.cons_append, readSign, if_neg hminus, if_neg hplus]

theorem readExponent_append {text : List Char} {x : Int} (h : Exponent text x) (hrest : Ends rest) :
    readExponent (text ++ rest) = some (x, rest) := by
  have hclear : Clear Char.isDigit rest := fun c hc => (of_isEnd (hrest c hc)).1
  cases h with
  | none =>
    cases rest with
    | nil => rfl
    | cons c rest =>
      obtain ⟨-, -, he, hE⟩ := of_isEnd (hrest c rfl)
      exact if_neg (not_or.2 ⟨he, hE⟩)
  | @some mark sign negative ds hmark hsign digits =>
    rw [List.cons_append, List.append_assoc, readExponent, if_pos hmark, readSign_append hsign digits]
    simp only [readDigits_append digits hclear, Option.map_some]

theorem clear_exponent {text : List Char} {x : Int} (h : Exponent text x) (hrest : Ends rest) :
    Clear Char.isDigit (text ++ rest) ∧ Clear (· == '.') (text ++ rest) := by
  cases h with
  | none => exact ⟨fun c hc => (of_isEnd (hrest c hc)).1, fun c hc => beq_eq_false_iff_ne.2 (of_isEnd (hrest c hc)).2.1⟩
  | some hmark =>
    constructor
    all_goals
      rintro c ⟨⟩
      rcases hmark with rfl | rfl <;> rfl

theorem readFraction_append {text ds : List Char} (h : Fraction text ds) (hdigit : Clear Char.isDigit rest)
    (hpoint : Clear (· == '.') rest) : readFraction (text ++ rest) = some (ds, rest) := by
  cases h with
  | none =>
    cases rest with
    | nil => rfl
    | cons c rest => exact if_neg (beq_eq_false_iff_ne.1 (hpoint c rfl))
  | some digits => exact readDigits_append digits hdigit

theorem readNumber_append {text : List Char} {n : Numeral} (h : NumberText text n) (hrest : Ends rest) :
    readNumber (text ++ rest) = some (n, rest) := by
  obtain ⟨negative, hwhole, hfraction, htail⟩ := h
  rename_i whole fraction digits tail x
  obtain ⟨hdigit, hpoint⟩ := clear_exponent htail hrest
  have hclear : Clear Char.isDigit (fraction ++ (tail ++ rest)) := by
    cases hfraction with
    | none => exact hdigit
    | some _ =>
      rintro c ⟨⟩
      rfl
  have hmagnitude : readMagnitude (whole ++ (fraction ++ (tail ++ rest))) =
      some (⟨Nat.ofDigitChars 10 (whole ++ digits) 0, x - digits.length⟩, rest) := by
    have hzero : ¬ (whole.head? = some '0' ∧ whole ≠ ['0']) := fun h => h.2 (hwhole.2 h.1)
    simp only [readMagnitude, readDigits_append hwhole.1 hclear, Option.bind_some, if_neg hzero,
      readFraction_append hfraction hdigit hpoint, readExponent_append htail hrest, Option.map_some]
  cases negative with
  | true =>
    simp only [sign, if_true, List.cons_append, List.nil_append, List.append_assoc, readNumber, hmagnitude, Option.map_some]
  | false =>
    obtain ⟨d, ds, rfl⟩ := List.exists_cons_of_ne_nil hwhole.1.1
    have hd : d ≠ '-' := by
      rintro rfl
      cases hwhole.1.2 '-' List.mem_cons_self
    simp only [List.cons_append] at hmagnitude
    simp only [sign, Bool.false_eq_true, if_false, List.cons_append, List.nil_append, List.append_assoc, readNumber, if_neg hd,
      hmagnitude, Option.map_some]

theorem readPieces_append {text : List Char} {ps : List Piece} (h : PiecesText text ps) :
    readPieces (text ++ '"' :: rest) = some (ps, rest) := by
  induction h with
  | nil =>
    rw [List.nil_append, readPieces.eq_def]
    simp only [if_true]
  | cons head tail ih =>
    cases head with
    | plain visible hquote hbackslash =>
      rw [List.append_assoc, List.singleton_append, readPieces.eq_def]
      simp only [if_neg hquote, if_neg hbackslash, if_pos visible, ih, Option.map_some]
    | @letter e c he =>
      have hu : e ≠ 'u' := by
        rintro rfl
        cases he
      rw [List.append_assoc, List.cons_append, List.singleton_append, readPieces.eq_def]
      simp [if_neg hu, he, ih]
    | code hn =>
      rw [List.append_assoc, List.cons_append, readPieces.eq_def]
      simp [hn, ih]

theorem readString_append {text s : List Char} (h : StringText text s) :
    readString (text ++ rest) = some (s, rest) := by
  obtain ⟨hpieces⟩ := h
  rw [List.cons_append, List.append_assoc, List.singleton_append, readString, if_pos rfl, readPieces_append hpieces,
    Option.map_some]

theorem readWord_append {text : List Char} {v : Datum} (h : (text, v) ∈ words) :
    readWord (text ++ rest) = some (v, rest) := by
  simp only [words, List.mem_cons, List.not_mem_nil, or_false, Prod.mk.injEq] at h
  rcases h with ⟨rfl, rfl⟩ | ⟨rfl, rfl⟩ | ⟨rfl, rfl⟩ <;> rfl

theorem skipBlanks_append {blanks : List Char} (h : Blanks blanks) (hrest : Clear isBlank rest) :
    skipBlanks (blanks ++ rest) = rest :=
  (takeWhile_append_of_clear h hrest).2

/-- The characters that a value starts with. -/
def isStart (c : Char) : Bool :=
  c == '"' || c == '[' || c == '\x7b' || c == '-' || c.isDigit || c == 'n' || c == 't' || c == 'f'

theorem isBlank_of_isStart {c : Char} (h : isStart c) : isBlank c = false := by
  have hne : ∀ d, isStart d = false → c ≠ d := by
    rintro d hd rfl
    rw [hd] at h
    cases h
  simp only [isBlank, Bool.or_eq_false_iff, beq_eq_false_iff_ne]
  exact ⟨⟨⟨hne _ rfl, hne _ rfl⟩, hne _ rfl⟩, hne _ rfl⟩

theorem NumberText.starts {text : List Char} {n : Numeral} (h : NumberText text n) :
    ∃ c tail, text = c :: tail ∧ (c = '-' ∨ c.isDigit) := by
  obtain ⟨negative, hwhole, -, -⟩ := h
  cases negative with
  | true => exact ⟨'-', _, rfl, .inl rfl⟩
  | false =>
    obtain ⟨d, ds, rfl⟩ := List.exists_cons_of_ne_nil hwhole.1.1
    exact ⟨d, _, rfl, .inr (hwhole.1.2 d List.mem_cons_self)⟩

theorem StringText.starts {text s : List Char} (h : StringText text s) : ∃ tail, text = '"' :: tail := by
  obtain ⟨-⟩ := h
  exact ⟨_, rfl⟩

theorem Written.starts {text : List Char} {v : Datum} (h : Written text (.value v)) :
    ∃ c tail, text = c :: tail ∧ isStart c := by
  cases h with
  | word h =>
    simp only [words, List.mem_cons, List.not_mem_nil, or_false, Prod.mk.injEq] at h
    rcases h with ⟨rfl, -⟩ | ⟨rfl, -⟩ | ⟨rfl, -⟩ <;> exact ⟨_, _, rfl, rfl⟩
  | number h =>
    obtain ⟨c, tail, rfl, rfl | hc⟩ := h.starts
    · exact ⟨_, _, rfl, rfl⟩
    · exact ⟨c, tail, rfl, by simp [isStart, hc]⟩
  | string h =>
    obtain ⟨tail, rfl⟩ := h.starts
    exact ⟨_, _, rfl, rfl⟩
  | emptyArray | array | emptyObject | object => exact ⟨_, _, rfl, rfl⟩

theorem clear_of_starts {c : Char} {tail : List Char} (hc : isStart c) : Clear isBlank (c :: tail) := by
  rintro d ⟨⟩
  exact isBlank_of_isStart hc

theorem expect_of_starts {blanks tail : List Char} {c d : Char} (hblanks : Blanks blanks) (hc : isStart c)
    (hd : isStart d = false) : expect d (skipBlanks (blanks ++ c :: tail)) = none := by
  have hne : c ≠ d := by
    rintro rfl
    rw [hd] at hc
    cases hc
  rw [skipBlanks_append hblanks (clear_of_starts hc), expect, if_neg hne]

theorem expect_items {text : List Char} {vs : List Datum} {d : Char} (h : Written text (.items vs))
    (hd : isStart d = false) : expect d (skipBlanks (text ++ rest)) = none := by
  cases h with
  | item hbefore hvalue hafter =>
    obtain ⟨c, tail, rfl, hc⟩ := hvalue.starts
    rw [List.append_assoc]
    exact expect_of_starts hbefore hc hd
  | items hbefore hvalue hafter hrest =>
    obtain ⟨c, tail, rfl, hc⟩ := hvalue.starts
    rw [List.append_assoc]
    exact expect_of_starts hbefore hc hd

theorem expect_members {text : List Char} {ms : List (List Char × Datum)} {d : Char} (h : Written text (.members ms))
    (hd : isStart d = false) : expect d (skipBlanks (text ++ rest)) = none := by
  cases h with
  | member hbefore hkey =>
    obtain ⟨tail, rfl⟩ := hkey.starts
    rw [List.append_assoc]
    exact expect_of_starts hbefore rfl hd
  | members hbefore hkey =>
    obtain ⟨tail, rfl⟩ := hkey.starts
    rw [List.append_assoc]
    exact expect_of_starts hbefore rfl hd

/-- The part is read where its text stands, if enough calls may be open. -/
def ReadBack (text : List Char) : Part → Prop
  | .value v => ∀ {rest calls}, Ends rest → 2 * text.length ≤ calls → readValue calls (text ++ rest) = some (v, rest)
  | .items vs => ∀ {rest calls}, 2 * text.length < calls →
      readItems calls (text ++ ']' :: rest) = some (vs, ']' :: rest)
  | .members ms => ∀ {rest calls}, 2 * text.length < calls →
      readMembers calls (text ++ '\x7d' :: rest) = some (ms, '\x7d' :: rest)

theorem ends_blanks {blanks : List Char} (h : Blanks blanks) (hrest : Ends rest) : Ends (blanks ++ rest) := by
  cases blanks with
  | nil => exact hrest
  | cons c blanks =>
    rintro d ⟨⟩
    simp [isEnd, h c List.mem_cons_self]

theorem ends_cons {c : Char} {tail : List Char} (hc : isEnd c) : Ends (c :: tail) := by
  rintro d ⟨⟩
  exact hc

theorem expect_self (c : Char) (rest : List Char) : expect c (c :: rest) = some rest := if_pos rfl

/-- The next value is read after blanks, and the character after it is looked at after blanks. -/
theorem readValue_between {calls : Nat} {before text after : List Char} {v : Datum} (c : Char) (rest : List Char)
    (ih : ReadBack text (.value v)) (hvalue : Written text (.value v)) (hbefore : Blanks before) (hafter : Blanks after)
    (hc : isEnd c) (hblank : isBlank c = false) (hcalls : 2 * text.length ≤ calls) :
    readValue calls (skipBlanks (before ++ (text ++ (after ++ c :: rest)))) = some (v, after ++ c :: rest) ∧
      skipBlanks (after ++ c :: rest) = c :: rest := by
  have hclear : Clear isBlank (c :: rest) := by
    rintro d ⟨⟩
    exact hblank
  have hstart : Clear isBlank (text ++ (after ++ c :: rest)) := by
    obtain ⟨d, tail, rfl, hd⟩ := hvalue.starts
    exact clear_of_starts hd
  rw [skipBlanks_append hbefore hstart]
  exact ⟨ih (ends_blanks hafter (ends_cons hc)) hcalls, skipBlanks_append hafter hclear⟩

/-- The key of a member is read after blanks, and so is the colon. -/
theorem readString_between {before key s middle : List Char} (rest : List Char) (hkey : StringText key s)
    (hbefore : Blanks before) (hmiddle : Blanks middle) :
    readString (skipBlanks (before ++ (key ++ (middle ++ ':' :: rest)))) = some (s, middle ++ ':' :: rest) ∧
      skipBlanks (middle ++ ':' :: rest) = ':' :: rest := by
  have hclear : Clear isBlank (':' :: rest) := by
    rintro d ⟨⟩
    rfl
  have hstart : Clear isBlank (key ++ (middle ++ ':' :: rest)) := by
    obtain ⟨tail, rfl⟩ := hkey.starts
    exact clear_of_starts rfl
  rw [skipBlanks_append hbefore hstart]
  exact ⟨readString_append hkey, skipBlanks_append hmiddle hclear⟩

theorem readBack_word {text : List Char} {v : Datum} (h : (text, v) ∈ words) : ReadBack text (.value v) := by
  intro rest calls hrest hcalls
  obtain ⟨c, tail, rfl, -⟩ := (Written.word h).starts
  rw [List.length_cons] at hcalls
  obtain ⟨calls, rfl⟩ := Nat.exists_eq_add_one.2 (show 0 < calls by omega)
  rw [← readWord_append h]
  simp only [words, List.mem_cons, List.not_mem_nil, or_false, Prod.mk.injEq] at h
  rcases h with ⟨⟨rfl, rfl⟩, rfl⟩ | ⟨⟨rfl, rfl⟩, rfl⟩ | ⟨⟨rfl, rfl⟩, rfl⟩ <;> rfl

theorem readBack_number {text : List Char} {n : Numeral} (h : NumberText text n) : ReadBack text (.value (.number n)) := by
  intro rest calls hrest hcalls
  have hread := readNumber_append h hrest
  obtain ⟨c, tail, rfl, hc⟩ := h.starts
  rw [List.length_cons] at hcalls
  obtain ⟨calls, rfl⟩ := Nat.exists_eq_add_one.2 (show 0 < calls by omega)
  have hne : c ≠ '"' ∧ c ≠ '[' ∧ c ≠ '\x7b' := by
    refine ⟨?_, ?_, ?_⟩ <;> rintro rfl <;> simp at hc
  rw [List.cons_append] at hread ⊢
  rw [readValue, if_neg hne.1, if_neg hne.2.1, if_neg hne.2.2, if_pos hc, hread, Option.map_some]

theorem readBack_string {text s : List Char} (h : StringText text s) : ReadBack text (.value (.string s)) := by
  intro rest calls hrest hcalls
  have hread : readString (text ++ rest) = some (s, rest) := readString_append h
  obtain ⟨tail, rfl⟩ := h.starts
  rw [List.length_cons] at hcalls
  obtain ⟨calls, rfl⟩ := Nat.exists_eq_add_one.2 (show 0 < calls by omega)
  rw [List.cons_append] at hread ⊢
  rw [readValue, if_pos rfl, hread, Option.map_some]

/-- **What is written is read.** -/
theorem Written.readBack {text : List Char} {part : Part} (h : Written text part) : ReadBack text part := by
  induction h with
  | word h => exact readBack_word h
  | number h => exact readBack_number h
  | string h => exact readBack_string h
  | @emptyArray blanks h =>
    intro rest calls hrest hcalls
    rw [List.length_cons] at hcalls
    obtain ⟨calls, rfl⟩ := Nat.exists_eq_add_one.2 (show 0 < calls by omega)
    have hskip : skipBlanks (blanks ++ ']' :: rest) = ']' :: rest := skipBlanks_append h (by rintro d ⟨⟩; rfl)
    rw [List.cons_append, List.append_assoc, List.singleton_append, readValue, if_neg (by decide), if_pos rfl, hskip,
      expect_self]
  | @array text vs h ih =>
    intro rest calls hrest hcalls
    rw [List.length_cons, List.length_append] at hcalls
    obtain ⟨calls, rfl⟩ := Nat.exists_eq_add_one.2 (show 0 < calls by omega)
    rw [List.cons_append, List.append_assoc, List.singleton_append, readValue, if_neg (by decide), if_pos rfl,
      expect_items h rfl]
    simp only [ih (show 2 * text.length < calls by omega), Option.bind_some, expect_self, Option.map_some]
  | @emptyObject blanks h =>
    intro rest calls hrest hcalls
    rw [List.length_cons] at hcalls
    obtain ⟨calls, rfl⟩ := Nat.exists_eq_add_one.2 (show 0 < calls by omega)
    have hskip : skipBlanks (blanks ++ '\x7d' :: rest) = '\x7d' :: rest := skipBlanks_append h (by rintro d ⟨⟩; rfl)
    rw [List.cons_append, List.append_assoc, List.singleton_append, readValue, if_neg (by decide), if_neg (by decide),
      if_pos rfl, hskip, expect_self]
  | @object text ms h ih =>
    intro rest calls hrest hcalls
    rw [List.length_cons, List.length_append] at hcalls
    obtain ⟨calls, rfl⟩ := Nat.exists_eq_add_one.2 (show 0 < calls by omega)
    rw [List.cons_append, List.append_assoc, List.singleton_append, readValue, if_neg (by decide), if_neg (by decide),
      if_pos rfl, expect_members h rfl]
    simp only [ih (show 2 * text.length < calls by omega), Option.bind_some, expect_self, Option.map_some]
  | @item before text v after hbefore hvalue hafter ih =>
    intro rest calls hcalls
    simp only [List.length_append] at hcalls
    obtain ⟨calls, rfl⟩ := Nat.exists_eq_add_one.2 (show 0 < calls by omega)
    obtain ⟨hread, hskip⟩ := readValue_between ']' rest ih hvalue hbefore hafter rfl rfl (show _ ≤ calls by omega)
    simp only [List.append_assoc, readItems, hread, Option.bind_some, hskip]
    rfl
  | @items before text v after more vs hbefore hvalue hafter hrest ih ihrest =>
    intro rest calls hcalls
    simp only [List.length_append, List.length_cons] at hcalls
    obtain ⟨calls, rfl⟩ := Nat.exists_eq_add_one.2 (show 0 < calls by omega)
    obtain ⟨hread, hskip⟩ := readValue_between ',' (more ++ ']' :: rest) ih hvalue hbefore hafter rfl rfl
      (show _ ≤ calls by omega)
    simp only [List.append_assoc, List.cons_append, readItems, hread, Option.bind_some, hskip, expect_self,
      ihrest (show 2 * more.length < calls by omega), Option.map_some]
  | @member before key s middle between text v after hbefore hkey hmiddle hbetween hvalue hafter ih =>
    intro rest calls hcalls
    simp only [List.length_append, List.length_cons] at hcalls
    obtain ⟨calls, rfl⟩ := Nat.exists_eq_add_one.2 (show 0 < calls by omega)
    obtain ⟨hread, hskip⟩ := readValue_between '\x7d' rest ih hvalue hbetween hafter rfl rfl (show _ ≤ calls by omega)
    obtain ⟨hstring, hcolon⟩ := readString_between (between ++ (text ++ (after ++ '\x7d' :: rest))) hkey hbefore hmiddle
    simp only [List.append_assoc, List.cons_append, readMembers, hstring, hcolon, expect_self, hread, Option.bind_some,
      hskip]
    rfl
  | @members before key s middle between text v after more ms hbefore hkey hmiddle hbetween hvalue hafter hrest ih ihrest =>
    intro rest calls hcalls
    simp only [List.length_append, List.length_cons] at hcalls
    obtain ⟨calls, rfl⟩ := Nat.exists_eq_add_one.2 (show 0 < calls by omega)
    obtain ⟨hread, hskip⟩ := readValue_between ',' (more ++ '\x7d' :: rest) ih hvalue hbetween hafter rfl rfl
      (show _ ≤ calls by omega)
    obtain ⟨hstring, hcolon⟩ := readString_between (between ++ (text ++ (after ++ ',' :: (more ++ '\x7d' :: rest)))) hkey
      hbefore hmiddle
    simp only [List.append_assoc, List.cons_append, readMembers, hstring, hcolon, expect_self, hread, Option.bind_some,
      hskip, ihrest (show 2 * more.length < calls by omega), Option.map_some]

/-- **A text is decoded exactly if it is a JSON text**, to what it stands for. -/
theorem decode_eq_some_iff {v : Datum} : decode cs = some v ↔ DocumentText cs v := by
  constructor
  · intro h
    obtain ⟨before, hcs, hbefore⟩ := exists_skipBlanks cs
    rw [decode, Option.bind_eq_some_iff] at h
    obtain ⟨⟨w, rest⟩, hread, h⟩ := h
    obtain ⟨text, htext, hwritten⟩ := (sound _).value hread
    obtain ⟨after, hrest, hafter⟩ := exists_skipBlanks rest
    dsimp only at h
    split at h
    · rename_i hend
      cases h
      rw [hend, List.append_nil] at hrest
      rw [hcs, htext, hrest]
      exact .mk hbefore hwritten hafter
    · cases h
  · rintro ⟨hbefore, hvalue, hafter⟩
    rename_i before text after
    have hstart : Clear isBlank (text ++ after) := by
      obtain ⟨c, tail, rfl, hc⟩ := hvalue.starts
      exact clear_of_starts hc
    have hends : Ends after := List.append_nil after ▸ ends_blanks hafter (by simp [Ends])
    have hskip : skipBlanks after = [] := List.append_nil after ▸ skipBlanks_append hafter (by simp [Clear])
    have hlength : 2 * text.length ≤ 2 * (before ++ (text ++ after)).length := by
      simp only [List.length_append]
      omega
    rw [decode, skipBlanks_append hbefore hstart, hvalue.readBack hends hlength, Option.bind_some]
    exact if_pos hskip

end ExprLang.Json
