import Mathlib.Data.List.TakeWhile
import ExprLang.Token.Lexer

/-!
# The lexical grammar

What the lexemes of a source are, written without any scanner:

* `Lexeme l` — `l` is a punctuator, an operator, a string, a number or a word;
* `Munched l rest` — `l` is the longest lexeme at the start of `l ++ rest`, which does not start a comment;
* `Gap rest g` — `g` is made of blanks and comments, each comment ending at a line feed or where the source ends;
* `tokenOf line l` — the token of a lexeme;
* `Consumed pre p rest ts` — between `pre` and `rest`, all of `p` is gaps and longest lexemes, those of the tokens `ts`;
* `exists_consumed` — every source can be consumed up to its end, up to a string that is not closed, or up to a byte
  that begins nothing.
-/

namespace ExprLang.Lexical

open Bytes (lineFeed isDigit isLetter isWordByte)
open Lexer (quoteByte pointByte slashByte equalsByte)

/-! ## Lexemes -/

/-- The bytes between lexemes: space, carriage return, tab and line feed. -/
def blanks : Bytes := [' '.toUInt8, '\r'.toUInt8, '\t'.toUInt8, '\n'.toUInt8]

/-- The punctuators, each a byte of its own. -/
def punctuators : List (UInt8 × Kind) :=
  [('('.toUInt8, .leftParen), (')'.toUInt8, .rightParen), ('{'.toUInt8, .leftBrace), ('}'.toUInt8, .rightBrace),
   (','.toUInt8, .comma), ('.'.toUInt8, .dot), ('-'.toUInt8, .minus), ('+'.toUInt8, .plus), (';'.toUInt8, .semicolon),
   ('/'.toUInt8, .slash), ('*'.toUInt8, .star)]

/-- The operators that may have an equals sign after them, with their kinds without it and with it. -/
def operators : List (UInt8 × Kind × Kind) :=
  [('!'.toUInt8, .bang, .bangEqual), ('='.toUInt8, .equal, .equalEqual), ('>'.toUInt8, .greater, .greaterEqual),
   ('<'.toUInt8, .less, .lessEqual)]

/-- The lexemes of the language. -/
inductive Lexeme : Bytes → Prop where
  | punctuator {b : UInt8} {k : Kind} (h : (b, k) ∈ punctuators) : Lexeme [b]
  | operator {b : UInt8} {alone paired : Kind} (h : (b, alone, paired) ∈ operators) : Lexeme [b]
  | paired {b : UInt8} {alone paired : Kind} (h : (b, alone, paired) ∈ operators) : Lexeme [b, equalsByte]
  | string {body : Bytes} (h : quoteByte ∉ body) : Lexeme (quoteByte :: (body ++ [quoteByte]))
  | integer {ds : Bytes} (nonempty : ds ≠ []) (digits : ∀ b ∈ ds, isDigit b) : Lexeme ds
  | decimal {ds fs : Bytes} (nonempty : ds ≠ []) (digits : ∀ b ∈ ds, isDigit b) (more : fs ≠ [])
      (fraction : ∀ b ∈ fs, isDigit b) : Lexeme (ds ++ pointByte :: fs)
  | word {b : UInt8} {w : Bytes} (first : isLetter b) (others : ∀ c ∈ w, isWordByte c) : Lexeme (b :: w)

/-- The kind of a lexeme, by its first byte; that of a word is looked up among the keywords. -/
def kindOf (l : Bytes) : Kind :=
  match punctuators.lookup (l.headD 0), operators.lookup (l.headD 0) with
  | some k, _ => k
  | none, some (alone, paired) => if l.length = 1 then alone else paired
  | none, none =>
    if l.headD 0 = quoteByte then .string else if isDigit (l.headD 0) then .number else Kind.ofWord l

/-- The token of a lexeme. A number has the value it spells, and a string the text between its quotes. -/
def tokenOf (line : Nat) (l : Bytes) : Token where
  kind := kindOf l
  lexeme := l
  line := line
  number := if kindOf l = .number then (Decimal.ofLexeme l).toFloat else 0
  text := if kindOf l = .string then l.tail.dropLast else []

/-- `l` is the longest lexeme with which `l ++ rest` starts. Two slashes start a comment and no lexeme. -/
structure Munched (l rest : Bytes) : Prop where
  lexeme : Lexeme l
  longest : ∀ m, Lexeme m → m <+: l ++ rest → m.length ≤ l.length
  notComment : ¬ [slashByte, slashByte] <+: l ++ rest

/-! ## Gaps -/

/-- Where a comment may end: before a line feed, or where the source ends. -/
def EndsLine (rest : Bytes) : Prop := ∀ b ∈ rest.head?, b = lineFeed

/-- `Gap rest g`: before `rest`, the bytes `g` are blanks and comments. -/
inductive Gap (rest : Bytes) : Bytes → Prop where
  | nil : Gap rest []
  | blank {b : UInt8} {g : Bytes} (h : b ∈ blanks) (more : Gap rest g) : Gap rest (b :: g)
  | comment {body g : Bytes} (h : lineFeed ∉ body) (ends : EndsLine (g ++ rest)) (more : Gap rest g) :
      Gap rest (slashByte :: slashByte :: (body ++ g))

/-- The line on which `pre` ends. -/
def endLine (pre : Bytes) : Nat := 1 + pre.count lineFeed

theorem endLine_eq_one {pre : Bytes} (h : lineFeed ∉ pre) : endLine pre = 1 := by
  rw [endLine, List.count_eq_zero.2 h]

/-- `Consumed pre p rest ts`: in a source `pre ++ p ++ rest`, all of `p` is gaps and longest lexemes, and `ts` are the
tokens of these lexemes. The line of a token is that of its last byte. -/
inductive Consumed : (pre p rest : Bytes) → List Token → Prop where
  | gap {pre g rest : Bytes} (gap : Gap rest g) : Consumed pre g rest []
  | token {pre g l p rest : Bytes} {ts : List Token} (gap : Gap (l ++ (p ++ rest)) g) (munched : Munched l (p ++ rest))
      (more : Consumed (pre ++ (g ++ l)) p rest ts) :
      Consumed pre (g ++ (l ++ p)) rest (tokenOf (endLine (pre ++ (g ++ l))) l :: ts)

/-- The byte can be the first one of a blank, a comment or a lexeme. -/
def Begins (b : UInt8) : Prop := b ∈ blanks ∨ b = slashByte ∨ ∃ m, Lexeme (b :: m)

/-- A string that is not closed. -/
def Unterminated (rest : Bytes) : Prop := ∃ body, rest = quoteByte :: body ∧ quoteByte ∉ body

/-- A byte that begins nothing. -/
def Stray (rest : Bytes) : Prop := ∃ b tail, rest = b :: tail ∧ ¬ Begins b

/-! ## First bytes -/

/-- What each lead promises about the byte. -/
def LeadOf (b : UInt8) : Lead → Prop
  | .blank => b ∈ blanks
  | .single k => (b, k) ∈ punctuators
  | .operator alone paired => (b, alone, paired) ∈ operators
  | .slash => b = slashByte
  | .quote => b = quoteByte
  | .digit => isDigit b
  | .letter => isLetter b
  | .stray => True

instance (b : UInt8) : (lead : Lead) → Decidable (LeadOf b lead)
  | .blank => inferInstanceAs (Decidable (b ∈ blanks))
  | .single k => inferInstanceAs (Decidable ((b, k) ∈ punctuators))
  | .operator alone paired => inferInstanceAs (Decidable ((b, alone, paired) ∈ operators))
  | .slash => inferInstanceAs (Decidable (b = slashByte))
  | .quote => inferInstanceAs (Decidable (b = quoteByte))
  | .digit => inferInstanceAs (Decidable (isDigit b = true))
  | .letter => inferInstanceAs (Decidable (isLetter b = true))
  | .stray => inferInstanceAs (Decidable True)

/-- A property of all bytes is checked byte by byte. -/
theorem forall_byte {P : UInt8 → Prop} (h : ∀ n : Fin 256, P (UInt8.ofNat n)) (b : UInt8) : P b := by
  have hb := h ⟨b.toNat, b.toNat_lt⟩
  simpa using hb

/-- Every lead keeps its promise, and the digits and letters, of which there is no table, have theirs. -/
theorem ofByte_facts : ∀ b : UInt8, LeadOf b (Lead.ofByte b) ∧ (isDigit b → Lead.ofByte b = .digit) ∧
    (isLetter b → Lead.ofByte b = .letter) := forall_byte (by decide +kernel)

theorem leadOf_ofByte (b : UInt8) : LeadOf b (Lead.ofByte b) := (ofByte_facts b).1

theorem ofByte_of_isDigit {b : UInt8} (h : isDigit b) : Lead.ofByte b = .digit := (ofByte_facts b).2.1 h

theorem ofByte_of_isLetter {b : UInt8} (h : isLetter b) : Lead.ofByte b = .letter := (ofByte_facts b).2.2 h

theorem ofByte_of_mem_blanks {b : UInt8} (h : b ∈ blanks) : Lead.ofByte b = .blank := by
  simp only [blanks, List.mem_cons, List.not_mem_nil, or_false] at h
  rcases h with rfl | rfl | rfl | rfl <;> rfl

theorem ofByte_of_mem_operators {b : UInt8} {alone paired : Kind} (h : (b, alone, paired) ∈ operators) :
    Lead.ofByte b = .operator alone paired := by
  have all : ∀ e ∈ operators, Lead.ofByte e.1 = .operator e.2.1 e.2.2 := by decide
  exact all _ h

/-- A slash apart, which may start a comment, a punctuator is a lexeme at once. -/
theorem ofByte_of_mem_punctuators {b : UInt8} {k : Kind} (h : (b, k) ∈ punctuators) :
    Lead.ofByte b = .single k ∨ (b = slashByte ∧ k = .slash) := by
  have all : ∀ e ∈ punctuators, Lead.ofByte e.1 = .single e.2 ∨ (e.1 = slashByte ∧ e.2 = .slash) := by decide
  exact all _ h

theorem ofByte_slashByte : Lead.ofByte slashByte = .slash := by decide

theorem ofByte_quoteByte : Lead.ofByte quoteByte = .quote := by decide

theorem Lexeme.ofByte_ne_stray {b : UInt8} {m : Bytes} (h : Lexeme (b :: m)) : Lead.ofByte b ≠ .stray := by
  generalize hl : b :: m = l at h
  cases h with
  | punctuator hc =>
    obtain ⟨rfl, -⟩ := List.cons.inj hl
    rcases ofByte_of_mem_punctuators hc with e | ⟨rfl, -⟩
    · simp [e]
    · simp [ofByte_slashByte]
  | operator hc =>
    obtain ⟨rfl, -⟩ := List.cons.inj hl
    simp [ofByte_of_mem_operators hc]
  | paired hc =>
    obtain ⟨rfl, -⟩ := List.cons.inj hl
    simp [ofByte_of_mem_operators hc]
  | string =>
    obtain ⟨rfl, -⟩ := List.cons.inj hl
    simp [ofByte_quoteByte]
  | integer _ digits =>
    have hb : isDigit b := digits b (by simp [← hl])
    simp [ofByte_of_isDigit hb]
  | @decimal ds fs nonempty digits =>
    obtain ⟨d, ds, rfl⟩ := List.exists_cons_of_ne_nil nonempty
    obtain ⟨rfl, -⟩ := List.cons.inj hl
    have hb : isDigit b := digits b (by simp)
    simp [ofByte_of_isDigit hb]
  | word first =>
    obtain ⟨rfl, -⟩ := List.cons.inj hl
    simp [ofByte_of_isLetter first]

/-- Every byte is a blank, a quote, a lexeme by itself, or has no lead. -/
theorem byte_cases (b : UInt8) : b ∈ blanks ∨ b = quoteByte ∨ Lexeme [b] ∨ Lead.ofByte b = .stray := by
  have hb := leadOf_ofByte b
  cases hl : Lead.ofByte b <;> rw [hl] at hb
  case blank => exact .inl hb
  case quote => exact .inr (.inl hb)
  case single => exact .inr (.inr (.inl (.punctuator hb)))
  case operator => exact .inr (.inr (.inl (.operator hb)))
  case slash => exact .inr (.inr (.inl (hb ▸ .punctuator (k := .slash) (by decide))))
  case digit =>
    have digits : ∀ c ∈ [b], isDigit c := by
      intro c hc
      rw [List.mem_singleton.1 hc]
      exact hb
    exact .inr (.inr (.inl (.integer (by simp) digits)))
  case letter => exact .inr (.inr (.inl (.word hb (by simp))))
  case stray => exact .inr (.inr (.inr rfl))

/-- **The bytes that begin nothing** are those without a lead. -/
theorem ofByte_eq_stray_iff {b : UInt8} : Lead.ofByte b = .stray ↔ ¬ Begins b := by
  constructor
  · rintro h (hb | rfl | ⟨m, hm⟩)
    · simp [ofByte_of_mem_blanks hb] at h
    · simp [ofByte_slashByte] at h
    · exact hm.ofByte_ne_stray h
  · intro h
    rcases byte_cases b with hb | rfl | hb | hb
    · exact absurd (.inl hb) h
    · have empty : Lexeme (quoteByte :: ([] ++ [quoteByte])) := .string (by simp)
      exact absurd (.inr (.inr ⟨_, empty⟩)) h
    · exact absurd (.inr (.inr ⟨[], hb⟩)) h
    · exact hb

/-! ## Tokens of lexemes -/

/-- A byte of a class that no entry of a table is in is not in the table. -/
theorem lookup_eq_none_of_class {α : Type} {table : List (UInt8 × α)} {q : UInt8 → Bool} {b : UInt8}
    (h : ∀ e ∈ table, q e.1 = false) (hb : q b) : table.lookup b = none := by
  refine List.lookup_eq_none_iff.2 fun e he => ?_
  have hne : b ≠ e.1 := by
    rintro rfl
    rw [h e he] at hb
    cases hb
  simpa using hne

theorem isDigit_eq_false_of_isLetter {b : UInt8} (h : isLetter b) : isDigit b = false := by
  rw [← Bool.not_eq_true]
  intro hd
  have hlead := ofByte_of_isDigit hd
  rw [ofByte_of_isLetter h] at hlead
  cases hlead

theorem wordByte_ne_lineFeed {b : UInt8} (h : isWordByte b) : b ≠ lineFeed := by
  rintro rfl
  exact absurd h (by decide)

theorem ofWord_mem (w : Bytes) : Kind.ofWord w ∈ Kind.identifier :: Kind.keywords := by
  unfold Kind.ofWord
  cases h : Kind.keywords.find? fun k => k.label == w with
  | none => simp
  | some k => exact List.mem_cons_of_mem _ (List.mem_of_find?_eq_some h)

/-- A lexeme that is neither a number nor a string has a plain token. -/
theorem tokenOf_plain {l : Bytes} {k : Kind} (hk : kindOf l = k) (hnum : k ≠ .number) (hstr : k ≠ .string)
    (line : Nat) : tokenOf line l = { kind := k, lexeme := l, line := line } := by
  subst hk
  simp [tokenOf, hnum, hstr]

theorem tokenOf_punctuator {b : UInt8} {k : Kind} (h : (b, k) ∈ punctuators) (line : Nat) :
    tokenOf line [b] = { kind := k, lexeme := [b], line := line } := by
  have all : ∀ e ∈ punctuators, kindOf [e.1] = e.2 ∧ e.2 ≠ .number ∧ e.2 ≠ .string := by decide
  obtain ⟨hk, hnum, hstr⟩ := all _ h
  exact tokenOf_plain hk hnum hstr line

theorem tokenOf_operator {b : UInt8} {alone paired : Kind} (h : (b, alone, paired) ∈ operators) (line : Nat) :
    tokenOf line [b] = { kind := alone, lexeme := [b], line := line } := by
  have all : ∀ e ∈ operators, kindOf [e.1] = e.2.1 ∧ e.2.1 ≠ .number ∧ e.2.1 ≠ .string := by decide
  obtain ⟨hk, hnum, hstr⟩ := all _ h
  exact tokenOf_plain hk hnum hstr line

theorem tokenOf_paired {b : UInt8} {alone paired : Kind} (h : (b, alone, paired) ∈ operators) (line : Nat) :
    tokenOf line [b, equalsByte] = { kind := paired, lexeme := [b, equalsByte], line := line } := by
  have all : ∀ e ∈ operators, kindOf [e.1, equalsByte] = e.2.2 ∧ e.2.2 ≠ .number ∧ e.2.2 ≠ .string := by decide
  obtain ⟨hk, hnum, hstr⟩ := all _ h
  exact tokenOf_plain hk hnum hstr line

theorem tokenOf_string (body : Bytes) (line : Nat) :
    tokenOf line (quoteByte :: (body ++ [quoteByte])) =
      { kind := .string, lexeme := quoteByte :: (body ++ [quoteByte]), line := line, text := body } := by
  have hk : kindOf (quoteByte :: (body ++ [quoteByte])) = .string := rfl
  simp [tokenOf, hk]

theorem tokenOf_number {b : UInt8} (h : isDigit b) (m : Bytes) (line : Nat) :
    tokenOf line (b :: m) =
      { kind := .number, lexeme := b :: m, line := line, number := (Decimal.ofLexeme (b :: m)).toFloat } := by
  have hp : punctuators.lookup b = none := lookup_eq_none_of_class (q := isDigit) (by decide) h
  have ho : operators.lookup b = none := lookup_eq_none_of_class (q := isDigit) (by decide) h
  have hq : b ≠ quoteByte := by rintro rfl; exact absurd h (by decide)
  have hk : kindOf (b :: m) = .number := by simp [kindOf, hp, ho, hq, h]
  simp [tokenOf, hk]

theorem tokenOf_word {b : UInt8} (h : isLetter b) (w : Bytes) (line : Nat) :
    tokenOf line (b :: w) = { kind := Kind.ofWord (b :: w), lexeme := b :: w, line := line } := by
  have hp : punctuators.lookup b = none := lookup_eq_none_of_class (q := isLetter) (by decide) h
  have ho : operators.lookup b = none := lookup_eq_none_of_class (q := isLetter) (by decide) h
  have hq : b ≠ quoteByte := by rintro rfl; exact absurd h (by decide)
  have hk : kindOf (b :: w) = Kind.ofWord (b :: w) := by
    simp [kindOf, hp, ho, hq, isDigit_eq_false_of_isLetter h]
  have all : ∀ k ∈ Kind.identifier :: Kind.keywords, k ≠ .number ∧ k ≠ .string := by decide
  obtain ⟨hnum, hstr⟩ := all _ (ofWord_mem (b :: w))
  exact tokenOf_plain hk hnum hstr line

/-! ## Where the longest lexeme stops -/

namespace Munched

variable {rest : Bytes}

/-- What follows the longest lexeme does not make it a longer one. -/
theorem not_lexeme_append {l m : Bytes} (h : Munched l rest) (hm : m ≠ []) (hr : m <+: rest) : ¬ Lexeme (l ++ m) := by
  intro hlm
  have hle := h.longest _ hlm ((List.prefix_append_right_inj l).2 hr)
  have hpos := List.length_pos_iff.2 hm
  simp only [List.length_append] at hle
  omega

theorem not_lexeme_append_head {l : Bytes} {b : UInt8} (h : Munched l rest) (hb : b ∈ rest.head?) : ¬ Lexeme (l ++ [b]) := by
  obtain ⟨tail, rfl⟩ := List.head?_eq_some_iff.1 hb
  exact h.not_lexeme_append (by simp) ⟨tail, rfl⟩

theorem operator_stops {b : UInt8} {alone paired : Kind} (h : Munched [b] rest)
    (hop : (b, alone, paired) ∈ operators) : ∀ c ∈ rest.head?, c ≠ equalsByte := by
  rintro c hc rfl
  exact h.not_lexeme_append_head hc (.paired hop)

theorem slash_stops (h : Munched [slashByte] rest) : ∀ c ∈ rest.head?, c ≠ slashByte := by
  rintro c hc rfl
  obtain ⟨tail, rfl⟩ := List.head?_eq_some_iff.1 hc
  exact h.notComment ⟨tail, rfl⟩

theorem word_stops {b : UInt8} {w : Bytes} (h : Munched (b :: w) rest) (first : isLetter b)
    (others : ∀ c ∈ w, isWordByte c) : ∀ c ∈ rest.head?, ¬ isWordByte c := by
  intro c hc hw
  exact h.not_lexeme_append_head hc (.word first (List.forall_mem_append.2 ⟨others, List.forall_mem_singleton.2 hw⟩))

theorem integer_stops {ds : Bytes} (h : Munched ds rest) (digits : ∀ b ∈ ds, isDigit b) :
    ∀ c ∈ rest.head?, ¬ isDigit c := by
  intro c hc hd
  exact h.not_lexeme_append_head hc (.integer (by simp) (List.forall_mem_append.2 ⟨digits, List.forall_mem_singleton.2 hd⟩))

/-- A point after an integer is not followed by a digit. -/
theorem integer_stops_point {ds tail : Bytes} (h : Munched ds (pointByte :: tail)) (nonempty : ds ≠ [])
    (digits : ∀ b ∈ ds, isDigit b) : ∀ c ∈ tail.head?, ¬ isDigit c := by
  intro c hc hd
  obtain ⟨tail, rfl⟩ := List.head?_eq_some_iff.1 hc
  refine h.not_lexeme_append (m := [pointByte, c]) (by simp) ⟨tail, rfl⟩ ?_
  exact .decimal nonempty digits (by simp) (List.forall_mem_singleton.2 hd)

theorem decimal_stops {ds fs : Bytes} (h : Munched (ds ++ pointByte :: fs) rest) (nonempty : ds ≠ [])
    (digits : ∀ b ∈ ds, isDigit b) (fraction : ∀ b ∈ fs, isDigit b) : ∀ c ∈ rest.head?, ¬ isDigit c := by
  intro c hc hd
  refine h.not_lexeme_append_head hc ?_
  rw [List.append_assoc, List.cons_append]
  exact .decimal nonempty digits (by simp) (List.forall_mem_append.2 ⟨fraction, List.forall_mem_singleton.2 hd⟩)

end Munched

/-! ## Every source can be consumed -/

/-- Among the lexemes that a source starts with there is a longest one. -/
theorem exists_longest {m s : Bytes} (hm : Lexeme m) (hs : m <+: s) :
    ∃ l, Lexeme l ∧ l <+: s ∧ ∀ m, Lexeme m → m <+: s → m.length ≤ l.length := by
  -- by induction on what is left of `s` after `m`
  obtain ⟨n, hn⟩ : ∃ n, s.length - m.length = n := ⟨_, rfl⟩
  induction n using Nat.strongRecOn generalizing m with
  | ind n ih =>
    by_cases h : ∀ m', Lexeme m' → m' <+: s → m'.length ≤ m.length
    · exact ⟨m, hm, hs, h⟩
    · simp only [Classical.not_forall, Nat.not_le] at h
      obtain ⟨m', hm', hs', hlt⟩ := h
      have hle := hs'.length_le
      exact ih _ (by omega) hm' hs' rfl

theorem exists_munched {m s : Bytes} (hm : Lexeme m) (hs : m <+: s) (hc : ¬ [slashByte, slashByte] <+: s) :
    ∃ l rest, s = l ++ rest ∧ Munched l rest := by
  obtain ⟨l, hl, ⟨rest, rfl⟩, longest⟩ := exists_longest hm hs
  exact ⟨l, rest, rfl, hl, longest, hc⟩

theorem Lexeme.ne_nil {l : Bytes} (h : Lexeme l) : l ≠ [] := by
  cases h with
  | integer nonempty _ => exact nonempty
  | decimal => simp
  | _ => simp

namespace Consumed

variable {pre p rest : Bytes} {ts : List Token}

/-- A blank in front belongs to the first gap. -/
theorem cons_blank {b : UInt8} (hb : b ∈ blanks) (h : Consumed (pre ++ [b]) p rest ts) :
    Consumed pre (b :: p) rest ts := by
  generalize hpre : pre ++ [b] = pre' at h
  cases h with
  | gap h => exact .gap (.blank hb h)
  | @token _ g l p _ ts hg hl more =>
    subst hpre
    have e : pre ++ [b] ++ (g ++ l) = pre ++ (b :: g ++ l) := by simp
    rw [e] at more ⊢
    exact .token (.blank hb hg) hl more

/-- A comment in front belongs to the first gap. -/
theorem cons_comment {body : Bytes} (hb : lineFeed ∉ body) (ends : EndsLine (p ++ rest))
    (h : Consumed (pre ++ slashByte :: slashByte :: body) p rest ts) :
    Consumed pre (slashByte :: slashByte :: (body ++ p)) rest ts := by
  generalize hpre : pre ++ slashByte :: slashByte :: body = pre' at h
  cases h with
  | gap h => exact .gap (.comment hb ends h)
  | @token _ g l p _ ts hg hl more =>
    subst hpre
    have e : pre ++ slashByte :: slashByte :: body ++ (g ++ l) =
        pre ++ (slashByte :: slashByte :: (body ++ g) ++ l) := by simp
    have e' : slashByte :: slashByte :: (body ++ (g ++ (l ++ p))) =
        slashByte :: slashByte :: (body ++ g) ++ (l ++ p) := by simp
    rw [e] at more ⊢
    rw [e']
    exact .token (.comment hb (by simpa using ends) hg) hl more

/-- A lexeme in front follows an empty gap. -/
theorem cons_lexeme {l : Bytes} (hl : Munched l (p ++ rest)) (h : Consumed (pre ++ l) p rest ts) :
    Consumed pre (l ++ p) rest (tokenOf (endLine (pre ++ l)) l :: ts) :=
  .token (g := []) .nil hl h

end Consumed

/-- The longest run of bytes without `b`, and what follows it. -/
theorem exists_run (b : UInt8) (s : Bytes) : ∃ body tail, s = body ++ tail ∧ b ∉ body ∧ ∀ c ∈ tail.head?, c = b := by
  refine ⟨s.takeWhile (· != b), s.dropWhile (· != b), (List.takeWhile_append_dropWhile).symm, ?_, ?_⟩
  · intro h
    simpa using List.mem_takeWhile_imp h
  · intro c hc
    have h := List.head?_dropWhile_not (· != b) s
    rw [Option.mem_def.1 hc] at h
    simpa using h

/-- **Every source can be consumed** up to its end, up to a string that is not closed, or up to a byte that begins
nothing. -/
theorem exists_consumed (pre src : Bytes) : ∃ p rest ts, src = p ++ rest ∧ Consumed pre p rest ts ∧
    (rest = [] ∨ Unterminated rest ∨ Stray rest) := by
  obtain ⟨n, hn⟩ : ∃ n, src.length = n := ⟨_, rfl⟩
  induction n using Nat.strongRecOn generalizing pre src with
  | ind n ih =>
    -- once a lexeme is known, the longest one is taken off and the rest is shorter
    have step : ∀ m, Lexeme m → m <+: src → ¬ [slashByte, slashByte] <+: src → ∃ p rest ts, src = p ++ rest ∧
        Consumed pre p rest ts ∧ (rest = [] ∨ Unterminated rest ∨ Stray rest) := by
      intro m hm hs hc
      obtain ⟨l, tail, rfl, hl⟩ := exists_munched hm hs hc
      have hpos := List.length_pos_iff.2 hl.lexeme.ne_nil
      obtain ⟨p, rest, ts, rfl, h, hr⟩ := ih tail.length (by simp at hn; omega) (pre ++ l) tail rfl
      exact ⟨l ++ p, rest, _, by simp, h.cons_lexeme hl, hr⟩
    match src with
    | [] => exact ⟨[], [], [], rfl, .gap .nil, .inl rfl⟩
    | b :: tail =>
      rcases byte_cases b with hb | rfl | hb | hb
      · obtain ⟨p, rest, ts, rfl, h, hr⟩ := ih tail.length (by simp at hn; omega) (pre ++ [b]) tail rfl
        exact ⟨b :: p, rest, ts, rfl, h.cons_blank hb, hr⟩
      · obtain ⟨body, tail, rfl, hbody, htail⟩ := exists_run quoteByte tail
        match tail with
        | [] => exact ⟨[], _, [], rfl, .gap .nil, .inr (.inl ⟨body, by simp, hbody⟩)⟩
        | c :: tail =>
          obtain rfl : c = quoteByte := htail c rfl
          exact step _ (.string hbody) ⟨tail, by simp⟩ (by simp [quoteByte, slashByte])
      · by_cases hc : [slashByte, slashByte] <+: b :: tail
        · obtain ⟨tail, e⟩ := hc
          obtain ⟨rfl, rfl⟩ := List.cons.inj e
          obtain ⟨body, tail, rfl, hbody, htail⟩ := exists_run lineFeed tail
          obtain ⟨p, rest, ts, rfl, h, hr⟩ := ih tail.length (by simp at hn; omega)
            (pre ++ slashByte :: slashByte :: body) tail rfl
          exact ⟨_, rest, ts, by simp, h.cons_comment hbody htail, hr⟩
        · exact step [b] hb ⟨tail, rfl⟩ hc
      · exact ⟨[], _, [], rfl, .gap .nil, .inr (.inr ⟨b, tail, rfl, ofByte_eq_stray_iff.1 hb⟩)⟩

end ExprLang.Lexical
