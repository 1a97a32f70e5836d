import ExprLang.Proofs.Text.Utf8
import ExprLang.Proofs.Token.LexicalGrammar

/-!
# Scanning decides the lexical grammar

A lexer finishes a lexeme only when it sees the byte after it. Between lexemes its state is a line and a list of tokens,
and reading on from such a state goes lexeme by lexeme:

* `Lexer.read_settle` — a lexeme that the next byte does not extend is finished first;
* `Lexer.read_munched`, `Lexer.read_gap` — the longest lexeme is read as its token, and a gap as nothing;
* `Lexer.read_consumed` — what the grammar consumes is read as its tokens;
* `Token.scan_cases` — what the ways in which a source can be consumed are scanned as;
* `Token.scan_ok_iff`, `Token.scan_error_iff` — the tokens and the error of a source are those of the grammar.
-/

namespace ExprLang

open Bytes (lineFeed isDigit isLetter isWordByte)
open Lexical

namespace Lexer

variable {l m : Lexer} {b : UInt8} {n : Nat} {toks : List Token} {rest : Bytes}

/-! ## Steps -/

theorem read_of_feed? (h : l.feed? b = some m) (rest : Bytes) : l.read (b :: rest) = m.read rest := by
  simp only [read, feedAll, h]

/-- A byte that continues the lexeme being read. -/
theorem read_extend (h : l.extend? b = some m) (rest : Bytes) : l.read (b :: rest) = m.read rest := by
  refine read_of_feed? ?_ rest
  simp [feed?, h]

/-- A byte that starts a lexeme, where none is being read. -/
theorem read_begin (h : begin? ⟨n, toks, .none⟩ b = some m) (rest : Bytes) :
    read ⟨n, toks, .none⟩ (b :: rest) = m.read rest := by
  refine read_of_feed? ?_ rest
  simp [feed?, extend?, settle, h]

theorem settle_settle (l : Lexer) : l.settle.settle = l.settle := by
  rcases l with ⟨n, toks, _ | _ | _ | _ | _ | _ | _ | _ | _⟩ <;> rfl

theorem line_settle (l : Lexer) : l.settle.line = l.line := by
  rcases l with ⟨n, toks, _ | _ | _ | _ | _ | _ | _ | _ | _⟩ <;> rfl

theorem finish_settle (h : ∀ body, l.pending ≠ .string body) : l.settle.finish = l.finish := by
  rcases l with ⟨n, toks, _ | _ | _ | _ | body | _ | _ | _ | _⟩
  case string => exact absurd rfl (h body)
  all_goals rfl

theorem extend?_settle (h : ∀ body, l.pending ≠ .string body) : l.settle.extend? b = none := by
  rcases l with ⟨n, toks, _ | _ | _ | _ | body | _ | _ | _ | _⟩
  case string => exact absurd rfl (h body)
  all_goals rfl

theorem feed?_settle (h : ∀ body, l.pending ≠ .string body) (hb : l.extend? b = none) :
    l.feed? b = l.settle.feed? b := by
  rw [feed?, feed?, hb, extend?_settle h, settle_settle]

/-- **A lexeme that the next byte does not extend is finished first.** -/
theorem read_settle (h : ∀ body, l.pending ≠ .string body) (hb : ∀ b ∈ rest.head?, l.extend? b = none) :
    l.read rest = l.settle.read rest := by
  cases rest with
  | nil => exact (finish_settle h).symm
  | cons b rest => simp only [read, feedAll, feed?_settle h (hb b rfl), line_settle]

/-! ## Gaps -/

theorem count_lineFeed_cons (b : UInt8) (s : Bytes) :
    (b :: s).count lineFeed = [b].count lineFeed + s.count lineFeed := by
  rw [← List.count_append, List.singleton_append]

theorem read_blank (h : b ∈ blanks) (rest : Bytes) :
    read ⟨n, toks, .none⟩ (b :: rest) = read ⟨n + [b].count lineFeed, toks, .none⟩ rest := by
  refine read_begin ?_ rest
  simp only [begin?, ofByte_of_mem_blanks h, lineAfter]
  by_cases hb : b = lineFeed <;> simp [hb]

/-- A comment is read up to the end of its line. -/
theorem read_comment_body {body : Bytes} (h : lineFeed ∉ body) (ends : EndsLine rest) :
    read ⟨n, toks, .comment⟩ (body ++ rest) = read ⟨n, toks, .none⟩ rest := by
  induction body with
  | nil =>
    refine read_settle (by simp) fun b hb => ?_
    simp [extend?, ends b hb]
  | cons b body ih =>
    have hb : b ≠ lineFeed := by rintro rfl; simp at h
    rw [List.cons_append, read_extend (m := ⟨n, toks, .comment⟩) (by simp [extend?, hb])]
    exact ih (by simp_all)

theorem read_comment {body : Bytes} (h : lineFeed ∉ body) (ends : EndsLine rest) :
    read ⟨n, toks, .none⟩ (slashByte :: slashByte :: (body ++ rest)) = read ⟨n, toks, .none⟩ rest := by
  rw [read_begin (m := ⟨n, toks, .slash⟩) (by simp [begin?, ofByte_slashByte]),
    read_extend (m := ⟨n, toks, .comment⟩) (by simp [extend?]), read_comment_body h ends]

/-- **A gap is read as nothing.** Only its line feeds are counted. -/
theorem read_gap {g : Bytes} (h : Gap rest g) :
    read ⟨n, toks, .none⟩ (g ++ rest) = read ⟨n + g.count lineFeed, toks, .none⟩ rest := by
  induction h generalizing n with
  | nil => simp
  | @blank b g hb more ih =>
    rw [List.cons_append, read_blank hb, ih, count_lineFeed_cons b g, Nat.add_assoc]
  | @comment body g hb ends more ih =>
    have hcount : (slashByte :: slashByte :: (body ++ g)).count lineFeed = g.count lineFeed := by
      have hs : slashByte ≠ lineFeed := by decide
      rw [List.count_cons_of_ne hs, List.count_cons_of_ne hs, List.count_append, List.count_eq_zero.2 hb, Nat.zero_add]
    rw [List.cons_append, List.cons_append, List.append_assoc, read_comment hb ends, ih, hcount]

/-! ## Lexemes -/

/-- A run of bytes that each continue the lexeme being read. -/
theorem read_run {pending : Bytes → Pending} {q : UInt8 → Prop}
    (hq : ∀ acc b, q b → extend? ⟨n, toks, pending acc⟩ b = some ⟨n, toks, pending (b :: acc)⟩) {s : Bytes}
    (hs : ∀ b ∈ s, q b) (acc rest : Bytes) :
    read ⟨n, toks, pending acc⟩ (s ++ rest) = read ⟨n, toks, pending (s.reverse ++ acc)⟩ rest := by
  induction s generalizing acc with
  | nil => rfl
  | cons b s ih =>
    obtain ⟨hb, hs⟩ := List.forall_mem_cons.1 hs
    rw [List.cons_append, read_extend (hq acc b hb), ih hs]
    simp

theorem read_single {k : Kind} (h : Lead.ofByte b = .single k) (rest : Bytes) :
    read ⟨n, toks, .none⟩ (b :: rest) = read ⟨n, { kind := k, lexeme := [b], line := n } :: toks, .none⟩ rest := by
  refine read_begin ?_ rest
  simp [begin?, h, emitPlain, emit]

theorem read_punctuator {k : Kind} (h : (b, k) ∈ punctuators) (hm : Munched [b] rest) :
    read ⟨n, toks, .none⟩ (b :: rest) = read ⟨n, tokenOf n [b] :: toks, .none⟩ rest := by
  rw [tokenOf_punctuator h]
  rcases ofByte_of_mem_punctuators h with hb | ⟨rfl, rfl⟩
  · exact read_single hb rest
  · have hstop : ∀ c ∈ rest.head?, extend? ⟨n, toks, .slash⟩ c = none := by
      intro c hc
      simp [extend?, hm.slash_stops c hc]
    rw [read_begin (m := ⟨n, toks, .slash⟩) (by simp [begin?, ofByte_slashByte]), read_settle (by simp) hstop]
    rfl

theorem read_operator {alone paired : Kind} (h : (b, alone, paired) ∈ operators) (hm : Munched [b] rest) :
    read ⟨n, toks, .none⟩ (b :: rest) = read ⟨n, tokenOf n [b] :: toks, .none⟩ rest := by
  have hstop : ∀ c ∈ rest.head?, extend? ⟨n, toks, .operator alone paired b⟩ c = none := by
    intro c hc
    simp [extend?, hm.operator_stops h c hc]
  rw [read_begin (m := ⟨n, toks, .operator alone paired b⟩) (by simp [begin?, ofByte_of_mem_operators h]),
    read_settle (by simp) hstop, tokenOf_operator h]
  rfl

theorem read_paired {alone paired : Kind} (h : (b, alone, paired) ∈ operators) (rest : Bytes) :
    read ⟨n, toks, .none⟩ (b :: equalsByte :: rest) = read ⟨n, tokenOf n [b, equalsByte] :: toks, .none⟩ rest := by
  rw [read_begin (m := ⟨n, toks, .operator alone paired b⟩) (by simp [begin?, ofByte_of_mem_operators h]),
    tokenOf_paired h]
  refine read_extend ?_ rest
  simp [extend?, emitPlain, emit]

/-- The text of a string is read up to the quote, across lines. -/
theorem read_string_body {body : Bytes} (h : quoteByte ∉ body) (acc rest : Bytes) :
    read ⟨n, toks, .string acc⟩ (body ++ rest) =
      read ⟨n + body.count lineFeed, toks, .string (body.reverse ++ acc)⟩ rest := by
  induction body generalizing n acc with
  | nil => rfl
  | cons b body ih =>
    have hb : b ≠ quoteByte := by rintro rfl; simp at h
    have hstep : extend? ⟨n, toks, .string acc⟩ b = some ⟨n + [b].count lineFeed, toks, .string (b :: acc)⟩ := by
      by_cases hf : b = lineFeed <;> simp_all [extend?, lineAfter]
    rw [List.cons_append, read_extend hstep, ih (by simp_all), count_lineFeed_cons b body, Nat.add_assoc]
    simp

theorem read_string {body : Bytes} (h : quoteByte ∉ body) (rest : Bytes) :
    read ⟨n, toks, .none⟩ (quoteByte :: (body ++ quoteByte :: rest)) =
      read ⟨n + body.count lineFeed, tokenOf (n + body.count lineFeed) (quoteByte :: (body ++ [quoteByte])) :: toks,
        .none⟩ rest := by
  rw [read_begin (m := ⟨n, toks, .string []⟩) (by simp [begin?, ofByte_quoteByte]), read_string_body h,
    tokenOf_string]
  refine read_extend ?_ rest
  simp [extend?, emitString, emit]

theorem read_digits {ds : Bytes} (nonempty : ds ≠ []) (digits : ∀ b ∈ ds, isDigit b) (rest : Bytes) :
    read ⟨n, toks, .none⟩ (ds ++ rest) = read ⟨n, toks, .digits ds.reverse⟩ rest := by
  obtain ⟨d, ds, rfl⟩ := List.exists_cons_of_ne_nil nonempty
  obtain ⟨hd, hds⟩ := List.forall_mem_cons.1 digits
  have hq : ∀ acc b, isDigit b → extend? ⟨n, toks, .digits acc⟩ b = some ⟨n, toks, .digits (b :: acc)⟩ := by
    intro acc b hb
    simp [extend?, hb]
  rw [List.cons_append, read_begin (m := ⟨n, toks, .digits [d]⟩) (by simp [begin?, ofByte_of_isDigit hd]),
    read_run hq hds]
  simp

theorem tokenOf_digits {ds : Bytes} (nonempty : ds ≠ []) (digits : ∀ b ∈ ds, isDigit b) (m : Bytes) (line : Nat) :
    tokenOf line (ds ++ m) =
      { kind := .number, lexeme := ds ++ m, line := line, number := (Decimal.ofLexeme (ds ++ m)).toFloat } := by
  obtain ⟨d, ds, rfl⟩ := List.exists_cons_of_ne_nil nonempty
  exact tokenOf_number (digits d (by simp)) (ds ++ m) line

theorem read_integer {ds : Bytes} (nonempty : ds ≠ []) (digits : ∀ b ∈ ds, isDigit b) (hm : Munched ds rest) :
    read ⟨n, toks, .none⟩ (ds ++ rest) = read ⟨n, tokenOf n ds :: toks, .none⟩ rest := by
  have htok := tokenOf_digits nonempty digits [] n
  rw [List.append_nil] at htok
  rw [read_digits nonempty digits, htok]
  by_cases hp : pointByte ∈ rest.head?
  · -- the point has been read with the digits, and is given up again when no digit follows it
    obtain ⟨tail, rfl⟩ := List.head?_eq_some_iff.1 hp
    have hstop : ∀ c ∈ tail.head?, extend? ⟨n, toks, .point ds.reverse⟩ c = none := by
      intro c hc
      simp [extend?, hm.integer_stops_point nonempty digits c hc]
    have hdot : Lead.ofByte pointByte = .single .dot := by decide
    rw [read_extend (m := ⟨n, toks, .point ds.reverse⟩) (by simp [extend?, pointByte, isDigit]),
      read_settle (by simp) hstop, read_single hdot]
    simp [settle, emitNumber, emitPlain, emit]
  · have hstop : ∀ c ∈ rest.head?, extend? ⟨n, toks, .digits ds.reverse⟩ c = none := by
      intro c hc
      have hc' : c ≠ pointByte := by rintro rfl; exact hp hc
      simp [extend?, hm.integer_stops digits c hc, hc']
    rw [read_settle (by simp) hstop]
    simp [settle, emitNumber, emit]

theorem read_decimal {ds fs : Bytes} (nonempty : ds ≠ []) (digits : ∀ b ∈ ds, isDigit b) (more : fs ≠ [])
    (fraction : ∀ b ∈ fs, isDigit b) (hm : Munched (ds ++ pointByte :: fs) rest) :
    read ⟨n, toks, .none⟩ (ds ++ pointByte :: fs ++ rest) =
      read ⟨n, tokenOf n (ds ++ pointByte :: fs) :: toks, .none⟩ rest := by
  obtain ⟨f, fs, rfl⟩ := List.exists_cons_of_ne_nil more
  obtain ⟨hf, hfs⟩ := List.forall_mem_cons.1 fraction
  have hq : ∀ acc b, isDigit b → extend? ⟨n, toks, .fraction acc⟩ b = some ⟨n, toks, .fraction (b :: acc)⟩ := by
    intro acc b hb
    simp [extend?, hb]
  have hstop : ∀ acc, ∀ c ∈ rest.head?, extend? ⟨n, toks, .fraction acc⟩ c = none := by
    intro acc c hc
    simp [extend?, hm.decimal_stops nonempty digits fraction c hc]
  rw [List.append_assoc, read_digits nonempty digits, List.cons_append, List.cons_append,
    read_extend (m := ⟨n, toks, .point ds.reverse⟩) (by simp [extend?, pointByte, isDigit]),
    read_extend (m := ⟨n, toks, .fraction (f :: pointByte :: ds.reverse)⟩) (by simp [extend?, hf]),
    read_run hq hfs, read_settle (by simp) (hstop _), tokenOf_digits nonempty digits]
  simp [settle, emitNumber, emit]

theorem read_word {w : Bytes} (first : isLetter b) (others : ∀ c ∈ w, isWordByte c) (hm : Munched (b :: w) rest) :
    read ⟨n, toks, .none⟩ (b :: w ++ rest) = read ⟨n, tokenOf n (b :: w) :: toks, .none⟩ rest := by
  have hq : ∀ acc c, isWordByte c → extend? ⟨n, toks, .word acc⟩ c = some ⟨n, toks, .word (c :: acc)⟩ := by
    intro acc c hc
    simp [extend?, hc]
  have hstop : ∀ acc, ∀ c ∈ rest.head?, extend? ⟨n, toks, .word acc⟩ c = none := by
    intro acc c hc
    simp [extend?, hm.word_stops first others c hc]
  rw [List.cons_append, read_begin (m := ⟨n, toks, .word [b]⟩) (by simp [begin?, ofByte_of_isLetter first]),
    read_run hq others, read_settle (by simp) (hstop _), tokenOf_word first]
  simp [settle, emitWord, emitPlain, emit]

theorem count_lineFeed_word {w : Bytes} (h : ∀ b ∈ w, isWordByte b) : w.count lineFeed = 0 :=
  List.count_eq_zero.2 fun hf => wordByte_ne_lineFeed (h _ hf) rfl

theorem count_lineFeed_digits {ds : Bytes} (digits : ∀ b ∈ ds, isDigit b) : ds.count lineFeed = 0 := by
  refine count_lineFeed_word fun b hb => ?_
  simp [isWordByte, digits b hb]

/-- **The longest lexeme is read as its token**, on the line where it ends. -/
theorem read_munched {s : Bytes} (h : Munched s rest) :
    read ⟨n, toks, .none⟩ (s ++ rest) =
      read ⟨n + s.count lineFeed, tokenOf (n + s.count lineFeed) s :: toks, .none⟩ rest := by
  cases h.lexeme with
  | @punctuator b k hb =>
    have all : ∀ e ∈ punctuators, [e.1].count lineFeed = 0 := by decide
    rw [all _ hb]
    exact read_punctuator hb h
  | @operator b _ _ hb =>
    have all : ∀ e ∈ operators, [e.1].count lineFeed = 0 := by decide
    rw [all _ hb]
    exact read_operator hb h
  | @paired b _ _ hb =>
    have all : ∀ e ∈ operators, [e.1, equalsByte].count lineFeed = 0 := by decide
    rw [all _ hb]
    exact read_paired hb rest
  | @string body hbody =>
    have hcount : (quoteByte :: (body ++ [quoteByte])).count lineFeed = body.count lineFeed := by
      rw [List.count_cons_of_ne (by decide), List.count_append]
      rfl
    rw [hcount, List.cons_append, List.append_assoc, List.singleton_append]
    exact read_string hbody rest
  | integer nonempty digits =>
    rw [count_lineFeed_digits digits]
    exact read_integer nonempty digits h
  | @decimal ds fs nonempty digits more fraction =>
    have hcount : (ds ++ pointByte :: fs).count lineFeed = 0 := by
      rw [List.count_append, List.count_cons_of_ne (by decide), count_lineFeed_digits digits,
        count_lineFeed_digits fraction]
    rw [hcount]
    exact read_decimal nonempty digits more fraction h
  | @word b w first others =>
    have hword : ∀ c ∈ b :: w, isWordByte c := by
      refine List.forall_mem_cons.2 ⟨?_, others⟩
      simp [isWordByte, first]
    rw [count_lineFeed_word hword]
    exact read_word first others h

/-! ## Sources -/

/-- **What the grammar consumes is read as its tokens.** -/
theorem read_consumed {pre p : Bytes} {ts : List Token} (h : Consumed pre p rest ts) (toks : List Token) :
    read ⟨endLine pre, toks, .none⟩ (p ++ rest) =
      read ⟨endLine (pre ++ p), ts.reverse ++ toks, .none⟩ rest := by
  induction h generalizing toks with
  | gap h =>
    rw [read_gap h, endLine, endLine, List.count_append, Nat.add_assoc]
    rfl
  | @token pre g l p rest ts hg hl more ih =>
    have hline : endLine pre + g.count lineFeed + l.count lineFeed = endLine (pre ++ (g ++ l)) := by
      simp only [endLine, List.count_append]
      omega
    rw [show g ++ (l ++ p) ++ rest = g ++ (l ++ (p ++ rest)) by simp, read_gap hg, read_munched hl, hline, ih]
    simp

theorem read_nil : read ⟨n, toks, .none⟩ [] = .ok ⟨n, Token.endOfSource n :: toks, .none⟩ := rfl

theorem read_unterminated {body : Bytes} (h : quoteByte ∉ body) :
    read ⟨n, toks, .none⟩ (quoteByte :: body) = .error ⟨n + body.count lineFeed, .unterminated⟩ := by
  have hbody : read ⟨n, toks, .string []⟩ (body ++ []) = read ⟨n + body.count lineFeed, toks, .string _⟩ [] :=
    read_string_body h [] []
  rw [List.append_nil] at hbody
  rw [read_begin (m := ⟨n, toks, .string []⟩) (by simp [begin?, ofByte_quoteByte]), hbody]
  rfl

theorem read_stray (h : ¬ Begins b) (rest : Bytes) :
    read ⟨n, toks, .none⟩ (b :: rest) = .error ⟨n, .unexpected (Utf8.first b rest).1.toChar⟩ := by
  simp [read, feedAll, feed?, extend?, begin?, ofByte_eq_stray_iff.2 h]

end Lexer

namespace Token

open Lexer (quoteByte)

variable {src p rest : Bytes} {us : List Token}

theorem scan_consumed (h : Consumed [] p rest us) :
    scan (p ++ rest) = (Lexer.read ⟨endLine p, us.reverse, .none⟩ rest).map (·.tokens.reverse) := by
  have hread := Lexer.read_consumed h []
  rw [List.append_nil, List.nil_append] at hread
  show (Lexer.read ⟨endLine [], [], .none⟩ (p ++ rest)).map _ = _
  rw [hread]

theorem scan_of_consumed (h : Consumed [] src [] us) : scan src = .ok (us ++ [endOfSource (endLine src)]) := by
  have hscan := scan_consumed h
  rw [List.append_nil, Lexer.read_nil] at hscan
  simpa [Except.map] using hscan

theorem scan_of_unterminated {body : Bytes} (h : Consumed [] p (quoteByte :: body) us) (hq : quoteByte ∉ body) :
    scan (p ++ quoteByte :: body) = .error ⟨endLine (p ++ quoteByte :: body), .unterminated⟩ := by
  have hline : endLine (p ++ quoteByte :: body) = endLine p + body.count lineFeed := by
    rw [endLine, endLine, List.count_append, List.count_cons_of_ne (by decide), Nat.add_assoc]
  rw [scan_consumed h, Lexer.read_unterminated hq, hline]
  rfl

theorem scan_of_stray {b : UInt8} {tail : Bytes} {c : Char} (h : Consumed [] p (b :: tail) us) (hb : ¬ Begins b)
    (hc : Utf8.Decodes (b :: tail) c) : scan (p ++ b :: tail) = .error ⟨endLine p, .unexpected c⟩ := by
  rw [scan_consumed h, Lexer.read_stray hb, Utf8.toChar_first_iff.2 hc]
  rfl

/-- **How scanning ends**: with the tokens of the whole source, at a string that is not closed, or at a byte that begins
nothing. -/
theorem scan_cases (src : Bytes) :
    (∃ us, Consumed [] src [] us ∧ scan src = .ok (us ++ [endOfSource (endLine src)])) ∨
      ∃ p rest us, src = p ++ rest ∧ Consumed [] p rest us ∧
        (Unterminated rest ∧ scan src = .error ⟨endLine src, .unterminated⟩ ∨
          Stray rest ∧ ∃ c, Utf8.Decodes rest c ∧ scan src = .error ⟨endLine p, .unexpected c⟩) := by
  obtain ⟨p, rest, us, rfl, h, rfl | ⟨body, rfl, hq⟩ | ⟨b, tail, rfl, hb⟩⟩ := exists_consumed [] src
  · rw [List.append_nil]
    exact .inl ⟨us, h, scan_of_consumed h⟩
  · exact .inr ⟨p, _, us, rfl, h, .inl ⟨⟨body, rfl, hq⟩, scan_of_unterminated h hq⟩⟩
  · have hc := Utf8.toChar_first_iff.1 (rfl : (Utf8.first b tail).1.toChar = _)
    exact .inr ⟨p, _, us, rfl, h, .inr ⟨⟨b, tail, rfl, hb⟩, _, hc, scan_of_stray h hb hc⟩⟩

theorem consumed_of_scan {ts : List Token} (h : scan src = .ok ts) :
    ∃ us, Consumed [] src [] us ∧ ts = us ++ [endOfSource (endLine src)] := by
  rcases scan_cases src with ⟨us, hus, hscan⟩ | ⟨p, rest, us, -, -, ⟨-, hscan⟩ | ⟨-, c, -, hscan⟩⟩
  · exact ⟨us, hus, Except.ok.inj (h.symm.trans hscan)⟩
  · cases h.symm.trans hscan
  · cases h.symm.trans hscan

theorem consumed_of_scan_error {e : LexError} (h : scan src = .error e) :
    ∃ p rest us, src = p ++ rest ∧ Consumed [] p rest us ∧
      (Unterminated rest ∧ e = ⟨endLine src, .unterminated⟩ ∨
        Stray rest ∧ ∃ c, Utf8.Decodes rest c ∧ e = ⟨endLine p, .unexpected c⟩) := by
  rcases scan_cases src with ⟨us, -, hscan⟩ | ⟨p, rest, us, hsrc, hus, ⟨hrest, hscan⟩ | ⟨hrest, c, hc, hscan⟩⟩
  · cases h.symm.trans hscan
  · exact ⟨p, rest, us, hsrc, hus, .inl ⟨hrest, Except.error.inj (h.symm.trans hscan)⟩⟩
  · exact ⟨p, rest, us, hsrc, hus, .inr ⟨hrest, c, hc, Except.error.inj (h.symm.trans hscan)⟩⟩

/-- **Scanning decides the lexical grammar.** It succeeds exactly on the sources that are gaps and longest lexemes, with
the tokens of these lexemes and one that marks the end. -/
theorem scan_ok_iff (src : Bytes) (ts : List Token) :
    scan src = .ok ts ↔ ∃ us, Consumed [] src [] us ∧ ts = us ++ [endOfSource (endLine src)] := by
  constructor
  · exact consumed_of_scan
  · rintro ⟨us, h, rfl⟩
    exact scan_of_consumed h

/-- **Scanning fails exactly at the first lexical error.** All before it is gaps and longest lexemes. Either a string is
not closed, and the error is on the last line of the source, or a byte begins nothing, and the error is on its line and
shows the character that stands there. -/
theorem scan_error_iff (src : Bytes) (d : Diagnostic) :
    (scan src).mapError LexError.diagnostic = .error d ↔
      ∃ p rest us, src = p ++ rest ∧ Consumed [] p rest us ∧
        ((Unterminated rest ∧
            d = { line := endLine src, place := utf8 "at end", message := utf8 "Unterminated string." }) ∨
          (Stray rest ∧ ∃ c, Utf8.Decodes rest c ∧
            d = { line := endLine p, place := utf8 "at " ++ Quoted.char c,
                  message := utf8 "Unexpected character." })) := by
  constructor
  · intro hd
    cases hscan : scan src with
    | ok ts =>
      rw [hscan] at hd
      cases hd
    | error e =>
      rw [hscan] at hd
      cases hd
      obtain ⟨p, rest, us, hsrc, hus, ⟨hrest, rfl⟩ | ⟨hrest, c, hc, rfl⟩⟩ := consumed_of_scan_error hscan
      · exact ⟨p, rest, us, hsrc, hus, .inl ⟨hrest, rfl⟩⟩
      · exact ⟨p, rest, us, hsrc, hus, .inr ⟨hrest, c, hc, rfl⟩⟩
  · rintro ⟨p, rest, us, rfl, h, ⟨⟨body, rfl, hq⟩, rfl⟩ | ⟨⟨b, tail, rfl, hb⟩, c, hc, rfl⟩⟩
    · rw [scan_of_unterminated h hq]
      rfl
    · rw [scan_of_stray h hb hc]
      rfl

end Token

end ExprLang
