import ExprLang.Proofs.Token.Layout

/-!
# Scanning line by line

A line feed ends every lexeme but a string, so a source may be cut at any line feed outside of strings and its two parts
scanned on their own. The second part is scanned as if it began some lines further down:

* `Lexer.feed?_lowered`, `Lexer.read_lowered` — a lexer that starts on a later line, with tokens finished before, does
  what one at the beginning does, on later lines;
* `Lexer.line_of_feedAll` — the line grows by the line feeds that are read;
* `Lexer.feed?_lineFeed` — a line feed finishes the lexeme being read;
* `Utf8.first_append_lineFeed` — the character at a byte is not changed by what comes after the line;
* `Token.pairwise_line_of_scan` — the lines of the tokens of a source never decrease;
* `Token.scan_append_lineFeed` — the tokens of two texts with a line feed between them.
-/

namespace ExprLang

open Bytes (lineFeed)

/-! ## Errors and states on later lines -/

/-- The same error `k` lines further down. -/
def LexError.lowered (k : Nat) (e : LexError) : LexError := { e with line := e.line + k }

theorem LexError.diagnostic_lowered (k : Nat) (e : LexError) :
    (e.lowered k).diagnostic = { e.diagnostic with line := e.diagnostic.line + k } := by
  rcases e with ⟨line, _ | _⟩ <;> rfl

namespace Lexer

/-- The state `l` in a source that begins `k` lines further down, after the tokens `pre`. -/
def lowered (k : Nat) (pre : List Token) (l : Lexer) : Lexer where
  line := l.line + k
  tokens := l.tokens.map (Token.mapLine (· + k)) ++ pre
  pending := l.pending

variable (k : Nat) (pre : List Token) (l : Lexer)

theorem settle_lowered : (l.lowered k pre).settle = l.settle.lowered k pre := by
  rcases l with ⟨n, toks, _ | _ | _ | _ | _ | _ | _ | _ | _⟩ <;> rfl

theorem lineAfter_lowered (b : UInt8) : (l.lowered k pre).lineAfter b = l.lineAfter b + k := by
  simp only [lineAfter, lowered]
  split <;> omega

theorem extend?_lowered (b : UInt8) : (l.lowered k pre).extend? b = (l.extend? b).map (lowered k pre) := by
  rcases l with ⟨n, toks, _ | _ | _ | _ | _ | _ | _ | _ | _⟩
  case string body =>
    unfold extend?
    simp only [lineAfter_lowered]
    dsimp only [lowered]
    split <;> rfl
  case digits ds =>
    simp only [extend?, lowered]
    split
    · rfl
    · split <;> rfl
  all_goals first | rfl | (simp only [extend?, lowered]; split <;> rfl)

theorem begin?_lowered (b : UInt8) : (l.lowered k pre).begin? b = (l.begin? b).map (lowered k pre) := by
  unfold begin?
  rw [lineAfter_lowered]
  cases Lead.ofByte b <;> rfl

theorem feed?_lowered (b : UInt8) : (l.lowered k pre).feed? b = (l.feed? b).map (lowered k pre) := by
  unfold feed?
  rw [extend?_lowered, settle_lowered, begin?_lowered]
  cases l.extend? b <;> rfl

theorem finish_lowered :
    (l.lowered k pre).finish = (l.finish.map (lowered k pre)).mapError (LexError.lowered k) := by
  rcases l with ⟨n, toks, _ | _ | _ | _ | _ | _ | _ | _ | _⟩ <;> rfl

/-- **A source further down is read as one at the beginning is**, on later lines. -/
theorem read_lowered (s : Bytes) :
    (l.lowered k pre).read s = ((l.read s).map (lowered k pre)).mapError (LexError.lowered k) := by
  induction s generalizing l with
  | nil => exact finish_lowered k pre l
  | cons b s ih =>
    cases h : l.feed? b with
    | none =>
      have h' : (l.lowered k pre).feed? b = none := by rw [feed?_lowered, h]; rfl
      simp only [read, feedAll, h, h']
      rfl
    | some m =>
      have h' : (l.lowered k pre).feed? b = some (m.lowered k pre) := by rw [feed?_lowered, h]; rfl
      rw [read_of_feed? h, read_of_feed? h', ih]

/-! ## Lines and line feeds -/

variable {l} {m : Lexer} {b : UInt8}

/-- A line feed belongs to no lexeme but a string. -/
theorem extend?_lineFeed (h : ∀ body, l.pending ≠ .string body) : l.extend? lineFeed = none := by
  rcases l with ⟨n, toks, _ | _ | _ | _ | body | _ | _ | _ | _⟩
  case string => exact absurd rfl (h body)
  all_goals rfl

theorem lineAfter_of_ne (h : b ≠ lineFeed) : l.lineAfter b = l.line := if_neg h

theorem line_of_extend? (h : l.extend? b = some m) : m.line = l.lineAfter b := by
  by_cases hb : b = lineFeed
  · subst hb
    rcases l with ⟨n, toks, _ | _ | _ | _ | body | _ | _ | _ | _⟩
    case string =>
      cases h
      rfl
    all_goals cases h
  · rw [lineAfter_of_ne hb]
    revert h
    fun_cases extend? l b <;> rintro ⟨⟩
    case case9 => exact lineAfter_of_ne hb
    all_goals rfl

theorem line_of_begin? (h : l.begin? b = some m) : m.line = l.lineAfter b := by
  by_cases hb : b = lineFeed
  · subst hb
    cases h
    rfl
  · rw [lineAfter_of_ne hb]
    revert h
    unfold begin?
    cases Lead.ofByte b <;> rintro ⟨⟩
    case blank => exact lineAfter_of_ne hb
    all_goals rfl

/-- **Every line feed is counted once**, wherever it stands. -/
theorem line_of_feed? (h : l.feed? b = some m) : m.line = l.line + [b].count lineFeed := by
  have hafter : l.lineAfter b = l.line + [b].count lineFeed := by
    by_cases hb : b = lineFeed <;> simp [lineAfter, hb]
  rw [← hafter]
  unfold feed? at h
  cases he : l.extend? b with
  | some m' =>
    rw [he] at h
    cases h
    exact line_of_extend? he
  | none =>
    rw [he] at h
    have hline := line_of_begin? (show l.settle.begin? b = some m from h)
    rw [hline, lineAfter, lineAfter, line_settle]

theorem line_of_feedAll {s : Bytes} (h : l.feedAll s = .ok m) : m.line = l.line + s.count lineFeed := by
  induction s generalizing l with
  | nil =>
    cases h
    rfl
  | cons b s ih =>
    cases hb : l.feed? b with
    | none => simp [feedAll, hb] at h
    | some l' =>
      simp only [feedAll, hb] at h
      rw [ih h, line_of_feed? hb, count_lineFeed_cons b s]
      omega

/-- **A line feed finishes the lexeme being read**, and nothing is being read after it. -/
theorem feed?_lineFeed (h : ∀ body, l.pending ≠ .string body) :
    l.feed? lineFeed = some ⟨l.line + 1, l.settle.tokens, .none⟩ := by
  unfold feed?
  rw [extend?_lineFeed h]
  rcases l with ⟨n, toks, _ | _ | _ | _ | body | _ | _ | _ | _⟩
  case string => exact absurd rfl (h body)
  all_goals rfl

/-- A source that has been read to its end has no open string, and its last token marks the end. -/
theorem of_finish (h : l.finish = .ok m) :
    (∀ body, l.pending ≠ .string body) ∧ m.tokens = Token.endOfSource l.line :: l.settle.tokens := by
  rcases l with ⟨n, toks, _ | _ | _ | _ | body | _ | _ | _ | _⟩ <;> cases h <;> exact ⟨by simp, rfl⟩

/-- What follows a line feed is read from the beginning, on later lines. -/
theorem read_append_lineFeed {a : Bytes} (ha : l.feedAll a = .ok m) (hm : ∀ body, m.pending ≠ .string body)
    (b : Bytes) :
    l.read (a ++ lineFeed :: b) =
      ((read ⟨1, [], .none⟩ b).map (lowered m.line m.settle.tokens)).mapError (LexError.lowered m.line) := by
  have hread : l.read (a ++ lineFeed :: b) = m.read (lineFeed :: b) := by
    simp only [read, feedAll_append ha]
  have hstart : (⟨m.line + 1, m.settle.tokens, .none⟩ : Lexer) = lowered m.line m.settle.tokens ⟨1, [], .none⟩ := by
    simp [lowered, Nat.add_comm]
  rw [hread, read_of_feed? (feed?_lineFeed hm), hstart, read_lowered]

end Lexer

/-! ## Characters before a line feed -/

theorem Utf8.first_append_lineFeed (b : UInt8) (rest more : Bytes) :
    (first b (rest ++ lineFeed :: more)).1.toChar = (first b rest).1.toChar := by
  rw [toChar_first_iff, ← List.cons_append, decodes_append_iff (by simp) (by decide)]
  exact toChar_first_iff.1 rfl

/-- A byte that begins nothing stops the lexer in the same way if a line feed is put after the text. -/
theorem Lexer.feedAll_append_of_error {l : Lexer} {a : Bytes} {e : LexError} (h : l.feedAll a = .error e) (more : Bytes) :
    l.feedAll (a ++ lineFeed :: more) = .error e := by
  induction a generalizing l with
  | nil => cases h
  | cons b a ih =>
    simp only [feedAll, List.cons_append] at h ⊢
    cases hb : l.feed? b with
    | some m =>
      rw [hb] at h
      exact ih h
    | none =>
      rw [hb] at h
      rw [← h, Utf8.first_append_lineFeed]

/-! ## Lines of tokens -/

namespace Lexical

theorem endLine_le_append (pre p : Bytes) : endLine pre ≤ endLine (pre ++ p) := by
  rw [endLine, endLine, List.count_append]
  omega

/-- A token is on one of the lines over which its source goes. -/
theorem Consumed.line_bounds {pre p rest : Bytes} {ts : List Token} (h : Consumed pre p rest ts) :
    ∀ t ∈ ts, (endLine pre : Int) ≤ t.line ∧ t.line ≤ endLine (pre ++ p) := by
  induction h with
  | gap => exact List.forall_mem_nil _
  | @token pre g l p rest ts _ _ _ ih =>
    have hlexeme := endLine_le_append pre (g ++ l)
    have hmore := endLine_le_append (pre ++ (g ++ l)) p
    have hwhole : pre ++ (g ++ (l ++ p)) = pre ++ (g ++ l) ++ p := by simp only [List.append_assoc]
    rw [hwhole]
    refine List.forall_mem_cons.2 ⟨⟨Int.ofNat_le.2 hlexeme, Int.ofNat_le.2 hmore⟩, fun t ht => ?_⟩
    have := ih t ht
    omega

theorem Consumed.pairwise_line {pre p rest : Bytes} {ts : List Token} (h : Consumed pre p rest ts) :
    ts.Pairwise fun t u => t.line ≤ u.line := by
  induction h with
  | gap => exact .nil
  | token _ _ more ih => exact List.pairwise_cons.2 ⟨fun t ht => (more.line_bounds t ht).1, ih⟩

end Lexical

/-! ## Sources -/

namespace Token

open Lexical (endLine)

variable {a : Bytes} {ts : List Token} {e : LexError}

/-- **The lines of the tokens of a source never decrease.** -/
theorem pairwise_line_of_scan (h : scan a = .ok ts) : ts.Pairwise fun t u => t.line ≤ u.line := by
  obtain ⟨us, hus, rfl⟩ := consumed_of_scan h
  refine List.pairwise_append.2 ⟨hus.pairwise_line, List.pairwise_singleton _ _, fun t ht u hu => ?_⟩
  obtain rfl := List.mem_singleton.1 hu
  exact (hus.line_bounds t ht).2

theorem scan_eq_read (s : Bytes) : scan s = (Lexer.read ⟨1, [], .none⟩ s).map (·.tokens.reverse) := rfl

/-- After a text that is scanned to its end and a line feed, scanning starts anew on a later line. -/
theorem scan_append_of_ok (ha : scan a = .ok ts) :
    ∃ init, ts = init ++ [endOfSource (endLine a)] ∧ ∀ b,
      scan (a ++ lineFeed :: b) =
        ((scan b).map fun us => init ++ us.map (mapLine (· + endLine a))).mapError (LexError.lowered (endLine a)) := by
  rw [scan_eq_read, Lexer.read] at ha
  cases hm : Lexer.feedAll ⟨1, [], .none⟩ a with
  | error e =>
    rw [hm] at ha
    cases ha
  | ok m =>
    simp only [hm] at ha
    cases hf : m.finish with
    | error e =>
      rw [hf] at ha
      cases ha
    | ok l =>
      rw [hf] at ha
      have hts : l.tokens.reverse = ts := Except.ok.inj ha
      obtain ⟨hopen, htokens⟩ := Lexer.of_finish hf
      have hline : m.line = endLine a := Lexer.line_of_feedAll hm
      refine ⟨m.settle.tokens.reverse, ?_, fun b => ?_⟩
      · rw [← hts, htokens, List.reverse_cons, hline]
      · rw [scan_eq_read, scan_eq_read, Lexer.read_append_lineFeed hm hopen, hline]
        cases Lexer.read ⟨1, [], .none⟩ b with
        | error e => rfl
        | ok l' =>
          show Except.ok _ = Except.ok _
          simp [Lexer.lowered]

/-- A character that starts no token stops the scan before it gets to the line feed. -/
theorem scan_append_of_error (ha : scan a = .error e) (he : e.diagnostic.message = utf8 "Unexpected character.")
    (b : Bytes) : scan (a ++ lineFeed :: b) = .error e := by
  rw [scan_eq_read, Lexer.read] at ha
  rw [scan_eq_read, Lexer.read]
  cases hm : Lexer.feedAll ⟨1, [], .none⟩ a with
  | error e' =>
    rw [Lexer.feedAll_append_of_error hm]
    simpa only [hm] using ha
  | ok m =>
    -- the end of the text complains of an open string only
    rcases m with ⟨n, toks, _ | _ | _ | _ | body | _ | _ | _ | _⟩ <;> rw [hm] at ha <;> cases ha
    have hne : utf8 "Unterminated string." ≠ utf8 "Unexpected character." := by decide
    exact absurd he hne

/-- **Scanning is compositional at line feeds.** If `a` is scanned to its end, the tokens of `a`, a line feed and `b` are
those of `a` without the mark of the end and those of `b` on later lines, and an error in `b` is the same error on a later
line. If `a` holds a character that starts no token, what follows `a` does not matter. -/
theorem scan_append_lineFeed (a : Bytes) :
    (∀ ts, scan a = .ok ts → ∃ init, ts = init ++ [endOfSource (endLine a)] ∧ ∀ b,
      ((∃ vs, scan (a ++ lineFeed :: b) = .ok vs) ↔ ∃ us, scan b = .ok us) ∧
      (∀ us, scan b = .ok us →
        scan (a ++ lineFeed :: b) = .ok (init ++ us.map (mapLine (· + (1 + a.count lineFeed : Nat))))) ∧
      (∀ e, scan b = .error e → ∃ f, scan (a ++ lineFeed :: b) = .error f ∧
        f.diagnostic = { e.diagnostic with line := e.diagnostic.line + (1 + a.count lineFeed : Nat) })) ∧
    (∀ e, scan a = .error e → e.diagnostic.message = utf8 "Unexpected character." →
      ∀ b, scan (a ++ lineFeed :: b) = .error e) := by
  refine ⟨fun ts ha => ?_, fun e ha he b => scan_append_of_error ha he b⟩
  obtain ⟨init, hts, hscan⟩ := scan_append_of_ok ha
  refine ⟨init, hts, fun b => ?_⟩
  rw [hscan b]
  cases scan b with
  | ok us =>
    refine ⟨⟨fun _ => ⟨us, rfl⟩, fun _ => ⟨_, rfl⟩⟩, ?_, ?_⟩
    · rintro _ ⟨⟩
      rfl
    · rintro _ ⟨⟩
  | error e =>
    refine ⟨⟨?_, ?_⟩, ?_, ?_⟩
    · rintro ⟨_, ⟨⟩⟩
    · rintro ⟨_, ⟨⟩⟩
    · rintro _ ⟨⟩
    · rintro _ ⟨⟩
      exact ⟨_, rfl, LexError.diagnostic_lowered _ e⟩

/-- An exclamation mark and an equals sign on two lines are two tokens, and a sequence of bytes that a line feed cuts
short is no character, whatever comes after it. -/
theorem scan_append_lineFeed_cut :
    let bang : List Token := [{ kind := .leftParen, lexeme := utf8 "(", line := 1 },
      { kind := .bang, lexeme := utf8 "!", line := 1 }]
    let equal (line : Int) : List Token := [{ kind := .equal, lexeme := utf8 "=", line },
      { kind := .kwNil, lexeme := utf8 "nil", line }, endOfSource line]
    (scan (utf8 "(!") = .ok (bang ++ [endOfSource 1]) ∧ scan (utf8 "= nil") = .ok (equal 1) ∧
      scan (utf8 "(!" ++ lineFeed :: utf8 "= nil") = .ok (bang ++ equal 2)) ∧
    (scan [0xE2, 0x82] = .error ⟨1, .unexpected Utf8.replacement⟩ ∧
      scan ([0xE2, 0x82] ++ lineFeed :: [0xAC]) = .error ⟨1, .unexpected Utf8.replacement⟩) := by
  intro bang equal
  have ha : scan (utf8 "(!") = .ok (bang ++ [endOfSource 1]) := rfl
  have hb : scan (utf8 "= nil") = .ok (equal 1) := rfl
  have hc : scan [0xE2, 0x82] = .error ⟨1, .unexpected Utf8.replacement⟩ := rfl
  obtain ⟨init, hts, hscan⟩ := (scan_append_lineFeed (utf8 "(!")).1 _ ha
  obtain rfl : bang = init := by simpa using congrArg List.dropLast hts
  exact ⟨⟨ha, hb, (hscan (utf8 "= nil")).2.1 _ hb⟩, hc, (scan_append_lineFeed [0xE2, 0x82]).2 _ hc rfl [0xAC]⟩

end Token

end ExprLang
