import ExprLang.Proofs.Token.Sweep

/-!
# Scanning in place stays in bounds

A source that is scanned in place is scanned as the lexer scans it, and the cursor never leaves it:

* `Phase.Fits`, `Sweep.Sound` — what holds of the bytes around the cursor in each phase, and of a state;
* `Sweep.Continues` — what one step does, and `Sweep.goesOn` — that there is such a step in every phase;
* `Sweep.of_leads`, `Sweep.exists_returned`, `Sweep.exists_completes` — what follows for runs;
* `Sweep.reachable_inBounds` — what holds of every state.
-/

namespace ExprLang

open Bytes (lineFeed isDigit isWordByte)
open Lexer (quoteByte pointByte slashByte equalsByte)

/-! ## Sound states -/

namespace Phase

/-- What the bytes around the cursor are like in a phase. -/
def Fits (c : Cursor) : Phase → Prop
  | .lead => c.start = c.current ∧ c.unread ≠ []
  | .operator _ _ => ∃ b, c.lexeme = [b]
  | .slash => c.lexeme = [slashByte]
  | .string => ∃ body, c.lexeme = quoteByte :: body
  | .closing => (∃ body, c.lexeme = quoteByte :: body) ∧ ∃ rest, c.unread = quoteByte :: rest
  | .point => isDigit c.peek = false
  | .fraction => c.lexeme.getLast? = some pointByte → isDigit c.peek
  | .stray => c.current = c.start + 1 ∧ ∃ b, c.source.drop c.start = b :: c.unread
  | _ => True

/-- A bound on the steps that follow in a phase before a byte is read or the call is over. -/
def rank : Phase → Nat
  | .returned => 0
  | .lead | .closing => 1
  | .next => 2
  | .digits => 4
  | _ => 3

theorem rank_le (p : Phase) : p.rank ≤ 4 := by cases p <;> simp [rank]

end Phase

namespace Sweep

variable {s t : Sweep} {c : Cursor} {p p' : Phase} {toks toks' : List Token} {f : Option LexError} {b : UInt8}
  {rest : Bytes}

/-- The cursor is sound, only a call that is ending has an error, and the bytes are as the phase wants them. -/
structure Sound (s : Sweep) : Prop where
  cursor : s.toCursor.Sound
  clean : s.failure = none ∨ s.phase = .next ∨ s.phase = .returned
  fits : s.phase.Fits s.toCursor

/-- A bound on the steps that are left. -/
def work (s : Sweep) : Nat := 5 * s.unread.length + s.phase.rank

/-! ## One step -/

/-- **What one step does.** It leaves a sound state of the same source, from which the call comes to the same; it never
moves the cursor back, and it moves it on from the start of a lexeme; and it leaves less to do. -/
structure Continues (s t : Sweep) : Prop where
  sound : t.Sound
  source_eq : t.source = s.source
  scanned_eq : t.scanned = s.scanned
  current_le : s.current ≤ t.current
  current_lt : s.phase = .lead → s.current < t.current
  not_returned : s.phase ≠ .next → t.phase ≠ .returned
  work_lt : t.work < s.work

/-- There is a step, and it continues the sweep. -/
def GoesOn (s : Sweep) : Prop := ∃ t, s.step? = some t ∧ s.Continues t

/-- A step that reads a byte as the lexer does. -/
theorem continues_feed {m : Lexer} (hs : Sound ⟨c, p, toks, none⟩) (hp : p.scans) (hu : c.unread = b :: rest)
    (hfeed : Lexer.feed? ⟨c.line, toks, p.pending c⟩ b = some m) (hp' : p'.scans) (htokens : m.tokens = toks')
    (hpending : m.pending = p'.pending (c.past [b])) (hfits : p'.Fits (c.past [b])) :
    Continues ⟨c, p, toks, none⟩ ⟨c.past [b], p', toks', none⟩ where
  sound := ⟨hs.cursor.past (w := [b]) hu, .inl rfl, hfits⟩
  source_eq := rfl
  scanned_eq := by
    have hrest : (c.past [b]).unread = rest := Cursor.unread_past hu
    -- the cursor and the lexer count the same line feeds, the one for all bytes and the other for each sort of lexeme
    have hline : m.line = (c.past [b]).line := Lexer.line_of_feed? hfeed
    rw [scanned_of_scans hp, hu, Scanner.scan_of_feed? hfeed, scanned_of_scans hp', hrest, ← hline, ← htokens,
      ← hpending]
  current_le := Nat.le_succ _
  current_lt _ := Nat.lt_succ_self _
  not_returned _ h := by
    obtain rfl : p' = .returned := h
    cases hp'
  work_lt := by
    have hrest : (c.past [b]).unread = rest := Cursor.unread_past hu
    have hrank := p'.rank_le
    simp only [work, hrest, hu, List.length_cons]
    omega

/-- A step that reads the first byte of a lexeme. -/
theorem continues_begin {m : Lexer} (hs : Sound ⟨c, .lead, toks, none⟩) (hu : c.unread = b :: rest)
    (hbegin : Lexer.begin? ⟨c.line, toks, .none⟩ b = some m) (hp : p.scans) (htokens : m.tokens = toks')
    (hpending : m.pending = p.pending (c.past [b])) (hfits : p.Fits (c.past [b])) :
    Continues ⟨c, .lead, toks, none⟩ ⟨c.past [b], p, toks', none⟩ := by
  have hfeed : Lexer.feed? ⟨c.line, toks, .none⟩ b = some m := hbegin
  exact continues_feed hs rfl hu hfeed hp htokens hpending hfits

/-- A step that reads a further byte of a lexeme. -/
theorem continues_extend {held : Bytes → Pending} (hs : Sound ⟨c, p, toks, none⟩) (hp : p.scans)
    (hu : c.unread = b :: rest) (hheld : ∀ d, p.pending d = held d.lexeme.reverse)
    (hextend : Lexer.extend? ⟨c.line, toks, held c.lexeme.reverse⟩ b =
      some ⟨c.line, toks, held (b :: c.lexeme.reverse)⟩) (hfits : p.Fits (c.past [b])) :
    Continues ⟨c, p, toks, none⟩ ⟨c.past [b], p, toks, none⟩ := by
  have hlexeme : (c.past [b]).lexeme = c.lexeme ++ [b] := Cursor.lexeme_past hs.cursor hu
  rw [← hheld] at hextend
  refine continues_feed hs hp hu (Lexer.feed?_of_extend? hextend) hp rfl ?_ hfits
  rw [hheld, hlexeme, List.reverse_concat]

/-- A step that does not move the cursor. -/
theorem continues_still (hs : Sound ⟨c, p, toks, none⟩) (hlead : p ≠ .lead) (htc : t.toCursor = c)
    (hclean : t.failure = none ∨ t.phase = .next) (hfits : t.phase.Fits c) (hret : t.phase ≠ .returned)
    (hrank : t.phase.rank < p.rank) (hscan : t.scanned = scanned ⟨c, p, toks, none⟩) :
    Continues ⟨c, p, toks, none⟩ t := by
  subst htc
  refine ⟨⟨hs.cursor, hclean.imp id .inl, hfits⟩, rfl, hscan, Nat.le_refl _, fun h => absurd h hlead, fun _ => hret, ?_⟩
  simp only [work]
  omega

/-- A step that finishes a lexeme where the lexer does. -/
theorem continues_settle (hs : Sound ⟨c, p, toks, none⟩) (hp : p.scans) (hrank : 2 < p.rank)
    (hscan : Scanner.scan { unread := c.unread, lexer := ⟨c.line, toks, p.pending c⟩ } =
      Scanner.scan { unread := c.unread, lexer := Lexer.settle ⟨c.line, toks, p.pending c⟩ })
    (hsettle : Lexer.settle ⟨c.line, toks, p.pending c⟩ = ⟨c.line, toks', .none⟩) :
    Continues ⟨c, p, toks, none⟩ ⟨c, .next, toks', none⟩ := by
  have hlead : p ≠ .lead := by
    rintro rfl
    simp [Phase.rank] at hrank
  refine continues_still hs hlead rfl (.inl rfl) trivial (by simp) hrank ?_
  rw [scanned_of_scans hp, scanned_of_scans rfl, hscan, hsettle]
  rfl

/-! ## Each phase -/

theorem goesOn_next (hs : Sound ⟨c, .next, toks, f⟩) : GoesOn ⟨c, .next, toks, f⟩ := by
  cases h : c.atEnd || f.isSome with
  | true =>
    have hsound : Sound (close ⟨c, .next, toks, f⟩) := ⟨hs.cursor, .inr (.inr rfl), trivial⟩
    refine ⟨close ⟨c, .next, toks, f⟩, ?_, hsound, rfl, ?_, Nat.le_refl _, by simp, by simp, ?_⟩
    · simp [step?, advances, otherwise?, h]
    · -- after an error the tokens are dropped here; the scanner has none any more
      cases f with
      | some e => rfl
      | none =>
        have hu : c.unread = [] := Cursor.atEnd_iff.1 (by simpa using h)
        simp only [scanned, scanner, close, outcome, Phase.pending, lexer, hu]
        rfl
    · simp [work, close, Phase.rank]
  | false =>
    obtain ⟨hend, rfl⟩ : c.atEnd = false ∧ f = none := by simpa using h
    obtain ⟨rest, hu⟩ := Cursor.exists_unread hend
    have hne : c.unread ≠ [] := by simp [hu]
    have hsound : Sound ⟨c.mark, .lead, toks, none⟩ := ⟨hs.cursor.mark, .inl rfl, rfl, hne⟩
    refine ⟨⟨c.mark, .lead, toks, none⟩, ?_, hsound, rfl, rfl, Nat.le_refl _, by simp, by simp, ?_⟩
    · simp [step?, advances, otherwise?, hend, moved, turn]
    · show 5 * c.unread.length + 1 < 5 * c.unread.length + 2
      omega

theorem goesOn_comment (hs : Sound ⟨c, .comment, toks, none⟩) : GoesOn ⟨c, .comment, toks, none⟩ := by
  cases hadv : advances ⟨c, .comment, toks, none⟩ with
  | true =>
    obtain ⟨hne, hend⟩ : c.peek ≠ lineFeed ∧ c.atEnd = false := by simpa [advances] using hadv
    obtain ⟨rest, hu⟩ := Cursor.exists_unread hend
    refine ⟨_, step?_of_advances hadv hu, ?_⟩
    refine continues_feed (m := ⟨c.line, toks, .comment⟩) hs rfl hu (Lexer.feed?_of_extend? ?_) rfl rfl rfl trivial
    simp [Lexer.extend?, Phase.pending, hne]
  | false =>
    refine ⟨_, step?_of_not_advances hadv, ?_⟩
    refine continues_settle hs rfl (by decide) (Scanner.scan_settle (by simp [Phase.pending]) ?_) rfl
    intro b hb
    obtain ⟨rest, hu⟩ := List.head?_eq_some_iff.1 hb
    have hb : b = lineFeed := by
      simpa [advances, Cursor.peek_of_unread hu, Cursor.atEnd_of_unread hu] using hadv
    simp [Phase.pending, Lexer.extend?, hb]

theorem goesOn_word (hs : Sound ⟨c, .word, toks, none⟩) : GoesOn ⟨c, .word, toks, none⟩ := by
  cases hadv : advances ⟨c, .word, toks, none⟩ with
  | true =>
    have hb : isWordByte c.peek := hadv
    obtain ⟨rest, hu⟩ := Cursor.exists_unread_of_class rfl hb
    refine ⟨_, step?_of_advances hadv hu, ?_⟩
    refine continues_extend hs rfl hu (fun _ => rfl) ?_ trivial
    simp [Lexer.extend?, hb]
  | false =>
    refine ⟨_, (step?_of_not_advances hadv).trans (finish?_eq hs.cursor _), ?_⟩
    refine continues_settle hs rfl (by decide) (Scanner.scan_settle (by simp [Phase.pending]) ?_) ?_
    · intro b hb
      have hb : isWordByte b = false := by
        rw [← Cursor.peek_of_mem hb]
        exact hadv
      simp [Phase.pending, Lexer.extend?, hb]
    · simp [Phase.pending, Lexer.settle, Lexer.emitWord, Lexer.emitPlain, Lexer.emit]

theorem goesOn_digits (hs : Sound ⟨c, .digits, toks, none⟩) : GoesOn ⟨c, .digits, toks, none⟩ := by
  cases hadv : advances ⟨c, .digits, toks, none⟩ with
  | true =>
    have hb : isDigit c.peek := hadv
    obtain ⟨rest, hu⟩ := Cursor.exists_unread_of_class rfl hb
    refine ⟨_, step?_of_advances hadv hu, ?_⟩
    refine continues_extend hs rfl hu (fun _ => rfl) ?_ trivial
    simp [Lexer.extend?, hb]
  | false =>
    refine ⟨_, step?_of_not_advances hadv, ?_⟩
    exact continues_still hs (by decide) rfl (.inl rfl) hadv (by simp [turn]) (by decide : Phase.point.rank < _) rfl

theorem goesOn_point (hs : Sound ⟨c, .point, toks, none⟩) : GoesOn ⟨c, .point, toks, none⟩ := by
  have hdigit : isDigit c.peek = false := hs.fits
  cases hadv : advances ⟨c, .point, toks, none⟩ with
  | true =>
    obtain ⟨hpoint, hnext⟩ : c.peek = pointByte ∧ isDigit c.peekNext := by simpa [advances] using hadv
    obtain ⟨rest, hu⟩ := Cursor.exists_unread_of_peek hpoint (by decide)
    have hlexeme : (c.past [pointByte]).lexeme = c.lexeme ++ [pointByte] := Cursor.lexeme_past hs.cursor hu
    refine ⟨_, step?_of_advances hadv hu, ?_⟩
    refine continues_feed (m := ⟨c.line, toks, .point c.lexeme.reverse⟩) hs rfl hu
      (Lexer.feed?_of_extend? rfl) rfl rfl ?_ ?_
    · simp [Phase.pending, hlexeme]
    · intro _
      rw [Cursor.peek_eq, Cursor.unread_past (w := [pointByte]) hu, ← Cursor.peekNext_eq hu]
      exact hnext
  | false =>
    refine ⟨_, (step?_of_not_advances hadv).trans (finish?_eq hs.cursor _), ?_⟩
    refine continues_settle hs rfl (by decide) ?_ ?_
    · by_cases hpoint : c.peek = pointByte
      · obtain ⟨rest, hu⟩ := Cursor.exists_unread_of_peek hpoint (by decide)
        rw [hu]
        -- the lexer takes the point for part of the number, and gives it up again when no digit follows
        refine Scanner.scan_point fun b hb => ?_
        have hnext : c.peekNext = b := by
          rw [Cursor.peekNext_eq hu, hb, Option.getD_some]
        simpa [advances, hpoint, hnext] using hadv
      · refine Scanner.scan_settle (by simp [Phase.pending]) fun b hb => ?_
        rw [Cursor.peek_of_mem hb] at hdigit hpoint
        simp [Phase.pending, Lexer.extend?, hdigit, hpoint]
    · simp [Phase.pending, Lexer.settle, Lexer.emitNumber, Lexer.emit]

theorem goesOn_fraction (hs : Sound ⟨c, .fraction, toks, none⟩) : GoesOn ⟨c, .fraction, toks, none⟩ := by
  cases hadv : advances ⟨c, .fraction, toks, none⟩ with
  | true =>
    have hb : isDigit c.peek := hadv
    have hne : c.peek ≠ pointByte := by
      intro h
      rw [h] at hb
      cases hb
    obtain ⟨rest, hu⟩ := Cursor.exists_unread_of_class rfl hb
    have hlexeme : (c.past [c.peek]).lexeme = c.lexeme ++ [c.peek] := Cursor.lexeme_past hs.cursor hu
    refine ⟨_, step?_of_advances hadv hu, ?_⟩
    refine continues_feed (m := ⟨c.line, toks, .fraction (c.peek :: c.lexeme.reverse)⟩) hs rfl hu
      (Lexer.feed?_of_extend? ?_) rfl rfl ?_ ?_
    · -- right after the point the lexer holds it apart from the digits, and it joins them with the first digit
      simp only [Phase.pending]
      split
      · rename_i hlast
        obtain ⟨ds, hds⟩ := List.getLast?_eq_some_iff.1 hlast
        simp [Lexer.extend?, hb, hds]
      · simp [Lexer.extend?, hb]
    · simp [Phase.pending, hlexeme, hne]
    · intro h
      simp [hlexeme, hne] at h
  | false =>
    have hb : isDigit c.peek = false := hadv
    have hpending : Phase.pending c .fraction = .fraction c.lexeme.reverse := by
      refine if_neg fun hlast => ?_
      rw [hs.fits hlast] at hb
      cases hb
    refine ⟨_, (step?_of_not_advances hadv).trans (finish?_eq hs.cursor _), ?_⟩
    refine continues_settle hs rfl (by decide) (Scanner.scan_settle (by simp [hpending]) ?_) ?_
    · intro b' hb'
      rw [Cursor.peek_of_mem hb'] at hb
      simp [hpending, Lexer.extend?, hb]
    · simp [hpending, Lexer.settle, Lexer.emitNumber, Lexer.emit]

theorem goesOn_operator {alone paired : Kind} (hs : Sound ⟨c, .operator alone paired, toks, none⟩) :
    GoesOn ⟨c, .operator alone paired, toks, none⟩ := by
  obtain ⟨b, hb⟩ : ∃ b, c.lexeme = [b] := hs.fits
  have hstep : step? ⟨c, .operator alone paired, toks, none⟩ = otherwise? ⟨c, .operator alone paired, toks, none⟩ := rfl
  have hpending : Phase.pending c (.operator alone paired) = .operator alone paired b := by simp [Phase.pending, hb]
  rw [GoesOn, hstep, otherwise?]
  dsimp only
  cases hd : c.accept? equalsByte with
  | some d =>
    obtain ⟨hu, rfl⟩ := Cursor.eq_past_of_accept? (by decide) hd
    have hlexeme : (c.past [equalsByte]).lexeme = c.lexeme ++ [equalsByte] := Cursor.lexeme_past hs.cursor hu
    refine ⟨_, finish?_eq (hs.cursor.past (w := [equalsByte]) hu) _, ?_⟩
    refine continues_feed (m := Lexer.emitPlain ⟨c.line, toks, .none⟩ paired [b, equalsByte]) hs rfl hu
      (Lexer.feed?_of_extend? ?_) rfl ?_ rfl trivial
    · simp [hpending, Lexer.extend?, Lexer.emitPlain, Lexer.emit]
    · show _ = { kind := paired, lexeme := (c.past [equalsByte]).lexeme, line := (c.past [equalsByte]).line } :: toks
      rw [hlexeme, hb]
      rfl
  | none =>
    refine ⟨_, finish?_eq hs.cursor _, ?_⟩
    refine continues_settle hs rfl (by simp [Phase.rank]) (Scanner.scan_settle (by simp [hpending]) ?_) ?_
    · intro b' hb'
      simp [hpending, Lexer.extend?, Cursor.ne_of_accept? hd b' hb']
    · simp [hpending, hb, Lexer.settle, Lexer.emitPlain, Lexer.emit]

theorem goesOn_slash (hs : Sound ⟨c, .slash, toks, none⟩) : GoesOn ⟨c, .slash, toks, none⟩ := by
  have hb : c.lexeme = [slashByte] := hs.fits
  have hstep : step? ⟨c, .slash, toks, none⟩ = otherwise? ⟨c, .slash, toks, none⟩ := rfl
  rw [GoesOn, hstep, otherwise?]
  dsimp only
  cases hd : c.accept? slashByte with
  | some d =>
    obtain ⟨hu, rfl⟩ := Cursor.eq_past_of_accept? (by decide) hd
    refine ⟨_, rfl, ?_⟩
    exact continues_feed (m := ⟨c.line, toks, .comment⟩) hs rfl hu (Lexer.feed?_of_extend? rfl) rfl rfl rfl trivial
  | none =>
    refine ⟨_, finish?_eq hs.cursor _, ?_⟩
    refine continues_settle hs rfl (by decide) (Scanner.scan_settle (by simp [Phase.pending]) ?_) ?_
    · intro b hb
      simp [Phase.pending, Lexer.extend?, Cursor.ne_of_accept? hd b hb]
    · simp [Phase.pending, hb, Lexer.settle, Lexer.emitPlain, Lexer.emit]

theorem goesOn_string (hs : Sound ⟨c, .string, toks, none⟩) : GoesOn ⟨c, .string, toks, none⟩ := by
  obtain ⟨body, hbody⟩ : ∃ body, c.lexeme = quoteByte :: body := hs.fits
  cases hadv : advances ⟨c, .string, toks, none⟩ with
  | true =>
    obtain ⟨hne, hend⟩ : c.peek ≠ quoteByte ∧ c.atEnd = false := by simpa [advances] using hadv
    obtain ⟨rest, hu⟩ := Cursor.exists_unread hend
    have hlexeme : (c.past [c.peek]).lexeme = c.lexeme ++ [c.peek] := Cursor.lexeme_past hs.cursor hu
    refine ⟨_, step?_of_advances hadv hu, ?_⟩
    refine continues_feed
      (m := ⟨if c.peek = lineFeed then c.line + 1 else c.line, toks, .string (c.peek :: body.reverse)⟩) hs rfl hu
      (Lexer.feed?_of_extend? ?_) rfl rfl ?_ ?_
    · simp [Lexer.extend?, Phase.pending, hne, hbody, Lexer.lineAfter]
    · simp [Phase.pending, hlexeme, hbody]
    · exact ⟨body ++ [c.peek], by rw [hlexeme, hbody, List.cons_append]⟩
  | false =>
    cases hend : c.atEnd with
    | true =>
      have hu : c.unread = [] := Cursor.atEnd_iff.1 hend
      refine ⟨fail ⟨c, .string, toks, none⟩ .unterminated, ?_, ?_⟩
      · simp [step?_of_not_advances hadv, otherwise?, hend]
      · refine continues_still hs (by decide) rfl (.inr rfl) trivial (by simp [fail])
          (by decide : Phase.next.rank < _) ?_
        rw [scanned_of_scans rfl, hu]
        show (Except.error _, ({ unread := c.unread, lexer := _, failure := _ } : Scanner)) = _
        rw [hu]
        rfl
    | false =>
      have hpeek : c.peek = quoteByte := by simpa [advances, hend] using hadv
      obtain ⟨rest, hu⟩ := Cursor.exists_unread hend
      rw [hpeek] at hu
      refine ⟨turn ⟨c, .string, toks, none⟩ .closing, ?_, ?_⟩
      · simp [step?_of_not_advances hadv, otherwise?, hend]
      · exact continues_still hs (by decide) rfl (.inl rfl) ⟨⟨body, hbody⟩, rest, hu⟩ (by simp [turn])
          (by decide : Phase.closing.rank < _) rfl

theorem goesOn_closing (hs : Sound ⟨c, .closing, toks, none⟩) : GoesOn ⟨c, .closing, toks, none⟩ := by
  obtain ⟨⟨body, hbody⟩, rest, hu⟩ : (∃ body, c.lexeme = quoteByte :: body) ∧ ∃ rest, c.unread = quoteByte :: rest :=
    hs.fits
  have hc : (c.past [quoteByte]).Sound := Cursor.Sound.past hs.cursor hu
  have hlexeme : (c.past [quoteByte]).lexeme = quoteByte :: (body ++ [quoteByte]) := by
    rw [← List.cons_append, ← hbody]
    exact Cursor.lexeme_past hs.cursor hu
  have hstep : step? ⟨c, .closing, toks, none⟩ = finishString? ⟨c.past [quoteByte], .closing, toks, none⟩ :=
    step?_of_advances rfl hu
  rw [GoesOn, hstep, finishString?, Cursor.slice?_inner hc hlexeme]
  refine ⟨_, finish?_eq hc _, ?_⟩
  refine continues_feed (m := Lexer.emitString ⟨c.line, toks, .none⟩ body) hs rfl hu
    (Lexer.feed?_of_extend? ?_) rfl ?_ rfl trivial
  · simp [Lexer.extend?, Phase.pending, hbody, Lexer.emitString, Lexer.emit]
  · show _ =
      { kind := .string, lexeme := (c.past [quoteByte]).lexeme, line := (c.past [quoteByte]).line,
        text := body } :: toks
    rw [hlexeme]
    rfl

theorem goesOn_stray (hs : Sound ⟨c, .stray, toks, none⟩) : GoesOn ⟨c, .stray, toks, none⟩ := by
  obtain ⟨hcurrent, b, hb⟩ : c.current = c.start + 1 ∧ ∃ b, c.source.drop c.start = b :: c.unread := hs.fits
  have hcharacter := Cursor.character_eq_past hb hcurrent
  have hu : c.unread = c.unread.take (Utf8.first b c.unread).2 ++ c.unread.drop (Utf8.first b c.unread).2 :=
    (List.take_append_drop _ _).symm
  have hc : c.character.2.Sound := by
    rw [hcharacter]
    exact Cursor.Sound.past hs.cursor hu
  have hle : c.current ≤ c.character.2.current := by
    rw [hcharacter]
    exact Nat.le_add_right _ _
  have hsource : c.character.2.source = c.source := by
    rw [hcharacter]
    rfl
  refine ⟨report ⟨c, .stray, toks, none⟩, rfl, ⟨hc, .inr (.inl rfl), trivial⟩, hsource, rfl, hle, ?_, ?_, ?_⟩
  · rintro ⟨⟩
  · simp [report, fail]
  · have hlen : c.character.2.unread.length ≤ c.unread.length := by
      rw [Cursor.unread, Cursor.unread, hsource, List.length_drop, List.length_drop]
      omega
    show 5 * c.character.2.unread.length + 2 < 5 * c.unread.length + 3
    omega

/-- A byte that starts nothing: what is left to do is to report the character that stands there. -/
theorem continues_stray (hs : Sound ⟨c, .lead, toks, none⟩) (hu : c.unread = b :: rest)
    (hlead : Lead.ofByte b = .stray) :
    Continues ⟨c, .lead, toks, none⟩ ⟨c.past [b], .stray, toks, none⟩ := by
  have hstart : c.start = c.current := hs.fits.1
  have hrest : (c.past [b]).unread = rest := Cursor.unread_past hu
  have hsource : (c.past [b]).source.drop (c.past [b]).start = b :: (c.past [b]).unread := by
    rw [hrest, ← hu]
    exact congrArg (c.source.drop ·) hstart
  have hcurrent : (c.past [b]).current = (c.past [b]).start + 1 := congrArg (· + 1) hstart.symm
  have hsound : Sound ⟨c.past [b], .stray, toks, none⟩ :=
    ⟨Cursor.Sound.past hs.cursor hu, .inl rfl, hcurrent, b, hsource⟩
  refine ⟨hsound, rfl, ?_, Nat.le_succ _, fun _ => Nat.lt_succ_self _, by simp, ?_⟩
  · -- the scanner shows the same character, on the same line, and leaves the same bytes behind
    have hline : (c.past [b]).character.2.line = c.line := by
      have hb : b ≠ lineFeed := by
        rintro rfl
        cases hlead
      rw [Cursor.line_character]
      simp [Cursor.past, hb]
    have hunread : (c.past [b]).character.2.unread = rest.drop (Utf8.first b rest).2 := by
      rw [Cursor.character_eq_past hsource hcurrent, hrest]
      exact Cursor.unread_past (hrest.trans (List.take_append_drop _ _).symm)
    have hcharacter : (c.past [b]).character.1 = (Utf8.first b rest).1.toChar := by
      rw [Cursor.character_eq_past hsource hcurrent, hrest]
    rw [scanned_of_scans (p := .lead) rfl, hu]
    refine Eq.trans ?_ (Scanner.scan_at_stray hlead rest).symm
    rw [← hline, ← hunread, ← hcharacter]
    rfl
  · simp only [work, hrest, hu, List.length_cons]
    show 5 * rest.length + 3 < 5 * (rest.length + 1) + 1
    omega

theorem goesOn_lead (hs : Sound ⟨c, .lead, toks, none⟩) : GoesOn ⟨c, .lead, toks, none⟩ := by
  obtain ⟨hstart, hne⟩ : c.start = c.current ∧ c.unread ≠ [] := hs.fits
  obtain ⟨b, rest, hu⟩ := List.exists_cons_of_ne_nil hne
  have hc : (c.past [b]).Sound := Cursor.Sound.past hs.cursor hu
  have hlexeme : (c.past [b]).lexeme = [b] := by
    rw [Cursor.lexeme_past (w := [b]) hs.cursor hu, Cursor.lexeme_of_start hstart, List.nil_append]
  have hstep : step? ⟨c, .lead, toks, none⟩ = afterByte? ⟨c.past [b], .lead, toks, none⟩ b := step?_of_advances rfl hu
  rw [GoesOn, hstep, afterByte?]
  dsimp only
  cases hlead : Lead.ofByte b with
  | blank => exact ⟨_, rfl, continues_begin hs hu (by rw [Lexer.begin?, hlead]) rfl rfl rfl trivial⟩
  | single kind =>
    refine ⟨_, finish?_eq hc _, ?_⟩
    refine continues_begin hs hu (by rw [Lexer.begin?, hlead]) rfl ?_ rfl trivial
    have hcount : [b].count lineFeed = 0 := by
      refine List.count_eq_zero.2 fun hb => ?_
      rw [← List.mem_singleton.1 hb] at hlead
      cases hlead
    show _ = { kind, lexeme := (c.past [b]).lexeme, line := (c.line + [b].count lineFeed : Nat) } :: toks
    rw [hlexeme, hcount]
    rfl
  | operator alone paired =>
    refine ⟨_, rfl, continues_begin hs hu (by rw [Lexer.begin?, hlead]) rfl rfl ?_ ⟨b, hlexeme⟩⟩
    simp [Phase.pending, hlexeme]
  | slash =>
    obtain rfl : b = slashByte := by
      have hb := Lexical.leadOf_ofByte b
      rwa [hlead] at hb
    exact ⟨_, rfl, continues_begin hs hu rfl rfl rfl rfl hlexeme⟩
  | quote =>
    obtain rfl : b = quoteByte := by
      have hb := Lexical.leadOf_ofByte b
      rwa [hlead] at hb
    refine ⟨_, rfl, continues_begin hs hu rfl rfl rfl ?_ ⟨[], hlexeme⟩⟩
    simp [Phase.pending, hlexeme]
  | digit =>
    refine ⟨_, rfl, continues_begin hs hu (by rw [Lexer.begin?, hlead]) rfl rfl ?_ trivial⟩
    simp [Phase.pending, hlexeme]
  | letter =>
    refine ⟨_, rfl, continues_begin hs hu (by rw [Lexer.begin?, hlead]) rfl rfl ?_ trivial⟩
    simp [Phase.pending, hlexeme]
  | stray => exact ⟨_, rfl, continues_stray hs hu hlead⟩

/-- **There is a step in every phase**, until the call is over. -/
theorem goesOn (hs : s.Sound) (hp : s.phase ≠ .returned) : s.GoesOn := by
  obtain ⟨c, p, toks, f⟩ := s
  by_cases hnext : p = .next
  · subst hnext
    exact goesOn_next hs
  · obtain rfl : f = none := hs.clean.resolve_right (not_or.2 ⟨hnext, hp⟩)
    cases p with
    | next => exact absurd rfl hnext
    | lead => exact goesOn_lead hs
    | operator => exact goesOn_operator hs
    | slash => exact goesOn_slash hs
    | comment => exact goesOn_comment hs
    | string => exact goesOn_string hs
    | closing => exact goesOn_closing hs
    | digits => exact goesOn_digits hs
    | point => exact goesOn_point hs
    | fraction => exact goesOn_fraction hs
    | word => exact goesOn_word hs
    | stray => exact goesOn_stray hs
    | returned => exact absurd rfl hp

theorem step?_returned (hp : s.phase = .returned) : s.step? = none := by
  simp [step?, advances, otherwise?, hp]

theorem continues_of_step? (hs : s.Sound) (h : s.step? = some t) : s.Continues t := by
  have hp : s.phase ≠ .returned := by
    intro hp
    rw [step?_returned hp] at h
    cases h
  obtain ⟨t', ht', hcont⟩ := goesOn hs hp
  obtain rfl : t' = t := Option.some.inj (ht'.symm.trans h)
  exact hcont

/-! ## Runs -/

theorem sound_of_reachable {source : Bytes} (h : Reachable source s) : s.Sound ∧ s.source = source := by
  induction h with
  | start => exact ⟨⟨Cursor.sound_start source, .inl rfl, trivial⟩, rfl⟩
  | step _ hstep ih =>
    have hcont := continues_of_step? ih.1 hstep
    exact ⟨hcont.sound, hcont.source_eq.trans ih.2⟩
  | again _ _ ih => exact ⟨⟨ih.1.cursor, .inr (.inl rfl), trivial⟩, ih.2⟩

/-- What the steps of a run do, all of them together. -/
theorem of_leads (hs : s.Sound) (h : s.Leads t) : t.Sound ∧ t.scanned = s.scanned ∧ s.current ≤ t.current := by
  induction h with
  | refl => exact ⟨hs, rfl, Nat.le_refl _⟩
  | tail _ hstep ih =>
    have hcont := continues_of_step? ih.1 hstep
    exact ⟨hcont.sound, hcont.scanned_eq.trans ih.2.1, ih.2.2.trans hcont.current_le⟩

/-- A run goes on, with less and less to do, until it is where it is wanted. -/
theorem exists_run {r : Sweep → Sweep → Prop} {P Q : Sweep → Prop}
    (progress : ∀ s, s.Sound → Q s → P s ∨ ∃ t, r s t ∧ s.Continues t ∧ Q t) (hs : s.Sound) (hq : Q s) :
    ∃ t, Relation.ReflTransGen r s t ∧ P t := by
  induction hn : s.work using Nat.strong_induction_on generalizing s with
  | _ n ih =>
    rcases progress s hs hq with hp | ⟨t, hr, hcont, hqt⟩
    · exact ⟨s, .refl, hp⟩
    · obtain ⟨u, hu, hp⟩ := ih t.work (hn ▸ hcont.work_lt) hcont.sound hqt rfl
      exact ⟨u, .head hr hu, hp⟩

/-- **Every call comes to an end.** -/
theorem exists_returned (hs : s.Sound) : ∃ t, s.Leads t ∧ t.phase = .returned := by
  refine exists_run (Q := fun _ => True) (fun s hs _ => ?_) hs trivial
  by_cases hp : s.phase = .returned
  · exact .inl hp
  · obtain ⟨t, hstep, hcont⟩ := goesOn hs hp
    exact .inr ⟨t, hstep, hcont, trivial⟩

/-- **Every lexeme comes to an end.** -/
theorem exists_completes (hs : s.Sound) (hp : s.phase ≠ .returned) : ∃ t, s.Completes t := by
  refine exists_run (Q := fun s => s.phase ≠ .returned) (fun s hs hp => ?_) hs hp
  by_cases hnext : s.phase = .next
  · exact .inl hnext
  · obtain ⟨t, hstep, hcont⟩ := goesOn hs hp
    exact .inr ⟨t, ⟨hnext, hstep⟩, hcont, hcont.not_returned hnext⟩

/-- **The cursor has moved on when a lexeme is complete.** -/
theorem current_lt_of_completes (hs : s.Sound) (hp : s.phase = .lead) (h : s.Completes t) : s.current < t.current := by
  obtain ⟨hrun, hnext⟩ := h
  rcases hrun.cases_head with rfl | ⟨u, ⟨-, hstep⟩, hrun⟩
  · rw [hp] at hnext
    cases hnext
  · have hcont := continues_of_step? hs hstep
    have hleads : u.Leads t := Relation.ReflTransGen.mono (fun _ _ h => h.2) _ _ hrun
    exact (hcont.current_lt hp).trans_le (of_leads hcont.sound hleads).2.2

theorem current_lt_of_advances (hs : s.Sound) (h : s.advances) : s.current < s.source.length := by
  have hp : s.phase ≠ .returned := by
    intro hp
    simp [advances, hp] at h
  obtain ⟨t, hstep, -⟩ := goesOn hs hp
  rw [step?, if_pos h] at hstep
  cases hadv : s.advance? with
  | none =>
    rw [hadv] at hstep
    cases hstep
  | some p =>
    have hu := (Cursor.eq_past_of_advance? hadv).1
    have hlen := congrArg List.length hu
    rw [Cursor.unread, List.length_drop, List.length_cons] at hlen
    omega

/-- The scanner returns what the sweep does. -/
theorem scan_of_leads (hs : s.Sound) (hp : s.phase = .next) (h : s.Leads t) (ht : t.phase = .returned) :
    s.scanner.scan = (t.outcome, t.scanner) := by
  have hscanned := (of_leads hs h).2.1
  simpa only [scanned, hp, ht] using hscanned.symm

theorem outcome_of_leads {source : Bytes} (h : Leads { source } t) (ht : t.phase = .returned) :
    t.outcome = Token.scan source := by
  have hsound : Sound { source } := (sound_of_reachable .start).1
  have hscan : Scanner.scan { unread := source } = (t.outcome, t.scanner) := scan_of_leads hsound rfl h ht
  cases hsource : Token.scan source with
  | ok ts =>
    rw [Scanner.scan_of_ok hsource] at hscan
    exact (congrArg Prod.fst hscan).symm
  | error e =>
    rw [Scanner.scan_of_error hsource] at hscan
    exact (congrArg Prod.fst hscan).symm

/-- **Scanning in place stays in bounds, counts every line feed once and moves on.** A first call comes to an end and
returns what `Token.scan` does. In every state of every call the offsets are in order and within the source, and the
line is one more than the line feeds before the cursor; a byte is read only where there is one, and no other offset is
out of range either; from the first byte of a lexeme the search for the next one is reached, with the cursor further
on; and the call comes to an end. Wherever a further lexeme is looked for, the rest of the call is what the scanner
makes of the bytes that are left. -/
theorem reachable_inBounds (source : Bytes) :
    (∃ t, Leads { source } t ∧ t.phase = .returned ∧ t.outcome = Token.scan source) ∧
    ∀ s, Reachable source s →
      s.source = source ∧ s.start ≤ s.current ∧ s.current ≤ source.length ∧
      s.line = 1 + (source.take s.current).count lineFeed ∧
      (s.advances → s.current < source.length) ∧
      (s.phase ≠ .returned → ∃ t, s.step? = some t) ∧
      (s.phase = .lead → (∃ t, s.Completes t) ∧ ∀ t, s.Completes t → s.current < t.current) ∧
      ∃ t, s.Leads t ∧ t.phase = .returned ∧ (s.phase = .next → s.scanner.scan = (t.outcome, t.scanner)) := by
  constructor
  · obtain ⟨t, hleads, ht⟩ := exists_returned (sound_of_reachable (.start : Reachable source _)).1
    exact ⟨t, hleads, ht, outcome_of_leads hleads ht⟩
  · intro s h
    obtain ⟨hs, rfl⟩ := sound_of_reachable h
    obtain ⟨t, hleads, ht⟩ := exists_returned hs
    refine ⟨rfl, hs.cursor.start_le, hs.cursor.current_le, hs.cursor.line_eq, current_lt_of_advances hs, ?_, ?_,
      t, hleads, ht, fun hp => scan_of_leads hs hp hleads ht⟩
    · intro hp
      obtain ⟨t, hstep, -⟩ := goesOn hs hp
      exact ⟨t, hstep⟩
    · intro hp
      have hret : s.phase ≠ .returned := by simp [hp]
      exact ⟨exists_completes hs hret, fun t => current_lt_of_completes hs hp⟩

/-- After a string with a line feed in it, the three bytes of a euro sign are passed over together, and the line feed
behind them is not. -/
theorem reachable_inBounds_euro :
    let source : Bytes := [0x22, 0x0A, 0x22, 0xE2, 0x82, 0xAC, 0x0A]
    let text : Token := { kind := .string, lexeme := [0x22, 0x0A, 0x22], line := 2, text := [0x0A] }
    let s : Sweep := ⟨⟨source, 3, 3, 2⟩, .lead, [text], none⟩
    let u : Sweep := ⟨⟨source, 3, 6, 2⟩, .next, [text], some ⟨2, .unexpected '€'⟩⟩
    (Reachable source s ∧ s.advances ∧ s.current < source.length ∧ s.Completes u ∧ s.current < u.current) ∧
    (Reachable source u ∧ u.current ≤ source.length ∧ u.line = 1 + (source.take u.current).count lineFeed) ∧
    ∃ t, u.Leads t ∧ t.phase = .returned ∧ u.scanner.scan = (t.outcome, t.scanner) := by
  intro source text s u
  have hs : Reachable source s := (((((Reachable.start.step rfl).step rfl).step rfl).step rfl).step rfl).step rfl
  have hu : Reachable source u := (hs.step rfl).step rfl
  have hcompletes : s.Completes u := ⟨.head ⟨by decide, rfl⟩ (.head ⟨by decide, rfl⟩ .refl), rfl⟩
  obtain ⟨-, -, -, -, hadvances, -, hlead, -⟩ := (reachable_inBounds source).2 s hs
  obtain ⟨-, -, hle, hline, -, -, -, t, hleads, ht, hscan⟩ := (reachable_inBounds source).2 u hu
  exact ⟨⟨hs, rfl, hadvances rfl, hcompletes, (hlead rfl).2 u hcompletes⟩, ⟨hu, hle, hline⟩, t, hleads, ht, hscan rfl⟩

end Sweep

end ExprLang
