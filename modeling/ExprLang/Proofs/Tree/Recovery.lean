import ExprLang.Proofs.Tree.Cursor
import Mathlib.Order.Bounds.Basic

/-!
# Recovery after an error

After an error a parser skips to the next place where a statement may start, and goes on from there. Such a place is found
by looking at the token there and at the one before it.

* `Parser.Boundary` — the places where a statement may start;
* `Parser.exists_skip` — skipping stops at the first of them, and `Parser.isLeast_synchronize` — so does a parser, which
  passes one token first;
* `Parser.isLeast_endIndex` — where the tokens that are left end;
* `Parser.recovery` — rounds of reading an expression and skipping, and `Parser.cursor_lt_round` — each one gets further;
* `Parser.synchronize_recovers` — so the end is reached, in no more rounds than there are tokens left.
-/

namespace ExprLang

namespace Kind

/-- The words that start a statement. -/
def statementWords : List Kind := [.kwClass, .kwFun, .kwVar, .kwFor, .kwIf, .kwWhile, .kwPrint, .kwReturn]

theorem startsStatement_iff {k : Kind} : k.startsStatement = true ↔ k ∈ statementWords := by
  cases k <;> simp [startsStatement, statementWords]

end Kind

namespace Parser

variable {p q : Parser}

/-! ## Skipping -/

/-- A statement may start at the place `j`: the tokens end there, a semicolon stands before it, or a word that starts a
statement stands at it. -/
def Boundary (p : Parser) (j : Nat) : Prop :=
  (p.tokenAt j).kind = .eof ∨ (p.tokenAt (j - 1)).kind = .semicolon ∨ (p.tokenAt j).kind ∈ Kind.statementWords

/-- Where a statement may start, nothing is skipped. -/
theorem skip_of_boundary (h : p.Boundary p.cursor) : skip (p.tokenAt (p.cursor - 1)) p.rest = p.rest := by
  refine skip_of_peek ?_
  rw [Kind.startsStatement_iff]
  exact h

theorem skip_of_not_boundary (h : ¬ p.Boundary p.cursor) :
    p.peek.kind ≠ .eof ∧ skip (p.tokenAt (p.cursor - 1)) p.rest = skip p.peek p.next.rest := by
  have heof : p.peek.kind ≠ .eof := fun he => h (.inl he)
  refine ⟨heof, ?_⟩
  rw [rest_of_peek heof, skip, if_neg]
  intro hstop
  rw [Kind.startsStatement_iff] at hstop
  exact h hstop

/-- **Skipping stops at the first place where a statement may start**, which may be that of the cursor. -/
theorem exists_skip (p : Parser) :
    ∃ q, p.Leads q ∧ q.rest = skip (p.tokenAt (p.cursor - 1)) p.rest ∧
      IsLeast {k | p.cursor ≤ k ∧ p.Boundary k} q.cursor := by
  -- one token after the other, by induction on how many are left
  generalize hn : p.rest.length = n
  induction n generalizing p with
  | zero =>
    have hend : p.peek.kind = .eof := congrArg Token.kind (peek_eq_last (List.length_eq_zero_iff.1 hn))
    have hb : p.Boundary p.cursor := .inl hend
    exact ⟨p, Leads.refl p, (skip_of_boundary hb).symm, ⟨Nat.le_refl _, hb⟩, fun k hk => hk.1⟩
  | succ n ih =>
    by_cases hb : p.Boundary p.cursor
    · exact ⟨p, Leads.refl p, (skip_of_boundary hb).symm, ⟨Nat.le_refl _, hb⟩, fun k hk => hk.1⟩
    · obtain ⟨heof, hskip⟩ := skip_of_not_boundary hb
      have hlen := congrArg List.length (rest_of_peek heof)
      rw [List.length_cons, hn] at hlen
      obtain ⟨q, hleads, hrest, ⟨hstart, hq⟩, hleast⟩ := ih p.next (by omega)
      refine ⟨q, (Leads.next heof).trans hleads, hrest.trans hskip.symm, ⟨Nat.le_of_succ_le hstart, hq⟩, ?_⟩
      rintro k ⟨hk, hbk⟩
      -- the place of the cursor itself has been ruled out
      have hne : k ≠ p.cursor := by
        rintro rfl
        exact hb hbk
      have hlt : p.next.cursor ≤ k := Nat.lt_of_le_of_ne hk hne.symm
      exact hleast ⟨hlt, hbk⟩

/-- **A parser passes a token and goes on to the first place where a statement may start.** -/
theorem isLeast_synchronize (h : p.peek.kind ≠ .eof) :
    IsLeast {k | p.cursor < k ∧ p.Boundary k} p.synchronize.cursor := by
  obtain ⟨q, hleads, hrest, hleast⟩ := exists_skip p.next
  have hq : p.synchronize = q := by
    have hmove : p.moveTo (skip p.peek p.next.rest) = q := by
      have hrest' : q.rest = skip p.peek p.next.rest := hrest
      rw [← hrest']
      exact ((Leads.next h).trans hleads).moveTo
    rw [synchronize, rest_of_peek h]
    simp only [if_neg h, hmove]
  rw [hq]
  exact hleast

theorem synchronize_eq (p : Parser) : p.synchronize = { p with cursor := p.synchronize.cursor } := by
  obtain ⟨read, -, hq, -⟩ := passes_synchronize p
  rw [hq]

/-! ## Rounds -/

/-- The calls of `n` rounds: in each of them an expression is read, and then tokens are skipped. -/
def recovery (n : Nat) : List Call := (List.replicate n [.parse, .synchronize]).flatten

theorem after_recovery_succ (p : Parser) (n : Nat) :
    p.after (recovery (n + 1)) = p.parse.2.synchronize.after (recovery n) := by
  rw [recovery, List.replicate_succ, List.flatten_cons]
  rfl

/-- **Each round gets further**, whether an expression has been read or not, unless the end has been reached before. -/
theorem cursor_lt_round (h : p.peek.kind ≠ .eof) : p.cursor < p.parse.2.synchronize.cursor := by
  obtain ⟨read, hrest, hparse, -⟩ := passes_parse p
  by_cases hend : p.parse.2.peek.kind = .eof
  · rw [synchronize_at_end hend]
    -- the end has been reached by reading, so tokens have been read
    have hne : read ≠ [] := by
      rintro rfl
      rw [hparse] at hend
      exact h hend
    have hpos := List.length_pos_iff.2 hne
    rw [hparse]
    show p.cursor < p.cursor + read.length
    omega
  · have hlt := (isLeast_synchronize hend).1.1
    have hle : p.parse.2.cursor = p.cursor + read.length := congrArg cursor hparse
    omega

/-- The tokens that are left end at the first one that marks the end, or after the list. -/
theorem isLeast_endIndex (p : Parser) :
    IsLeast {k | p.cursor ≤ k ∧ (p.tokenAt k).kind = .eof} (p.cursor + endIndex p.rest) := by
  have hat : ∀ m, p.tokenAt (p.cursor + m) = p.rest[m]?.getD p.last := by
    intro m
    rw [tokenAt, rest, List.getElem?_drop]
  refine ⟨⟨Nat.le_add_right _ _, ?_⟩, ?_⟩
  · rw [hat]
    by_cases hlt : endIndex p.rest < p.rest.length
    · have hget : p.rest[endIndex p.rest].kind = .eof := of_decide_eq_true (List.findIdx_getElem (w := hlt))
      rw [List.getElem?_eq_getElem hlt, Option.getD_some, hget]
    · rw [List.getElem?_eq_none (Nat.le_of_not_lt hlt), Option.getD_none]
      rfl
  · rintro k ⟨hk, hend⟩
    obtain ⟨m, rfl⟩ := Nat.exists_eq_add_of_le hk
    refine Nat.add_le_add_left (Nat.le_of_not_lt fun hlt => ?_) _
    have hlen : m < p.rest.length := Nat.lt_of_lt_of_le hlt List.findIdx_le_length
    rw [hat, List.getElem?_eq_getElem hlen, Option.getD_some] at hend
    exact of_decide_eq_false (List.not_of_lt_findIdx hlt) hend

theorem endIndex_at_end (h : p.peek.kind = .eof) : endIndex p.rest = 0 := by
  have hle : p.cursor + endIndex p.rest ≤ p.cursor := (isLeast_endIndex p).2 ⟨Nat.le_refl _, h⟩
  omega

/-- As many rounds as there are tokens before the end reach it, and further ones stay there. -/
theorem after_recovery {n : Nat} (h : endIndex p.rest ≤ n) :
    p.after (recovery n) = { p with cursor := p.cursor + endIndex p.rest } := by
  induction n generalizing p with
  | zero =>
    rw [Nat.le_zero.1 h]
    rfl
  | succ n ih =>
    by_cases hend : p.peek.kind = .eof
    · rw [after_at_end hend, endIndex_at_end hend]
      rfl
    · have hlt := cursor_lt_round hend
      have hpasses := (passes_parse p).trans (passes_synchronize p.parse.2)
      have hadd := hpasses.add_endIndex
      rw [after_recovery_succ, ih (by omega), hadd]
      obtain ⟨read, -, hround, -⟩ := hpasses
      rw [hround]

/-- **Synchronizing stops at the first place where a statement may start, and drives recovery to the end.** At the end it
does nothing. Anywhere else it leaves the cursor at the first place after it where the tokens end, a semicolon stands
before, or a word that starts a statement. So rounds of reading an expression, with whatever result, and synchronizing
take the cursor to the first token that marks the end, or after the list, in no more rounds than there are tokens before
it; and further rounds leave it there. -/
theorem synchronize_recovers (p : Parser) :
    ((p.tokenAt p.cursor).kind = .eof → p.synchronize = p) ∧
    ((p.tokenAt p.cursor).kind ≠ .eof →
      ∃ j, p.synchronize = { p with cursor := j } ∧ IsLeast {k | p.cursor < k ∧ p.Boundary k} j) ∧
    ∃ stop, IsLeast {k | p.cursor ≤ k ∧ (p.tokenAt k).kind = .eof} stop ∧ stop ≤ p.cursor + p.rest.length ∧
      ∀ n, stop ≤ p.cursor + n → p.after (recovery n) = { p with cursor := stop } := by
  refine ⟨synchronize_at_end, fun h => ?_, p.cursor + endIndex p.rest, isLeast_endIndex p, ?_, fun n hn => ?_⟩
  · exact ⟨p.synchronize.cursor, synchronize_eq p, isLeast_synchronize h⟩
  · exact Nat.add_le_add_left List.findIdx_le_length _
  · exact after_recovery (Nat.le_of_add_le_add_left hn)

/-- In `nil ; print ( ; var`, with a token after the end, synchronizing at `print` passes the parenthesis and stops after
the second semicolon, and rounds from the beginning stop at the end. -/
theorem synchronize_recovers_print :
    let mark (kind : Kind) (lexeme : String) : Token := { kind, lexeme := utf8 lexeme, line := 1 }
    let tokens := [mark .kwNil "nil", mark .semicolon ";", mark .kwPrint "print", mark .leftParen "(",
      mark .semicolon ";", mark .kwVar "var", .endOfSource 1, mark .kwNil "nil"]
    let start : Parser := { tokens }
    let p : Parser := { tokens, cursor := 2 }
    (p.tokenAt p.cursor).kind ≠ .eof ∧ p.synchronize = { p with cursor := 5 } ∧
      IsLeast {k | p.cursor < k ∧ p.Boundary k} 5 ∧
      IsLeast {k | start.cursor ≤ k ∧ (start.tokenAt k).kind = .eof} 6 ∧
      ∀ n, 6 ≤ start.cursor + n → start.after (recovery n) = { start with cursor := 6 } := by
  intro mark tokens start p
  have hprint : (p.tokenAt p.cursor).kind ≠ .eof := by decide
  have hsync : p.synchronize = { p with cursor := 5 } := rfl
  obtain ⟨j, hj, hleast⟩ := (synchronize_recovers p).2.1 hprint
  obtain ⟨stop, hstop, -, hrounds⟩ := (synchronize_recovers start).2.2
  obtain rfl : 5 = j := congrArg cursor (hsync.symm.trans hj)
  obtain rfl : 6 = stop := (isLeast_endIndex start).unique hstop
  exact ⟨hprint, hsync, hleast, hstop, hrounds⟩

end Parser

end ExprLang
