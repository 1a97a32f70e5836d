import ExprLang.Proofs.Token.Layout

/-!
# Scanning a source again

A scanner keeps what it has found between its calls. After the first call it is at the end of its source, or it has stopped
at an error, somewhere in the middle.

* `Scanner.after` — a scanner after some number of calls;
* `Lexer.read_of_scan` — the state in which a lexer has read a whole source;
* `Scanner.scan_at_end`, `Scanner.scan_of_failure` — what one more call does in either case;
* `Scanner.after_of_ok`, `Scanner.after_of_error` — what all further calls leave;
* `Scanner.scan_again` — the results of all calls.
-/

namespace ExprLang

open Lexical

/-- A lexer that has read a whole source is on its last line, in the middle of no lexeme. -/
theorem Lexer.read_of_scan {src : Bytes} {ts : List Token} (h : Token.scan src = .ok ts) :
    ({} : Lexer).read src = .ok ⟨endLine src, ts.reverse, .none⟩ := by
  obtain ⟨us, hus, rfl⟩ := Token.consumed_of_scan h
  have hread := read_consumed hus []
  rw [List.append_nil, List.append_nil, List.nil_append, read_nil] at hread
  rw [List.reverse_concat]
  exact hread

theorem Lexer.read_of_scan_error {src : Bytes} {e : LexError} (h : Token.scan src = .error e) :
    ({} : Lexer).read src = .error e := by
  unfold Token.scan at h
  cases hread : ({} : Lexer).read src with
  | error e' =>
    rw [hread] at h
    cases h
    rfl
  | ok l =>
    rw [hread] at h
    cases h

namespace Scanner

variable {s : Scanner} {src : Bytes} {ts : List Token} {e : LexError}

/-- The scanner after `n` calls. -/
def after (s : Scanner) : Nat → Scanner
  | 0 => s
  | n + 1 => (s.after n).scan.2

/-! ## One more call -/

/-- At the end of the source, a call adds a token that marks the end. It reads nothing and stays on its line. -/
theorem scan_at_end (line : Nat) (found : List Token) :
    scan { unread := [], lexer := ⟨line, found, .none⟩ } =
      (.ok (Token.endOfSource line :: found).reverse,
        { unread := [], lexer := ⟨line, Token.endOfSource line :: found, .none⟩ }) := rfl

/-- After an error a call does nothing, whatever has been left unread. -/
theorem scan_of_failure (h : s.failure = some e) : s.scan = (.error e, s) := by
  unfold scan
  rw [h]

theorem scan_of_ok (h : Token.scan src = .ok ts) :
    scan { unread := src } = (.ok ts, { unread := [], lexer := ⟨endLine src, ts.reverse, .none⟩ }) := by
  simp only [scan, Lexer.read_of_scan h, List.reverse_reverse]

theorem scan_of_error (h : Token.scan src = .error e) :
    scan { unread := src } =
      (.error e, { unread := Lexer.leftover {} src, lexer := { line := e.line }, failure := some e }) := by
  simp only [scan, Lexer.read_of_scan_error h]

/-! ## All calls -/

/-- **Without an error, each call after the first adds a token that marks the end.** -/
theorem after_of_ok (h : Token.scan src = .ok ts) (n : Nat) :
    after { unread := src } (n + 1) =
      { unread := [],
        lexer := ⟨endLine src, List.replicate n (Token.endOfSource (endLine src)) ++ ts.reverse, .none⟩ } := by
  induction n with
  | zero => rw [after, after, scan_of_ok h, List.replicate_zero, List.nil_append]
  | succ n ih => rw [after, ih, scan_at_end, List.replicate_succ, List.cons_append]

/-- **An error stays**, and the scanner is where the first call has left it. -/
theorem after_of_error (h : Token.scan src = .error e) (n : Nat) :
    after { unread := src } (n + 1) =
      { unread := Lexer.leftover {} src, lexer := { line := e.line }, failure := some e } := by
  induction n with
  | zero => rw [after, after, scan_of_error h]
  | succ n ih => rw [after, ih, scan_of_failure rfl]

theorem result_of_ok (h : Token.scan src = .ok ts) (n : Nat) :
    (after { unread := src } n).scan.1 = .ok (ts ++ List.replicate n (Token.endOfSource (endLine src))) := by
  cases n with
  | zero => rw [after, scan_of_ok h, List.replicate_zero, List.append_nil]
  | succ n =>
    rw [after_of_ok h, scan_at_end, ← List.cons_append, ← List.replicate_succ, List.reverse_append, List.reverse_reverse,
      List.reverse_replicate]

theorem result_of_error (h : Token.scan src = .error e) (n : Nat) : (after { unread := src } n).scan.1 = .error e := by
  cases n with
  | zero => rw [after, scan_of_error h]
  | succ n => rw [after_of_error h, scan_of_failure rfl]

/-- **Scanning again gives the same again.** The call after `n` others gives the error of the source, or its tokens and
`n` further ones that mark the end, on the last line. The calls after the first read nothing: the error has been kept, and
no tokens with it, or nothing is left to be read and the line stays the last one. -/
theorem scan_again (src : Bytes) (n : Nat) :
    let s : Scanner := { unread := src }
    (s.after n).scan.1 = (Token.scan src).map (· ++ List.replicate n (Token.endOfSource (endLine src))) ∧
      match Token.scan src with
      | .error e =>
        s.after (n + 1) = s.after 1 ∧ (s.after (n + 1)).failure = some e ∧ (s.after (n + 1)).lexer.tokens = []
      | .ok ts =>
        (s.after (n + 1)).failure = none ∧ (s.after (n + 1)).unread = [] ∧
          (s.after (n + 1)).lexer.line = endLine src ∧
          (s.after (n + 1)).lexer.tokens.reverse = ts ++ List.replicate n (Token.endOfSource (endLine src)) := by
  intro s
  cases h : Token.scan src with
  | error e =>
    have hafter : ∀ n, s.after (n + 1) = _ := after_of_error h
    exact ⟨result_of_error h n, (hafter n).trans (hafter 0).symm, by rw [hafter], by rw [hafter]⟩
  | ok ts =>
    refine ⟨result_of_ok h n, ?_⟩
    rw [after_of_ok h]
    refine ⟨rfl, rfl, rfl, ?_⟩
    rw [List.reverse_append, List.reverse_reverse, List.reverse_replicate]

end Scanner

end ExprLang
