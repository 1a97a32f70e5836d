import Mathlib.Logic.Relation
import ExprLang.Proofs.Token.Cursor
import ExprLang.Proofs.Token.LineBreaks
import ExprLang.Proofs.Token.Rescanning

/-!
# Scanning in place

A source may also be scanned by moving a cursor over it, with a loop of its own for each sort of lexeme. The loops look
at the next byte and the one after it, and stop at a byte that does not belong to the lexeme. Nothing in their text says
that they stop before the end of the source, or that they come to an end at all:

* `Phase`, `Sweep` — what is done next, and the state of a source that is scanned in this way;
* `Sweep.step?` — one step, in which the cursor is moved at most once, with every offset checked;
* `Sweep.Reachable` — the states of all calls on a source;
* `Sweep.scanner` — the scanner that has read as much, and `Sweep.scanned` what it makes of the rest;
* `Scanner.scan_of_feed?`, `Scanner.scan_settle` — reading one byte, or finishing a lexeme, does not change that.
-/

namespace ExprLang

open Bytes (lineFeed isDigit isWordByte)
open Lexer (quoteByte pointByte slashByte equalsByte)

/-! ## The sweep -/

/-- What a sweep does next. -/
inductive Phase where
  /-- Looks for a further lexeme. -/
  | next
  /-- Reads the first byte of a lexeme. -/
  | lead
  /-- Looks for an equals sign after an operator. -/
  | operator (alone paired : Kind)
  /-- Looks for a second slash, which starts a comment. -/
  | slash
  | comment
  | string
  /-- Reads the quote at the end of a string. -/
  | closing
  | digits
  /-- Looks for a point with a digit after it. -/
  | point
  | fraction
  | word
  /-- Reports a character that starts nothing. -/
  | stray
  /-- Nothing; the call is over. -/
  | returned
  deriving DecidableEq

/-- A source that is being scanned in place: the cursor, what is done next, the tokens found so far, last first, and the
first error. -/
structure Sweep extends Cursor where
  phase : Phase := .next
  tokens : List Token := []
  failure : Option LexError := none
  deriving DecidableEq

namespace Sweep

/-- Goes on with something else. -/
def turn (s : Sweep) (phase : Phase) : Sweep := { s with phase }

/-- Goes on with the cursor elsewhere. -/
def moved (s : Sweep) (c : Cursor) : Sweep := { s with toCursor := c }

/-- Adds a token and looks for a further lexeme. -/
def add (s : Sweep) (t : Token) : Sweep := { s with tokens := t :: s.tokens, phase := .next }

/-- Adds the token of the lexeme that has been read. -/
def finish? (s : Sweep) (token : Bytes → Token) : Option Sweep :=
  (s.slice? s.start s.current).map fun lexeme => s.add (token lexeme)

/-- Adds a token without a value. -/
def finishPlain? (s : Sweep) (kind : Kind) : Option Sweep := s.finish? fun lexeme => { kind, lexeme, line := s.line }

/-- Adds the token of a number. -/
def finishNumber? (s : Sweep) : Option Sweep :=
  s.finish? fun lexeme => { kind := .number, lexeme, line := s.line, number := (Decimal.ofLexeme lexeme).toFloat }

/-- Adds the token of a word. -/
def finishWord? (s : Sweep) : Option Sweep :=
  s.finish? fun lexeme => { kind := Kind.ofWord lexeme, lexeme, line := s.line }

/-- Adds the token of a string, whose text is what stands between the quotes. -/
def finishString? (s : Sweep) : Option Sweep :=
  match s.slice? (s.start + 1) (s.current - 1) with
  | some text => s.finish? fun lexeme => { kind := .string, lexeme, line := s.line, text }
  | none => none

/-- Records an error, unless there has been one. -/
def fail (s : Sweep) (cause : LexCause) : Sweep :=
  { s with failure := s.failure <|> some ⟨s.line, cause⟩, phase := .next }

/-- Reports the character with which the lexeme starts. -/
def report (s : Sweep) : Sweep := (s.moved s.character.2).fail (.unexpected s.character.1)

/-- Ends the call: after an error no tokens are kept, otherwise the one that marks the end is added. -/
def close (s : Sweep) : Sweep :=
  { s with tokens := if s.failure.isSome then [] else Token.endOfSource s.line :: s.tokens, phase := .returned }

/-- Whether the next byte is about to be read by `Cursor.advance?`. -/
def advances (s : Sweep) : Bool :=
  match s.phase with
  | .lead | .closing => true
  | .comment => s.peek != lineFeed && !s.atEnd
  | .string => s.peek != quoteByte && !s.atEnd
  | .digits | .fraction => isDigit s.peek
  | .point => s.peek == pointByte && isDigit s.peekNext
  | .word => isWordByte s.peek
  | _ => false

/-- What follows when the byte `b` has been read. -/
def afterByte? (s : Sweep) (b : UInt8) : Option Sweep :=
  match s.phase with
  | .lead =>
    match Lead.ofByte b with
    | .blank => some (s.turn .next)
    | .single kind => s.finishPlain? kind
    | .operator alone paired => some (s.turn (.operator alone paired))
    | .slash => some (s.turn .slash)
    | .quote => some (s.turn .string)
    | .digit => some (s.turn .digits)
    | .letter => some (s.turn .word)
    | .stray => some (s.turn .stray)
  | .closing => s.finishString?
  | .point => some (s.turn .fraction)
  | _ => some s

/-- What follows when no byte is read by `Cursor.advance?`. -/
def otherwise? (s : Sweep) : Option Sweep :=
  match s.phase with
  | .next => if s.atEnd || s.failure.isSome then some s.close else some ((s.moved s.mark).turn .lead)
  | .operator alone paired =>
    match s.accept? equalsByte with
    | some c => (s.moved c).finishPlain? paired
    | none => s.finishPlain? alone
  | .slash =>
    match s.accept? slashByte with
    | some c => some ((s.moved c).turn .comment)
    | none => s.finishPlain? .slash
  | .comment => some (s.turn .next)
  | .string => if s.atEnd then some (s.fail .unterminated) else some (s.turn .closing)
  | .digits => some (s.turn .point)
  | .point | .fraction => s.finishNumber?
  | .word => s.finishWord?
  | .stray => some s.report
  | .lead | .closing | .returned => none

/-- One step of a sweep. There is none after the call is over, and none where an offset is out of range. -/
def step? (s : Sweep) : Option Sweep :=
  if s.advances then
    match s.advance? with
    | some (b, c) => (s.moved c).afterByte? b
    | none => none
  else s.otherwise?

/-- What a call returns. -/
def outcome (s : Sweep) : Except LexError (List Token) :=
  match s.failure with
  | some e => .error e
  | none => .ok s.tokens.reverse

/-- The states of a source that is scanned, by any number of calls one after the other. -/
inductive Reachable (source : Bytes) : Sweep → Prop where
  | start : Reachable source { source }
  | step {s t : Sweep} (before : Reachable source s) (h : s.step? = some t) : Reachable source t
  | again {s : Sweep} (before : Reachable source s) (h : s.phase = .returned) : Reachable source (s.turn .next)

/-- In some steps, `s` becomes `t`. -/
def Leads : Sweep → Sweep → Prop := Relation.ReflTransGen fun s t => s.step? = some t

/-- The lexeme being read in `s` has been dealt with in `t`, where for the first time a further one is looked for. -/
def Completes (s t : Sweep) : Prop :=
  Relation.ReflTransGen (fun s t => s.phase ≠ .next ∧ s.step? = some t) s t ∧ t.phase = .next

end Sweep

/-! ## Scanners byte by byte -/

namespace Lexer

variable {l m : Lexer} {b : UInt8} {rest : Bytes}

theorem leftover_of_feed? (h : l.feed? b = some m) (rest : Bytes) : l.leftover (b :: rest) = m.leftover rest := by
  simp only [leftover, h]

theorem leftover_settle (h : ∀ body, l.pending ≠ .string body) (hb : ∀ b ∈ rest.head?, l.extend? b = none) :
    l.leftover rest = l.settle.leftover rest := by
  cases rest with
  | nil => rfl
  | cons b rest => simp only [leftover, feed?_settle h (hb b rfl)]

theorem feed?_of_extend? (h : l.extend? b = some m) : l.feed? b = some m := by
  rw [feed?, h]
  rfl

end Lexer

namespace Scanner

variable {l m : Lexer} {b : UInt8} {rest : Bytes} {n : Nat} {toks : List Token}

theorem scan_of_feed? (h : l.feed? b = some m) (rest : Bytes) :
    scan { unread := b :: rest, lexer := l } = scan { unread := rest, lexer := m } := by
  simp only [scan, Lexer.read_of_feed? h, Lexer.leftover_of_feed? h]

/-- A lexeme that the next byte does not extend is finished first. -/
theorem scan_settle (h : ∀ body, l.pending ≠ .string body) (hb : ∀ b ∈ rest.head?, l.extend? b = none) :
    scan { unread := rest, lexer := l } = scan { unread := rest, lexer := l.settle } := by
  simp only [scan, Lexer.read_settle h hb, Lexer.leftover_settle h hb]

/-- A point after which no digit follows is not part of the number before it. -/
theorem scan_point {ds : Bytes} (h : ∀ b ∈ rest.head?, isDigit b = false) :
    scan { unread := pointByte :: rest, lexer := ⟨n, toks, .digits ds⟩ } =
      scan { unread := pointByte :: rest, lexer := Lexer.settle ⟨n, toks, .digits ds⟩ } := by
  have hpoint : Lexer.feed? ⟨n, toks, .digits ds⟩ pointByte = some ⟨n, toks, .point ds⟩ := rfl
  have hstop : ∀ b ∈ rest.head?, Lexer.extend? ⟨n, toks, .point ds⟩ b = none := by
    intro b hb
    simp [Lexer.extend?, h b hb]
  have hdot : (Lexer.settle ⟨n, toks, .digits ds⟩).feed? pointByte = some (Lexer.settle ⟨n, toks, .point ds⟩) := rfl
  rw [scan_of_feed? hpoint, scan_settle (by simp) hstop, scan_of_feed? hdot]

/-- A byte that starts nothing is left behind with the rest of its character. -/
theorem scan_at_stray (h : Lead.ofByte b = .stray) (rest : Bytes) :
    let e : LexError := ⟨n, .unexpected (Utf8.first b rest).1.toChar⟩
    scan { unread := b :: rest, lexer := ⟨n, toks, .none⟩ } =
      (.error e, { unread := rest.drop (Utf8.first b rest).2, lexer := { line := n }, failure := some e }) := by
  have hfeed : Lexer.feed? ⟨n, toks, .none⟩ b = none := by
    simp [Lexer.feed?, Lexer.extend?, Lexer.begin?, h]
  simp only [scan, Lexer.read, Lexer.feedAll, Lexer.leftover, hfeed]

end Scanner

/-! ## The scanner that a sweep stands for -/

namespace Phase

/-- The lexeme that is being read in a phase, which ends at the cursor. -/
def pending (c : Cursor) : Phase → Pending
  | .operator alone paired => .operator alone paired (c.lexeme.headD 0)
  | .slash => .slash
  | .comment => .comment
  | .string | .closing => .string c.lexeme.tail.reverse
  | .digits | .point => .digits c.lexeme.reverse
  | .fraction =>
    if c.lexeme.getLast? = some pointByte then .point c.lexeme.dropLast.reverse else .fraction c.lexeme.reverse
  | .word => .word c.lexeme.reverse
  | .next | .lead | .stray | .returned => .none

/-- Whether what follows is for the lexer to say: no error is about to be reported and the call is not over. -/
def scans : Phase → Bool
  | .stray | .returned => false
  | _ => true

end Phase

namespace Sweep

/-- The lexer that has read as much as the sweep. -/
def lexer (s : Sweep) : Lexer := ⟨s.line, s.tokens, s.phase.pending s.toCursor⟩

/-- The scanner that has read as much as the sweep. After an error it has no tokens any more. -/
def scanner (s : Sweep) : Scanner :=
  match s.failure with
  | some e => { unread := s.unread, lexer := { line := s.line }, failure := some e }
  | none => { unread := s.unread, lexer := s.lexer }

/-- What the call comes to, and the scanner after it. -/
def scanned (s : Sweep) : Except LexError (List Token) × Scanner :=
  match s.phase with
  | .stray => (s.report.outcome, s.report.scanner)
  | .returned => (s.outcome, s.scanner)
  | _ => s.scanner.scan

variable {s : Sweep} {c : Cursor} {p : Phase} {toks : List Token} {b : UInt8} {rest : Bytes}

theorem scanned_of_scans (hp : p.scans) :
    scanned ⟨c, p, toks, none⟩ = Scanner.scan { unread := c.unread, lexer := ⟨c.line, toks, p.pending c⟩ } := by
  cases p
  case stray | returned => cases hp
  all_goals rfl

/-! ## The step taken -/

theorem step?_of_advances (h : s.advances) (hu : s.unread = b :: rest) :
    s.step? = (s.moved (s.past [b])).afterByte? b := by
  rw [step?, if_pos h, Cursor.advance?_of_unread hu]

theorem step?_of_not_advances (h : s.advances = false) : s.step? = s.otherwise? := by
  rw [step?, h]
  rfl

theorem finish?_eq (hs : s.toCursor.Sound) (token : Bytes → Token) :
    s.finish? token = some (s.add (token s.lexeme)) := by
  rw [finish?, Cursor.slice?_lexeme hs]
  rfl

end Sweep

end ExprLang
