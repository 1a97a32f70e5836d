import ExprLang.Diagnostic
import ExprLang.Token.Basic

/-!
# From bytes to tokens

A `Lexer` reads a source byte by byte. It keeps the tokens finished so far, the line it is on, and the lexeme that it
is in the middle of; a lexeme ends at the first byte that cannot continue it, so each one is as long as possible.

* `Lexer.extend?`, `Lexer.settle`, `Lexer.begin?` — a byte continues the lexeme being read, or ends it and starts the
  next one;
* `Lexer.feed?` — the step on one byte, `none` at a byte that starts nothing;
* `Lexer.read` — reads bytes up to the end of the source, adding the token that marks the end;
* `Token.scan` — the tokens of a source;
* `Scanner` — a source that can be asked for its tokens again and again.
-/

namespace ExprLang

/-! ## Errors -/

/-- Why a source cannot be split into tokens. -/
inductive LexCause where
  /-- A character that starts no token. -/
  | unexpected (c : Char)
  /-- A string without its closing quote. -/
  | unterminated
  deriving DecidableEq, Repr

/-- The first lexical error of a source, with its line. -/
structure LexError where
  line : Nat
  cause : LexCause
  deriving DecidableEq, Repr

namespace LexError

/-- The error as shown to the user. -/
def diagnostic (e : LexError) : Diagnostic :=
  match e.cause with
  | .unexpected c =>
    { line := e.line, place := utf8 "at " ++ Quoted.char c, message := utf8 "Unexpected character." }
  | .unterminated => { line := e.line, place := utf8 "at end", message := utf8 "Unterminated string." }

end LexError

/-! ## The first byte of a lexeme -/

/-- What a byte starts. -/
inductive Lead where
  | blank
  | single (kind : Kind)
  /-- An operator, which a following equals sign turns into another one. -/
  | operator (alone paired : Kind)
  | slash
  | quote
  | digit
  | letter
  /-- Nothing. -/
  | stray
  deriving DecidableEq, Repr

namespace Lead

/-- What the byte `b` starts. -/
def ofByte (b : UInt8) : Lead :=
  match Char.ofNat b.toNat with
  | ' ' | '\r' | '\t' | '\n' => .blank
  | '(' => .single .leftParen
  | ')' => .single .rightParen
  | '{' => .single .leftBrace
  | '}' => .single .rightBrace
  | ',' => .single .comma
  | '.' => .single .dot
  | '-' => .single .minus
  | '+' => .single .plus
  | ';' => .single .semicolon
  | '*' => .single .star
  | '!' => .operator .bang .bangEqual
  | '=' => .operator .equal .equalEqual
  | '>' => .operator .greater .greaterEqual
  | '<' => .operator .less .lessEqual
  | '/' => .slash
  | '"' => .quote
  | _ => if Bytes.isDigit b then .digit else if Bytes.isLetter b then .letter else .stray

end Lead

/-! ## The lexer -/

/-- The lexeme being read. Bytes already read stand last first. -/
inductive Pending where
  | none
  /-- The byte of an operator that an equals sign may extend. -/
  | operator (alone paired : Kind) (byte : UInt8)
  /-- A slash, which another one turns into a comment. -/
  | slash
  | comment
  /-- A string, by its text so far. -/
  | string (body : Bytes)
  /-- The digits of a number before a point. -/
  | digits (read : Bytes)
  /-- The digits of a number and a point, which belongs to the number only if a digit follows. -/
  | point (read : Bytes)
  /-- A number with a point and at least one digit after it. -/
  | fraction (read : Bytes)
  | word (read : Bytes)
  deriving DecidableEq, Repr

/-- The state of reading a source: the line of the next byte, the finished tokens, last first, and the lexeme being
read. -/
structure Lexer where
  line : Nat := 1
  tokens : List Token := []
  pending : Pending := .none
  deriving DecidableEq

namespace Lexer

/-- The point in a number. -/
def pointByte : UInt8 := 46

/-- The quote around strings. -/
def quoteByte : UInt8 := 34

/-- The slash that divides and starts comments. -/
def slashByte : UInt8 := 47

/-- The second byte of the operators of two bytes. -/
def equalsByte : UInt8 := 61

/-- The line after reading the byte `b`. -/
def lineAfter (l : Lexer) (b : UInt8) : Nat := if b = Bytes.lineFeed then l.line + 1 else l.line

/-- Finishes a token; no lexeme is being read after it. -/
def emit (l : Lexer) (t : Token) : Lexer := { l with tokens := t :: l.tokens, pending := .none }

/-- Finishes a token that has no value. -/
def emitPlain (l : Lexer) (kind : Kind) (lexeme : Bytes) : Lexer := l.emit { kind, lexeme, line := l.line }

/-- Finishes a number. -/
def emitNumber (l : Lexer) (lexeme : Bytes) : Lexer :=
  l.emit { kind := .number, lexeme, line := l.line, number := (Decimal.ofLexeme lexeme).toFloat }

/-- Finishes a string with the given text. -/
def emitString (l : Lexer) (text : Bytes) : Lexer :=
  l.emit { kind := .string, lexeme := quoteByte :: text ++ [quoteByte], line := l.line, text }

/-- Finishes a word. -/
def emitWord (l : Lexer) (lexeme : Bytes) : Lexer := l.emitPlain (Kind.ofWord lexeme) lexeme

/-- Continues the lexeme being read with the byte `b`, `none` if `b` does not belong to it. -/
def extend? (l : Lexer) (b : UInt8) : Option Lexer :=
  match l.pending with
  | .none => none
  | .operator _ paired a => if b = equalsByte then some (l.emitPlain paired [a, b]) else none
  | .slash => if b = slashByte then some { l with pending := .comment } else none
  | .comment => if b = Bytes.lineFeed then none else some l
  | .string body =>
    if b = quoteByte then some (l.emitString body.reverse)
    else some { l with line := l.lineAfter b, pending := .string (b :: body) }
  | .digits ds =>
    if Bytes.isDigit b then some { l with pending := .digits (b :: ds) }
    else if b = pointByte then some { l with pending := .point ds }
    else none
  | .point ds => if Bytes.isDigit b then some { l with pending := .fraction (b :: pointByte :: ds) } else none
  | .fraction ds => if Bytes.isDigit b then some { l with pending := .fraction (b :: ds) } else none
  | .word w => if Bytes.isWordByte b then some { l with pending := .word (b :: w) } else none

/-- Ends the lexeme being read where it stands. A string that is still open stays open. -/
def settle (l : Lexer) : Lexer :=
  match l.pending with
  | .none => l
  | .operator alone _ a => l.emitPlain alone [a]
  | .slash => l.emitPlain .slash [slashByte]
  | .comment => { l with pending := .none }
  | .string _ => l
  | .digits ds => l.emitNumber ds.reverse
  | .point ds => (l.emitNumber ds.reverse).emitPlain .dot [pointByte]
  | .fraction ds => l.emitNumber ds.reverse
  | .word w => l.emitWord w.reverse

/-- Starts a lexeme, or skips a blank, at the byte `b`; `none` if `b` starts nothing. -/
def begin? (l : Lexer) (b : UInt8) : Option Lexer :=
  match Lead.ofByte b with
  | .blank => some { l with line := l.lineAfter b }
  | .single kind => some (l.emitPlain kind [b])
  | .operator alone paired => some { l with pending := .operator alone paired b }
  | .slash => some { l with pending := .slash }
  | .quote => some { l with pending := .string [] }
  | .digit => some { l with pending := .digits [b] }
  | .letter => some { l with pending := .word [b] }
  | .stray => none

/-- Reads one byte. -/
def feed? (l : Lexer) (b : UInt8) : Option Lexer := l.extend? b <|> l.settle.begin? b

/-- Reads bytes up to the first one that starts nothing. -/
def feedAll (l : Lexer) : Bytes → Except LexError Lexer
  | [] => .ok l
  | b :: rest =>
    match l.feed? b with
    | some l => l.feedAll rest
    | none => .error ⟨l.line, .unexpected (Utf8.first b rest).1.toChar⟩

theorem feedAll_append {l m : Lexer} {a : Bytes} (h : l.feedAll a = .ok m) (b : Bytes) :
    l.feedAll (a ++ b) = m.feedAll b := by
  induction a generalizing l with
  | nil => cases h; rfl
  | cons c rest ih =>
    simp only [feedAll, List.cons_append] at h ⊢
    split at h
    · exact ih h
    · cases h

/-- Ends the source: no string may be open, and the token that marks the end is added. -/
def finish (l : Lexer) : Except LexError Lexer :=
  match l.pending with
  | .string _ => .error ⟨l.line, .unterminated⟩
  | _ => .ok (l.settle.emit (Token.endOfSource l.line))

/-- Reads the rest of a source. -/
def read (l : Lexer) (source : Bytes) : Except LexError Lexer :=
  match l.feedAll source with
  | .ok l => l.finish
  | .error e => .error e

/-- The bytes left unread where reading stops: those after the first character that starts nothing. -/
def leftover (l : Lexer) : Bytes → Bytes
  | [] => []
  | b :: rest =>
    match l.feed? b with
    | some l => l.leftover rest
    | none => rest.drop (Utf8.first b rest).2

end Lexer

namespace Token

/-- The tokens of a source, ending with the one that marks its end. -/
def scan (source : Bytes) : Except LexError (List Token) := (({} : Lexer).read source).map (·.tokens.reverse)

end Token

/-! ## Scanning again -/

/-- A source that may be scanned several times: the bytes not read yet, the state after those read, and the error that
stopped an earlier scan. Where there is one, the state has no tokens any more. -/
structure Scanner where
  unread : Bytes
  lexer : Lexer := {}
  failure : Option LexError := none

namespace Scanner

/-- Scans what is left of the source. An error stays; without one, each call adds a token that marks the end to those
found before. -/
def scan (s : Scanner) : Except LexError (List Token) × Scanner :=
  match s.failure with
  | some e => (.error e, s)
  | none =>
    match s.lexer.read s.unread with
    | .error e =>
      (.error e, { unread := s.lexer.leftover s.unread, lexer := { line := e.line }, failure := some e })
    | .ok l => (.ok l.tokens.reverse, { s with unread := [], lexer := l })

end Scanner

end ExprLang
