import ExprLang.Text.Printable
import ExprLang.Text.Utf8

/-!
# Quoted text

`Quoted.string s` and `Quoted.char c` write a byte string in double quotes and a character in single quotes, on one
line and in printable characters only. A backslash escapes the quote, itself and the control characters that have a
name; other characters that are not printable are written by their code point, and stray bytes by their value.
-/

namespace ExprLang.Quoted

open Utf8 (Chunk)

/-- The lower-case hexadecimal digit of `n < 16`. -/
def hexDigit (n : Nat) : UInt8 := if n < 10 then (48 + n).toUInt8 else (87 + n).toUInt8

/-- The last `width` hexadecimal digits of `n`. -/
def hex : (width : Nat) → (n : Nat) → Bytes
  | 0, _ => []
  | width + 1, n => hex width (n / 16) ++ [hexDigit (n % 16)]

/-- The letter after the backslash for a control character that has one. -/
def controlLetter? (c : Char) : Option Char :=
  match c.toNat with
  | 0x07 => some 'a'
  | 0x08 => some 'b'
  | 0x09 => some 't'
  | 0x0A => some 'n'
  | 0x0B => some 'v'
  | 0x0C => some 'f'
  | 0x0D => some 'r'
  | _ => none

/-- A code point by number: two digits below U+0080, four up to U+FFFF, eight above. -/
def escapeCode (n : Nat) : Bytes :=
  if n < 0x80 then utf8 "\\x" ++ hex 2 n
  else if n < 0x10000 then utf8 "\\u" ++ hex 4 n
  else utf8 "\\U" ++ hex 8 n

/-- A character inside the quotes `quote`. -/
def escapeChar (quote c : Char) : Bytes :=
  if c = quote ∨ c = '\\' then utf8 "\\" ++ String.utf8EncodeChar c
  else
    match controlLetter? c with
    | some letter => utf8 "\\" ++ String.utf8EncodeChar letter
    | none => if Text.isPrintable c then String.utf8EncodeChar c else escapeCode c.toNat

/-- A chunk of a byte string inside double quotes. -/
def escapeChunk : Chunk → Bytes
  | .char c => escapeChar '"' c
  | .stray b => utf8 "\\x" ++ hex 2 b.toNat

/-- A character in single quotes. -/
def char (c : Char) : Bytes := utf8 "'" ++ escapeChar '\'' c ++ utf8 "'"

/-- A byte string in double quotes. -/
def string (s : Bytes) : Bytes := utf8 "\"" ++ (Utf8.chunks s).flatMap escapeChunk ++ utf8 "\""

end ExprLang.Quoted
