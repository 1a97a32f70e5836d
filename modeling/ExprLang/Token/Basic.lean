import ExprLang.Text.Quoted
import ExprLang.Number.Style
import ExprLang.Token.Kind

/-!
# Tokens

* `Token` — a lexeme with its kind, its line and the value it denotes;
* `Token.describe` — the one-line description of a token;
* `Token.place` — how a diagnostic refers to a token.
-/

namespace ExprLang

/-- A token. Only a number has a `number` other than zero, and only a string has a `text` other than empty, in what
`Token.scan` produces. -/
structure Token where
  kind : Kind
  lexeme : Bytes
  line : Int
  number : Float := 0
  text : Bytes := []
  deriving DecidableEq

namespace Token

/-- The token at the end of a source. -/
def endOfSource (line : Int) : Token := { kind := .eof, lexeme := [], line }

/-- Numbers in token descriptions: an exponent of at least two digits below `10 ^ (-4)` and from `10 ^ 6` on. -/
def numberStyle : NumberStyle :=
  { plainFrom := some (-4), plainBelow := some 6, exponentDigits := 2, infinity := "+Inf", negativeInfinity := "-Inf",
    notANumber := "NaN" }

/-- The line and the kind of a token, followed by its value if it is a number, a string or an identifier. -/
def describe (t : Token) : Bytes :=
  let detail :=
    match t.kind with
    | .number => utf8 " " ++ numberStyle.format t.number
    | .string => utf8 " " ++ Quoted.string t.text
    | .identifier => utf8 " " ++ t.lexeme
    | _ => []
  Bytes.ofInt t.line ++ utf8 ":" ++ t.kind.label ++ detail

/-- How a diagnostic refers to the token. -/
def place (t : Token) : Bytes :=
  if t.kind = .eof then utf8 "at end" else utf8 "at '" ++ t.lexeme ++ utf8 "'"

end Token

end ExprLang
