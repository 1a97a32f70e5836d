import ExprLang.Text.Quoted
import ExprLang.Number.Style

/-!
# JSON documents

`Json` is a document whose objects keep the order of their members; `Json.render` writes it over several lines, with an
indentation of two spaces for each level, each part in front of what follows it. Characters that could end a script
element or a line of one are escaped in strings, and a stray byte is replaced by U+FFFD, so that the text is always
valid UTF-8. A document is written only if its objects are nested at most `Json.maxDepth` deep.
-/

namespace ExprLang

/-- A JSON document without arrays. -/
inductive Json where
  | null
  | bool (b : Bool)
  | int (n : Int)
  /-- A finite number. -/
  | number (x : Float)
  | string (s : Bytes)
  | object (members : List (Bytes × Json))

namespace Json

/-! ## Numbers and strings -/

/-- Numbers have an exponent below `10 ^ (-6)` and from `10 ^ 21` on, written without leading zeros. -/
def numberStyle : NumberStyle :=
  { plainFrom := some (-6), plainBelow := some 21, exponentDigits := 1, infinity := "+Inf", negativeInfinity := "-Inf",
    notANumber := "NaN" }

/-- A float: a number if it is finite, else a string that names it. -/
def ofFloat (x : Float) : Json :=
  if Binary64.magnitude x < Binary64.infinity then .number x else .string (numberStyle.format x)

/-- The letter after the backslash for a character that has one. -/
def escapeLetter? (c : Char) : Option Char :=
  match c.toNat with
  | 0x22 => some '"'
  | 0x5C => some '\\'
  | 0x08 => some 'b'
  | 0x0C => some 'f'
  | 0x0A => some 'n'
  | 0x0D => some 'r'
  | 0x09 => some 't'
  | _ => none

/-- Whether a character without such a letter is written by its code point. -/
def isEscaped (c : Char) : Bool :=
  let n := c.toNat
  n < 0x20 || c == '<' || c == '>' || c == '&' || n == 0x2028 || n == 0x2029

/-- A character in a string. -/
def escapeChar (c : Char) : Bytes :=
  match escapeLetter? c with
  | some letter => utf8 "\\" ++ String.utf8EncodeChar letter
  | none => if isEscaped c then utf8 "\\u" ++ Quoted.hex 4 c.toNat else String.utf8EncodeChar c

/-- A string in its quotes. -/
def quote (s : Bytes) : Bytes :=
  utf8 "\"" ++ (Utf8.chunks s).flatMap (fun chunk => escapeChar chunk.toChar) ++ utf8 "\""

/-! ## Documents -/

/-- A line break and the indentation of the next line. -/
def newline (depth : Nat) : Bytes := utf8 "\n" ++ List.replicate (2 * depth) 32

mutual

/-- A document that starts on a line indented by `depth` levels, followed by `rest`. -/
def renderOnto (depth : Nat) : Json → (rest : Bytes) → Bytes
  | .null, rest => utf8 "null" ++ rest
  | .bool b, rest => utf8 (if b then "true" else "false") ++ rest
  | .int n, rest => Bytes.ofInt n ++ rest
  | .number x, rest => numberStyle.format x ++ rest
  | .string s, rest => quote s ++ rest
  | .object [], rest => utf8 "\x7b\x7d" ++ rest
  | .object (m :: ms), rest =>
    utf8 "\x7b" ++ membersOnto (depth + 1) (m :: ms) (newline depth ++ (utf8 "\x7d" ++ rest))

/-- The members of an object, each on a line of its own, followed by `rest`. -/
def membersOnto (depth : Nat) : List (Bytes × Json) → (rest : Bytes) → Bytes
  | [], rest => rest
  | [(key, value)], rest => newline depth ++ (quote key ++ (utf8 ": " ++ renderOnto depth value rest))
  | (key, value) :: ms, rest =>
    newline depth ++ (quote key ++ (utf8 ": " ++ renderOnto depth value (utf8 "," ++ membersOnto depth ms rest)))

end

/-- The text of a document, with a line feed at the end. -/
def render (doc : Json) : Bytes := renderOnto 0 doc (utf8 "\n")

mutual

theorem renderOnto_append (depth : Nat) : ∀ (doc : Json) (a b : Bytes),
    renderOnto depth doc (a ++ b) = renderOnto depth doc a ++ b
  | .null, a, b => by simp [renderOnto]
  | .bool _, a, b => by simp [renderOnto]
  | .int _, a, b => by simp [renderOnto]
  | .number _, a, b => by simp [renderOnto]
  | .string _, a, b => by simp [renderOnto]
  | .object [], a, b => by simp [renderOnto]
  | .object (m :: ms), a, b => by simp [renderOnto, ← membersOnto_append (depth + 1) (m :: ms)]

theorem membersOnto_append (depth : Nat) : ∀ (ms : List (Bytes × Json)) (a b : Bytes),
    membersOnto depth ms (a ++ b) = membersOnto depth ms a ++ b
  | [], a, b => rfl
  | [(key, value)], a, b => by simp [membersOnto, renderOnto_append depth value]
  | (key, value) :: m :: ms, a, b => by
    simp [membersOnto, ← renderOnto_append depth value, membersOnto_append depth (m :: ms)]

end

/-! ## Depth -/

mutual

/-- The number of objects on a longest path from the outermost one inwards. -/
def depth : Json → Nat
  | .object ms => membersDepth 0 ms + 1
  | _ => 0

/-- The depth of the deepest member, or of what came before the members, if that is deeper. -/
def membersDepth (before : Nat) : List (Bytes × Json) → Nat
  | [] => before
  | (_, value) :: ms => membersDepth (max before value.depth) ms

end

/-- The depth up to which documents are written. -/
def maxDepth : Nat := 10000

/-- Why a document is not written. -/
inductive Fault where
  | tooDeep
  deriving DecidableEq, Repr

/-- The wording of the fault. -/
def Fault.message : Fault → Bytes
  | .tooDeep => utf8 "exceeded max depth"

end Json

end ExprLang
