import ExprLang.Proofs.Number.Rounding
import ExprLang.Text.Utf8

/-!
# The grammar of JSON texts

The standard grammar, over characters: which texts are JSON texts, and what each of them stands for.

* `Json.Datum` — what a text stands for; a number is kept as it is written (`Json.Numeral`), a string as its characters;
* `Json.NumberText`, `Json.StringText` — the texts of numbers and strings;
* `Json.Written` — the texts of values, of the items of an array and of the members of an object;
* `Json.DocumentText` — a value with blanks around it.
-/

namespace ExprLang.Json

/-! ## What a text stands for -/

/-- A number as it is written. -/
structure Numeral where
  negative : Bool
  decimal : Decimal

namespace Numeral

/-- The number itself. -/
def value (n : Numeral) : ℚ := if n.negative then -n.decimal.value else n.decimal.value

/-- The nearest float; a minus sign before a zero is kept. -/
def toFloat (n : Numeral) : Float := if n.negative then -n.decimal.toFloat else n.decimal.toFloat

end Numeral

/-- What a JSON text stands for. -/
inductive Datum where
  | null
  | bool (b : Bool)
  | number (n : Numeral)
  | string (s : List Char)
  | array (items : List Datum)
  | object (members : List (List Char × Datum))

/-! ## Blanks and numbers -/

/-- The characters that may stand between the parts of a text. -/
def isBlank (c : Char) : Bool := c == ' ' || c == '\t' || c == '\n' || c == '\r'

def Blanks (cs : List Char) : Prop := ∀ c ∈ cs, isBlank c

def IsDigits (ds : List Char) : Prop := ds ≠ [] ∧ ∀ c ∈ ds, c.isDigit

/-- The digits before the point, without needless zeros. -/
def IsWhole (ds : List Char) : Prop := IsDigits ds ∧ (ds.head? = some '0' → ds = ['0'])

/-- The text of a fraction with its digits. -/
inductive Fraction : List Char → List Char → Prop
  | none : Fraction [] []
  | some {ds} (digits : IsDigits ds) : Fraction ('.' :: ds) ds

/-- The sign of an exponent, and whether it is a minus sign. -/
inductive Signed : List Char → Bool → Prop
  | none : Signed [] false
  | plus : Signed ['+'] false
  | minus : Signed ['-'] true

/-- The text of an exponent with its value. -/
inductive Exponent : List Char → Int → Prop
  | none : Exponent [] 0
  | some {mark sign negative ds} (hmark : mark = 'e' ∨ mark = 'E') (hsign : Signed sign negative)
      (digits : IsDigits ds) : Exponent (mark :: (sign ++ ds)) (if negative then -(Nat.ofDigitChars 10 ds 0 : Int) else Nat.ofDigitChars 10 ds 0)

/-- The sign of a number. -/
def sign (negative : Bool) : List Char := if negative then ['-'] else []

/-- The text of a number. -/
inductive NumberText : List Char → Numeral → Prop
  | mk {whole fraction digits tail x} (negative : Bool) (hwhole : IsWhole whole) (hfraction : Fraction fraction digits)
      (htail : Exponent tail x) :
      NumberText (sign negative ++ (whole ++ (fraction ++ tail)))
        ⟨negative, ⟨Nat.ofDigitChars 10 (whole ++ digits) 0, x - digits.length⟩⟩

/-! ## Strings -/

/-- A piece of a string: a character, or a UTF-16 code unit given by its number. -/
inductive Piece where
  | char (c : Char)
  | code (n : Nat)

namespace Piece

def isHigh (n : Nat) : Bool := 0xD800 ≤ n && n < 0xDC00

def isLow (n : Nat) : Bool := 0xDC00 ≤ n && n < 0xE000

/-- The character of a code unit on its own; a surrogate is no character. -/
def single (n : Nat) : Char := if isHigh n || isLow n then Utf8.replacement else Char.ofNat n

/-- The character that two surrogates stand for. -/
def pair (high low : Nat) : Char := Char.ofNat (0x10000 + (high - 0xD800) * 0x400 + (low - 0xDC00))

/-- The characters of a string. -/
def join : List Piece → List Char
  | [] => []
  | .char c :: rest => c :: join rest
  | [.code n] => [single n]
  | .code n :: .char c :: rest => single n :: c :: join rest
  | .code n :: .code m :: rest =>
    if isHigh n && isLow m then pair n m :: join rest else single n :: join (.code m :: rest)

end Piece

/-- The character that a letter after a backslash stands for. -/
def unescape? (letter : Char) : Option Char :=
  if letter = '"' ∨ letter = '\\' ∨ letter = '/' then some letter
  else if letter = 'b' then some '\x08'
  else if letter = 'f' then some '\x0c'
  else if letter = 'n' then some '\n'
  else if letter = 'r' then some '\r'
  else if letter = 't' then some '\t'
  else none

def hexValue? (c : Char) : Option Nat :=
  if '0' ≤ c ∧ c ≤ '9' then some (c.toNat - 48)
  else if 'a' ≤ c ∧ c ≤ 'f' then some (c.toNat - 87)
  else if 'A' ≤ c ∧ c ≤ 'F' then some (c.toNat - 55)
  else none

/-- The number that four hexadecimal digits spell. -/
def hexCode? (a b c d : Char) : Option Nat := do
  return (((← hexValue? a) * 16 + (← hexValue? b)) * 16 + (← hexValue? c)) * 16 + (← hexValue? d)

/-- The text of a piece. -/
inductive PieceText : List Char → Piece → Prop
  | plain {c : Char} (visible : 0x20 ≤ c.toNat) (hquote : c ≠ '"') (hbackslash : c ≠ '\\') : PieceText [c] (.char c)
  | letter {e c} (h : unescape? e = some c) : PieceText ['\\', e] (.char c)
  | code {a b c d n} (h : hexCode? a b c d = some n) : PieceText ['\\', 'u', a, b, c, d] (.code n)

/-- The text of the pieces of a string, one after the other. -/
inductive PiecesText : List Char → List Piece → Prop
  | nil : PiecesText [] []
  | cons {text piece rest pieces} (head : PieceText text piece) (tail : PiecesText rest pieces) :
      PiecesText (text ++ rest) (piece :: pieces)

/-- The text of a string, in its quotes. -/
inductive StringText : List Char → List Char → Prop
  | mk {text pieces} (h : PiecesText text pieces) : StringText ('"' :: (text ++ ['"'])) (Piece.join pieces)

/-! ## Values -/

/-- The values that are written as words. -/
def words : List (List Char × Datum) :=
  [(['n', 'u', 'l', 'l'], .null), (['t', 'r', 'u', 'e'], .bool true), (['f', 'a', 'l', 's', 'e'], .bool false)]

/-- What a part of a text stands for. -/
inductive Part where
  | value (v : Datum)
  | items (vs : List Datum)
  | members (ms : List (List Char × Datum))

/-- The text of a value, of the items of an array or of the members of an object. -/
inductive Written : List Char → Part → Prop
  | word {text v} (h : (text, v) ∈ words) : Written text (.value v)
  | number {text n} (h : NumberText text n) : Written text (.value (.number n))
  | string {text s} (h : StringText text s) : Written text (.value (.string s))
  | emptyArray {blanks} (h : Blanks blanks) : Written ('[' :: (blanks ++ [']'])) (.value (.array []))
  | array {text vs} (h : Written text (.items vs)) : Written ('[' :: (text ++ [']'])) (.value (.array vs))
  | emptyObject {blanks} (h : Blanks blanks) : Written ('\x7b' :: (blanks ++ ['\x7d'])) (.value (.object []))
  | object {text ms} (h : Written text (.members ms)) : Written ('\x7b' :: (text ++ ['\x7d'])) (.value (.object ms))
  | item {before text v after} (hbefore : Blanks before) (hvalue : Written text (.value v)) (hafter : Blanks after) :
      Written (before ++ (text ++ after)) (.items [v])
  | items {before text v after rest vs} (hbefore : Blanks before) (hvalue : Written text (.value v))
      (hafter : Blanks after) (hrest : Written rest (.items vs)) :
      Written (before ++ (text ++ (after ++ ',' :: rest))) (.items (v :: vs))
  | member {before key s middle between text v after} (hbefore : Blanks before) (hkey : StringText key s)
      (hmiddle : Blanks middle) (hbetween : Blanks between) (hvalue : Written text (.value v)) (hafter : Blanks after) :
      Written (before ++ (key ++ (middle ++ ':' :: (between ++ (text ++ after))))) (.members [(s, v)])
  | members {before key s middle between text v after rest ms} (hbefore : Blanks before) (hkey : StringText key s)
      (hmiddle : Blanks middle) (hbetween : Blanks between) (hvalue : Written text (.value v)) (hafter : Blanks after)
      (hrest : Written rest (.members ms)) :
      Written (before ++ (key ++ (middle ++ ':' :: (between ++ (text ++ (after ++ ',' :: rest)))))) (.members ((s, v) :: ms))

/-- A JSON text: a value with blanks around it. -/
inductive DocumentText : List Char → Datum → Prop
  | mk {before text v after} (hbefore : Blanks before) (hvalue : Written text (.value v)) (hafter : Blanks after) :
      DocumentText (before ++ (text ++ after)) v

end ExprLang.Json
