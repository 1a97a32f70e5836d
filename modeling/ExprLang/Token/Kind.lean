import ExprLang.Text.Bytes

/-!
# Kinds of tokens

* `Kind` — the kinds of the language, and `Kind.other` for a number that none of them has;
* `Kind.ofCode`, `Kind.code` — their numbering;
* `Kind.name` — the word by which a kind is printed;
* `Kind.ofWord` — the kind of a word: a keyword, or an identifier.
-/

namespace ExprLang

/-- What sort of thing a token is. -/
inductive Kind where
  | leftParen | rightParen | leftBrace | rightBrace | comma | dot | minus | plus | semicolon | slash | star
  | bang | bangEqual | equal | equalEqual | greater | greaterEqual | less | lessEqual
  | identifier | string | number
  | kwAnd | kwClass | kwElse | kwFalse | kwFor | kwFun | kwIf | kwNil | kwOr | kwPrint | kwReturn | kwSuper | kwThis
  | kwTrue | kwVar | kwWhile
  | eof
  | other (code : Nat)
  deriving DecidableEq, Repr

namespace Kind

/-- The kinds of the punctuators, the operators and the tokens with a value, in the order of their numbers. -/
def symbols : List Kind :=
  [leftParen, rightParen, leftBrace, rightBrace, comma, dot, minus, plus, semicolon, slash, star, bang, bangEqual,
   equal, equalEqual, greater, greaterEqual, less, lessEqual, identifier, string, number]

/-- The kinds of the keywords, in the order of their numbers. -/
def keywords : List Kind :=
  [kwAnd, kwClass, kwElse, kwFalse, kwFor, kwFun, kwIf, kwNil, kwOr, kwPrint, kwReturn, kwSuper, kwThis, kwTrue, kwVar,
   kwWhile]

/-- All kinds that have a name of their own, in the order of their numbers. -/
def all : List Kind := symbols ++ keywords ++ [eof]

/-- The kind with the number `n`. -/
def ofCode (n : Nat) : Kind := all[n]?.getD (.other n)

/-- The number of a kind. -/
def code : Kind → Nat
  | .other n => n
  | k => all.idxOf k

theorem code_ofCode (n : Nat) : (ofCode n).code = n := by
  by_cases h : n < all.length
  · have : ∀ i : Fin all.length, (ofCode i).code = i := by decide
    exact this ⟨n, h⟩
  · simp [ofCode, List.getElem?_eq_none (Nat.le_of_not_lt h), code]

theorem ofCode_code {k : Kind} (h : k ∈ all) : ofCode k.code = k := by
  have : ∀ k ∈ all, ofCode k.code = k := by decide
  exact this k h

/-- The word by which a kind is printed; for a keyword, its spelling. -/
def name : Kind → String
  | leftParen => "("
  | rightParen => ")"
  | leftBrace => "\x7b"
  | rightBrace => "\x7d"
  | comma => ","
  | dot => "."
  | minus => "-"
  | plus => "+"
  | semicolon => ";"
  | slash => "/"
  | star => "*"
  | bang => "!"
  | bangEqual => "!="
  | equal => "="
  | equalEqual => "=="
  | greater => ">"
  | greaterEqual => ">="
  | less => "<"
  | lessEqual => "<="
  | identifier => "IDENT"
  | string => "STRING"
  | number => "NUMBER"
  | kwAnd => "and"
  | kwClass => "class"
  | kwElse => "else"
  | kwFalse => "false"
  | kwFor => "for"
  | kwFun => "fun"
  | kwIf => "if"
  | kwNil => "nil"
  | kwOr => "or"
  | kwPrint => "print"
  | kwReturn => "return"
  | kwSuper => "super"
  | kwThis => "this"
  | kwTrue => "true"
  | kwVar => "var"
  | kwWhile => "while"
  | eof => "EOF"
  | other n => "kind(" ++ Nat.repr n ++ ")"

/-- The printed name as bytes. -/
def label (k : Kind) : Bytes := utf8 k.name

/-- Whether the kind is that of a keyword. -/
def isKeyword (k : Kind) : Bool := keywords.contains k

/-- Whether a token of this kind is a literal expression. -/
def isLiteral : Kind → Bool
  | number | string | kwTrue | kwFalse | kwNil => true
  | _ => false

/-- The kind of a word: that of the keyword it spells, else an identifier. -/
def ofWord (word : Bytes) : Kind := (keywords.find? fun k => k.label == word).getD .identifier

end Kind

end ExprLang
