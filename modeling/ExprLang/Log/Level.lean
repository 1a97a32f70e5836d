import ExprLang.Text.Quoted

/-!
# Levels of the debug log

A level is a number; the larger it is, the more is logged. The first seven have names.
-/

namespace ExprLang.Log

/-- How much is logged. -/
structure Level where
  rank : Nat
  deriving DecidableEq, Repr

namespace Level

/-- The names of the levels, from the one that logs least. -/
def names : List String := ["panic", "fatal", "error", "warning", "info", "debug", "trace"]

/-- The level at which a run starts. -/
def warning : Level := ⟨3⟩

/-- The least level at which the entries of the debug log are written. -/
def debug : Level := ⟨5⟩

/-- The name of a level. -/
def name (l : Level) : String := names[l.rank]?.getD "unknown"

/-- Whether the entries of the debug log are written. -/
def writesDebug (l : Level) : Bool := debug.rank ≤ l.rank

/-- The lower-case form of a character as far as it is an ASCII letter: besides the ASCII capitals, the dotted capital I
and the kelvin sign have one. -/
def lowerCase (c : Char) : Char :=
  if c = '\u0130' then 'i' else if c = '\u212A' then 'k' else c.toLower

/-- Whether a text is the given lower-case word, whatever the case of its letters. -/
def matchesWord (s : Bytes) (word : String) : Bool :=
  (Utf8.chunks s).map (fun chunk => lowerCase chunk.toChar) == word.toList

/-- The level with the given name, in any case; `warn` is short for `warning`. -/
def ofName? (s : Bytes) : Option Level :=
  if matchesWord s "warn" then some warning
  else (names.findIdx? fun word => matchesWord s word).map Level.mk

/-- The complaint about a text that names no level. -/
def unknownName (s : Bytes) : Bytes := utf8 "not a valid logrus Level: " ++ Quoted.string s

end Level

end ExprLang.Log
