import ExprLang.Failure
import ExprLang.Log.Level

/-!
# Entries of the debug log

* `Entry` — what is worth noting in a run;
* `Entry.message`, `Entry.fields` — its text and its details, by name in alphabetical order;
* `Entry.render` — the line it is written on. Values are quoted unless they are plain words, so that no entry takes
  more than one line.
-/

namespace ExprLang.Log

/-- An entry of the debug log. -/
inductive Entry where
  | scanFailed (error : Failure)
  | scanned (tokens : Nat)
  | parseFailed (error : Failure)
  | parsed (nodes depth : Nat)
  | evaluationFailed (error : Failure)
  | evaluated (value : Value)
  | runningFile (path : Bytes)
  | lineFailed (number : Nat) (error : Failure)
  deriving DecidableEq

namespace Entry

/-- What happened. -/
def message : Entry → String
  | .scanFailed _ => "scan failed"
  | .scanned _ => "scanned"
  | .parseFailed _ => "parse failed"
  | .parsed .. => "parsed"
  | .evaluationFailed _ => "evaluation failed"
  | .evaluated _ => "evaluated"
  | .runningFile _ => "running file"
  | .lineFailed .. => "line failed"

/-- The details of an entry. -/
def fields : Entry → List (String × Bytes)
  | .scanFailed e => [("error", e.message)]
  | .scanned tokens => [("tokens", Bytes.ofNat tokens)]
  | .parseFailed e => [("error", e.message)]
  | .parsed nodes depth => [("depth", Bytes.ofNat depth), ("nodes", Bytes.ofNat nodes)]
  | .evaluationFailed e => [("error", e.message)]
  | .evaluated v => [("type", utf8 v.type.name), ("value", v.display)]
  | .runningFile path => [("path", path)]
  | .lineFailed number e => [("error", e.message), ("input", Bytes.ofNat number)]

/-- Whether a byte may stand in a value without quotes. -/
def isBare (b : UInt8) : Bool :=
  Bytes.isWordByte b || (utf8 "-./@^+").contains b

/-- A value, in quotes if it holds a byte that needs them. -/
def renderValue (s : Bytes) : Bytes := if s.all isBare then s else Quoted.string s

/-- A detail, with the space before it. -/
def renderField (field : String × Bytes) : Bytes :=
  utf8 " " ++ utf8 field.1 ++ utf8 "=" ++ renderValue field.2

/-- The line of an entry written at the given time. -/
def render (time : Bytes) (e : Entry) : Bytes :=
  utf8 "time=" ++ Quoted.string time ++ utf8 " level=debug msg=" ++
    Quoted.string (utf8 "[driver]: " ++ utf8 e.message) ++ e.fields.flatMap renderField ++ utf8 "\n"

end Entry

end ExprLang.Log
