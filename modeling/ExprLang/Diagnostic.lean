import ExprLang.Text.Bytes

/-!
# Diagnostics

A `Diagnostic` says on which line of a source what went wrong and where; `Diagnostic.render` is the text shown to the
user.
-/

namespace ExprLang

/-- A complaint about a source. -/
structure Diagnostic where
  line : Int
  place : Bytes
  message : Bytes
  deriving DecidableEq

namespace Diagnostic

/-- The text of a diagnostic. -/
def render (d : Diagnostic) : Bytes :=
  utf8 "[line " ++ Bytes.ofInt d.line ++ utf8 "] Error " ++ d.place ++ utf8 ": " ++ d.message

end Diagnostic

end ExprLang
