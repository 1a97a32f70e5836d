import ExprLang.Json
import ExprLang.Token.Lexer
import ExprLang.Tree.Parser
import ExprLang.Tree.Evaluator

/-!
# Failures of a run

A `Failure` is what a run reports when it gives no result. It may be wrapped in the circumstances in which it arose.

* `Failure.message` — the text shown to the user, the circumstances first;
* `Failure.chain` — the failure and what it wraps, from the outside in;
* `Failure.exitCode` — the exit status it leads to.
-/

namespace ExprLang

/-- A reason for giving no result. -/
inductive Failure where
  /-- The source has a lexical error. -/
  | scan (d : Diagnostic)
  /-- The source has a parse error at the token. -/
  | parse (token : Token) (message : Bytes)
  /-- The expression has no value because of the token. -/
  | runtime (token : Token) (message : Bytes)
  /-- Anything else. -/
  | plain (text : Bytes)
  /-- A script could not be read. -/
  | unreadable (path : Bytes) (cause : Failure)
  /-- A failure with a remark put in front. -/
  | remarked (remark : Bytes) (cause : Failure)
  deriving DecidableEq

namespace Failure

/-! ## The failures of the stages -/

/-- The failure of a source that cannot be split into tokens. -/
def ofLex (e : LexError) : Failure := .scan e.diagnostic

/-- The failure of a source that is no expression. -/
def ofParse (e : ParseError) : Failure := .parse e.token e.cause.message

/-- The failure of an expression that has no value. -/
def ofFault : Fault → Failure
  | .runtime e => .runtime e.token e.message
  | .missingOperand => .plain (utf8 "interp: unexpected node <nil>")

/-- The failure of a tree that cannot be written as a document. -/
def ofDocument (fault : Json.Fault) : Failure := .plain fault.message

/-! ## Texts and exit codes -/

/-- The text of a failure. -/
def message : Failure → Bytes
  | .scan d => d.render
  | .parse t m => Diagnostic.render ⟨t.line, t.place, m⟩
  | .runtime t m => Diagnostic.render ⟨t.line, t.place, m⟩
  | .plain s => s
  | .unreadable path cause => utf8 "could not read " ++ Quoted.string path ++ utf8 ": " ++ cause.message
  | .remarked remark cause => remark ++ utf8 ": " ++ cause.message

/-- The failure and those it wraps, the outermost first. -/
def chain : Failure → List Failure
  | .unreadable path cause => .unreadable path cause :: cause.chain
  | .remarked remark cause => .remarked remark cause :: cause.chain
  | f => [f]

/-- The categories of failures that the exit status depends on, by priority. -/
inductive Category where
  | scan
  | parse
  | runtime
  | unreadable
  deriving DecidableEq, Repr

/-- The category of a failure itself, without what it wraps. -/
def category? : Failure → Option Category
  | .scan _ => some .scan
  | .parse .. => some .parse
  | .runtime .. => some .runtime
  | .unreadable .. => some .unreadable
  | .plain _ | .remarked .. => none

/-- The outermost failure of the given category in the chain. -/
def find? (f : Failure) (category : Category) : Option Failure := f.chain.find? fun g => g.category? == some category

/-- The failure in the chain that decides how the whole is classified: one with a lexical error if there is one, else
one with a parse error, a run-time error, an unreadable script. -/
def decisive? (f : Failure) : Option Failure :=
  f.find? .scan <|> f.find? .parse <|> f.find? .runtime <|> f.find? .unreadable

/-- The exit status for a failure of the given category. -/
def Category.exitCode : Category → Nat
  | .scan => 65
  | .parse => 65
  | .runtime => 70
  | .unreadable => 66

/-- The exit status for a failure. -/
def exitCode (f : Failure) : Nat := ((f.decisive?.bind category?).map Category.exitCode).getD 1

/-- The exit status of a run, which may have failed. -/
def exitStatus : Option Failure → Nat
  | none => 0
  | some f => f.exitCode

end Failure

end ExprLang
