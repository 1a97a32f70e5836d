import ExprLang.Log.Entry
import ExprLang.Source
import ExprLang.Text.Blocks
import ExprLang.Tree.Document
import ExprLang.Tree.Printer

/-!
# The report on a source

`Report.of mode format source` is what a run in the given mode has to say about a source: the texts to be written, in
this order, or the failure of the first stage that fails, and an entry for the log for each stage reached. Nothing is
to be written if a stage fails.
-/

namespace ExprLang

/-- What is reported of a source. -/
inductive Mode where
  | evaluate
  | tokens
  | tree
  deriving DecidableEq, Repr

/-- How trees are reported. -/
inductive TreeFormat where
  | text
  | json
  deriving DecidableEq, Repr

namespace TreeFormat

/-- The format with the given name; every name but one means text. -/
def ofName (s : Bytes) : TreeFormat := if s = utf8 "json" then .json else .text

/-- The texts that show a tree; each is written as a whole. -/
def texts : TreeFormat → Tree → Except Failure (List Bytes)
  | .text, x => .ok [x.render, utf8 "\n"]
  | .json, x =>
    match x.document with
    | .error fault => .error (.ofDocument fault)
    | .ok document => .ok [document]

end TreeFormat

/-! ## The token table -/

namespace Token

/-- A row of the token table: two padded columns and one that is as wide as it needs to be. -/
def row (line kind lexeme : Bytes) : Bytes :=
  line.padRight 6 ++ utf8 " " ++ kind.padRight 8 ++ utf8 " " ++ lexeme ++ utf8 "\n"

/-- The last column of a token; strings are quoted, which keeps them on one row. -/
def lexemeColumn (t : Token) : Bytes := if t.kind = .string then Quoted.string t.text else t.lexeme

/-- The row of a token. -/
def tableRow (t : Token) : Bytes := row (Bytes.ofInt t.line) t.kind.label t.lexemeColumn

/-- The rows of the table of a list of tokens: the names of the columns, a rule under them, and a row for each token. -/
def table (ts : List Token) : List Bytes :=
  row (utf8 "LINE") (utf8 "TOKEN") (utf8 "LEXEME") ::
    row (List.replicate 6 45) (List.replicate 8 45) (List.replicate 12 45) :: ts.map tableRow

/-- The length of the blocks in which a table is written. -/
def tableBlock : Nat := 4096

end Token

/-! ## Reports -/

/-- What there is to say about a source. -/
structure Report where
  entries : List Log.Entry
  result : Except Failure (List Bytes)

namespace Report

/-- The report on the value of a tree. -/
def ofTree (x : Tree) : Report :=
  match Source.valueOfTree x with
  | .error f => ⟨[.evaluationFailed f], .error f⟩
  | .ok v => ⟨[.evaluated v], .ok [v.shown]⟩

/-- The report with entries put in front. -/
def after (entries : List Log.Entry) (r : Report) : Report := { r with entries := entries ++ r.entries }

/-- The report on a list of tokens, from parsing on. -/
def ofTokens (mode : Mode) (format : TreeFormat) (ts : List Token) : Report :=
  match Source.treeOfTokens ts with
  | .error f => ⟨[.parseFailed f], .error f⟩
  | .ok x =>
    after [.parsed x.count x.depth] <|
      match mode with
      | .tree => ⟨[], format.texts x⟩
      | _ => ofTree x

/-- The report on a source. -/
def of (mode : Mode) (format : TreeFormat) (source : Bytes) : Report :=
  match Source.tokens source with
  | .error f => ⟨[.scanFailed f], .error f⟩
  | .ok ts =>
    after [.scanned ts.length] <|
      match mode with
      | .tokens => ⟨[], .ok (Blocks.ofRows Token.tableBlock (Token.table ts))⟩
      | _ => ofTokens mode format ts

end Report

end ExprLang
