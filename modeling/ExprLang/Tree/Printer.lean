import ExprLang.Tree.Basic

/-!
# Trees as text

`Tree.render` writes a tree on one line: every node in parentheses, with its shape, its lexeme and its operands. It is
built from the right, each part being written in front of what follows it.
-/

namespace ExprLang.Tree

/-- The text form of a tree, followed by `rest`. -/
def renderOnto : Tree → (rest : Bytes) → Bytes
  | .missing, rest => utf8 "<nil>" ++ rest
  | .literalAt _ t, rest => utf8 "(Literal " ++ (t.lexeme ++ (utf8 ")" ++ rest))
  | .grouping _ x, rest => utf8 "(Grouping " ++ x.renderOnto (utf8 ")" ++ rest)
  | .unaryAt _ op x, rest => utf8 "(Unary " ++ (op.lexeme ++ (utf8 " " ++ x.renderOnto (utf8 ")" ++ rest)))
  | .binaryAt _ x op y, rest =>
    utf8 "(Binary " ++ (op.lexeme ++ (utf8 " " ++ x.renderOnto (utf8 " " ++ y.renderOnto (utf8 ")" ++ rest))))

/-- The text form of a tree. -/
def render (x : Tree) : Bytes := x.renderOnto []

theorem renderOnto_append (x : Tree) (a b : Bytes) : x.renderOnto (a ++ b) = x.renderOnto a ++ b := by
  induction x generalizing a with
  | missing => simp [renderOnto]
  | literalAt _ t => simp [renderOnto]
  | grouping _ x ih => simp [renderOnto, ← ih]
  | unaryAt _ op x ih => simp [renderOnto, ← ih]
  | binaryAt _ x op y ihx ihy => simp [renderOnto, ← ihx, ← ihy]

/-- Writing in front of a text is writing, followed by the text. -/
theorem renderOnto_eq (x : Tree) (rest : Bytes) : x.renderOnto rest = x.render ++ rest :=
  renderOnto_append x [] rest

end ExprLang.Tree
