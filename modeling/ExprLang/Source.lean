import ExprLang.Failure

/-!
# Sources

A source is the text of one expression. Its tokens, its tree and its value are computed one from the other, and the
first of these stages that fails decides the failure of the whole.
-/

namespace ExprLang.Source

/-- The tokens of a source. -/
def tokens (source : Bytes) : Except Failure (List Token) := (Token.scan source).mapError .ofLex

/-- The tree of a list of tokens. -/
def treeOfTokens (ts : List Token) : Except Failure Tree := (Tree.parse ts).mapError .ofParse

/-- The value of a tree. -/
def valueOfTree (x : Tree) : Except Failure Value := x.evaluate.mapError .ofFault

/-- The tree of a source. -/
def tree (source : Bytes) : Except Failure Tree := tokens source >>= treeOfTokens

/-- The value of a source. -/
def value (source : Bytes) : Except Failure Value := tree source >>= valueOfTree

end ExprLang.Source
