import ExprLang.Proofs.Tree.WellFormed
import Mathlib.Data.List.Forall2

/-!
# Trees in source order

Written from left to right, a tree that was parsed is the row of tokens it was parsed from. It keeps its literals and its
operators, but of a pair of parentheses only the line of the opening one.

* `Symbol` — what a tree has at a place of its source, and `Symbol.StandsFor` — the token it is there for;
* `Tree.symbols` — the tree from left to right;
* `Derives.symbols_stand` — each symbol stands for one token, in the same order;
* `Tree.countOf` — the nodes of one shape, `Tree.length_symbols` — how many symbols a tree has, and
  `Tree.Complete.countOf_literal` — how many literals;
* `Parser.parse_source_order` — so no token is lost or doubled by parsing.
-/

namespace ExprLang

/-! ## Symbols -/

/-- What a tree has at a place of its source. -/
inductive Symbol where
  /-- A literal or an operator. -/
  | token (t : Token)
  /-- The opening parenthesis of a grouping, on the given line. -/
  | opening (line : Int)
  /-- The closing parenthesis of a grouping. -/
  | closing
  deriving DecidableEq

namespace Symbol

/-- The kind of the token at the place. -/
def kind : Symbol → Kind
  | token t => t.kind
  | opening _ => .leftParen
  | closing => .rightParen

/-- The symbol stands for the token: a literal or an operator for itself, a parenthesis for one of its kind. -/
inductive StandsFor : Symbol → Token → Prop where
  | token (t : Token) : StandsFor (.token t) t
  | opening {t : Token} (h : t.kind = .leftParen) : StandsFor (.opening t.line) t
  | closing {t : Token} (h : t.kind = .rightParen) : StandsFor .closing t

theorem StandsFor.kind_eq {s : Symbol} {t : Token} (h : s.StandsFor t) : s.kind = t.kind := by
  cases h with
  | token => rfl
  | opening h => exact h.symm
  | closing h => exact h.symm

theorem map_kind_eq {symbols : List Symbol} {ts : List Token} (h : List.Forall₂ StandsFor symbols ts) :
    symbols.map kind = ts.map Token.kind := by
  induction h with
  | nil => rfl
  | cons first _ ih => rw [List.map_cons, List.map_cons, first.kind_eq, ih]

end Symbol

namespace Tree

/-- The tree from left to right: a unary operator before its operand, a binary one between its operands, and a grouping
in parentheses. -/
def symbols : Tree → List Symbol
  | .missing => []
  | .literalAt _ t => [.token t]
  | .grouping line x => .opening line :: (x.symbols ++ [.closing])
  | .unaryAt _ op x => .token op :: x.symbols
  | .binaryAt _ x op y => x.symbols ++ .token op :: y.symbols

end Tree

/-- **A derived tree has a symbol for each token it is derived from**, in the same order. -/
theorem Derives.symbols_stand {n : Nonterminal} {ts : List Token} {x : Tree} (h : Derives n ts x) :
    List.Forall₂ Symbol.StandsFor x.symbols ts := by
  induction h with
  | operand _ ih => exact ih
  | binary _ _ _ ihx ihy => exact List.rel_append ihx (.cons (.token _) ihy)
  | plain _ ih => exact ih
  | unary _ _ ih => exact .cons (.token _) ih
  | literal => exact .cons (.token _) .nil
  | grouping opening _ closing ih => exact .cons (.opening opening) (List.rel_append ih (.cons (.closing closing) .nil))

theorem Derives.length_symbols {n : Nonterminal} {ts : List Token} {x : Tree} (h : Derives n ts x) :
    x.symbols.length = ts.length := h.symbols_stand.length_eq

/-! ## Nodes by shape -/

namespace Tree

/-- The number of nodes of the given shape. -/
def countOf (shape : String) (x : Tree) : Nat := (x.walk fun _ => true).countP (·.shape == shape)

section Shapes

variable (shape : String) (t op : Token) (line : Int) (x y : Tree)

@[simp] theorem countOf_literalAt : countOf shape (.literalAt line t) = if "Literal" = shape then 1 else 0 := by
  simp [countOf, walk_literalAt, List.countP_cons, Tree.shape]

@[simp] theorem countOf_grouping :
    countOf shape (.grouping line x) = x.countOf shape + if "Grouping" = shape then 1 else 0 := by
  simp [countOf, walk_grouping, List.countP_cons, Tree.shape]

@[simp] theorem countOf_unaryAt :
    countOf shape (.unaryAt line op x) = x.countOf shape + if "Unary" = shape then 1 else 0 := by
  simp [countOf, walk_unaryAt, List.countP_cons, Tree.shape]

@[simp] theorem countOf_binaryAt :
    countOf shape (.binaryAt line x op y) = x.countOf shape + y.countOf shape + if "Binary" = shape then 1 else 0 := by
  simp [countOf, walk_binaryAt, List.countP_cons, Tree.shape]

end Shapes

variable {x : Tree}

/-- A node has one symbol, and a grouping has one more. -/
theorem length_symbols (x : Tree) : x.symbols.length = x.count + x.countOf "Grouping" := by
  induction x with
  | missing => rfl
  | literalAt line t => rfl
  | grouping line x ih =>
    rw [symbols, List.length_cons, List.length_append, ih, count_grouping, countOf_grouping, if_pos rfl,
      List.length_singleton]
    omega
  | unaryAt line op x ih =>
    rw [symbols, List.length_cons, ih, count_unaryAt, countOf_unaryAt, if_neg (by decide)]
    omega
  | binaryAt line x op y ihx ihy =>
    rw [symbols, List.length_append, List.length_cons, ihx, ihy, count_binaryAt, countOf_binaryAt, if_neg (by decide)]
    omega

/-- Where no operand is missing, there is one literal more than there are binary expressions. -/
theorem Complete.countOf_literal (h : x.Complete) : x.countOf "Literal" = x.countOf "Binary" + 1 := by
  induction x with
  | missing => exact h.elim
  | literalAt line t => rfl
  | grouping line x ih => simpa using ih h
  | unaryAt line op x ih => simpa using ih h
  | binaryAt line x op y ihx ihy =>
    have hx := ihx h.1
    have hy := ihy h.2
    rw [countOf_binaryAt, countOf_binaryAt, if_neg (by decide), if_pos rfl]
    omega

/-- A path from the root has no more nodes than the tree. -/
theorem depth_le_count (x : Tree) : x.depth ≤ x.count := by
  induction x with
  | missing => exact Nat.le_refl _
  | literalAt line t => exact Nat.le_refl _
  | grouping line x ih =>
    rw [depth, count_grouping]
    omega
  | unaryAt line op x ih =>
    rw [depth, count_unaryAt]
    omega
  | binaryAt line x op y ihx ihy =>
    rw [depth, count_binaryAt]
    omega

end Tree

/-! ## Parsing -/

/-- The cursor moves over as many tokens as the tree has symbols. -/
theorem Parser.cursor_of_parse {p q : Parser} {x : Tree} (h : p.parse = (.ok x, q)) :
    q.cursor = p.cursor + x.symbols.length := by
  obtain ⟨read, -, -, hcursor, derives, -⟩ := reads_iff_rest.1 (reads_of_parse h)
  rw [hcursor, derives.length_symbols]

/-- **No token is lost or doubled by parsing.** The symbols of a tree that was parsed stand, one by one, for the tokens
the cursor has passed: literals and operators are the tokens themselves, and each grouping has its two parentheses. So the
cursor has moved by the number of nodes and that of groupings, and there is one literal more than there are binary
expressions. -/
theorem Parser.parse_source_order {p q : Parser} {x : Tree} (h : p.parse = (.ok x, q)) :
    let read := (p.tokens.take q.cursor).drop p.cursor
    List.Forall₂ Symbol.StandsFor x.symbols read ∧ x.symbols.map Symbol.kind = read.map Token.kind ∧
      q.cursor = p.cursor + (x.count + x.countOf "Grouping") ∧ x.countOf "Literal" = x.countOf "Binary" + 1 := by
  intro read
  have derives : Derives .expression read x := (reads_of_parse h).derives
  refine ⟨derives.symbols_stand, Symbol.map_kind_eq derives.symbols_stand, ?_, derives.wellFormed.complete.countOf_literal⟩
  rw [cursor_of_parse h, Tree.length_symbols]

/-- From the minus sign on, `! - ( nil == true ) ;` is read up to the semicolon. -/
theorem Parser.parse_source_order_grouping :
    let mark (kind : Kind) (lexeme : String) (line : Int) : Token := { kind, lexeme := utf8 lexeme, line }
    let minus := mark .minus "-" 4
    let opener := mark .leftParen "(" 3
    let nil := mark .kwNil "nil" 3
    let equals := mark .equalEqual "==" 7
    let true_ := mark .kwTrue "true" 1
    let closer := mark .rightParen ")" 1
    let p : Parser :=
      { tokens := [mark .bang "!" 4, minus, opener, nil, equals, true_, closer, mark .semicolon ";" 2], cursor := 1 }
    let x : Tree := .unary minus (.grouping 3 (.binary (.literal nil) equals (.literal true_)))
    p.parse = (.ok x, { p with cursor := 7 }) ∧
      List.Forall₂ Symbol.StandsFor x.symbols [minus, opener, nil, equals, true_, closer] ∧
      7 = 1 + (x.count + x.countOf "Grouping") ∧ x.countOf "Literal" = x.countOf "Binary" + 1 := by
  intro mark minus opener nil equals true_ closer p x
  have h : p.parse = (.ok x, { p with cursor := 7 }) := rfl
  obtain ⟨hstand, -, hcursor, hliterals⟩ := Parser.parse_source_order h
  exact ⟨h, hstand, hcursor, hliterals⟩

end ExprLang
