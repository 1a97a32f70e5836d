import ExprLang.Tree.Parser

/-!
# The grammar of expressions

The tree of an expression is that of a derivation in a stratified grammar, written here without any parser:

* `Nonterminal` — the strata: the four levels of binary operators, unary expressions, primary expressions;
* `Precedence.operators`, `Kind.unaryOperators`, `Kind.literals` — the terminals, by kind;
* `Derives n ts x` — the tokens `ts` are derived from `n`, and `x` is the tree of the derivation. A level of binary
  operators is folded to the left, unary operators to the right;
* `Derives.loosen` — what a stratum derives, every looser one derives as well.
-/

namespace ExprLang

/-! ## Strata -/

/-- The nonterminals of the grammar. -/
inductive Nonterminal where
  /-- Operands joined by the operators of a level. -/
  | binary (level : Precedence)
  | unary
  | primary
  deriving DecidableEq, Repr

namespace Nonterminal

/-- A whole expression. -/
abbrev expression : Nonterminal := .binary .equality

/-- How tightly what a nonterminal derives holds together. -/
def rank : Nonterminal → Nat
  | binary level => level.rank
  | unary => 5
  | primary => 6

@[simp] theorem rank_binary (level : Precedence) : (binary level).rank = level.rank := rfl

@[simp] theorem rank_unary : unary.rank = 5 := rfl

@[simp] theorem rank_primary : primary.rank = 6 := rfl

theorem rank_inj {m n : Nonterminal} (h : m.rank = n.rank) : m = n := by
  rcases m with ⟨⟨⟩⟩ | _ | _ <;> rcases n with ⟨⟨⟩⟩ | _ | _ <;> simp [rank, Precedence.rank] at h ⊢

theorem rank_le_six (n : Nonterminal) : n.rank ≤ 6 := by
  rcases n with ⟨⟨⟩⟩ | _ | _ <;> decide

end Nonterminal

namespace Precedence

/-- What the operators of a level join: the stratum one tighter. -/
def operand : Precedence → Nonterminal
  | equality => .binary .comparison
  | comparison => .binary .term
  | term => .binary .factor
  | factor => .unary

/-- The operators of a level. -/
def operators : Precedence → List Kind
  | equality => [.bangEqual, .equalEqual]
  | comparison => [.greater, .greaterEqual, .less, .lessEqual]
  | term => [.minus, .plus]
  | factor => [.slash, .star]

@[simp] theorem rank_operand (level : Precedence) : level.operand.rank = level.rank + 1 := by
  cases level <;> rfl

end Precedence

namespace Kind

/-- The operators that stand before an operand. -/
def unaryOperators : List Kind := [.bang, .minus]

/-- The kinds of the literals. -/
def literals : List Kind := [.number, .string, .kwTrue, .kwFalse, .kwNil]

/-- The operators that stand between two operands. -/
def binaryOperators : List Kind :=
  [.equalEqual, .bangEqual, .greater, .greaterEqual, .less, .lessEqual, .plus, .minus, .star, .slash]

theorem isUnaryOperator_iff {k : Kind} : k.isUnaryOperator = true ↔ k ∈ unaryOperators := by
  cases k <;> simp [isUnaryOperator, unaryOperators]

theorem isLiteral_iff {k : Kind} : k.isLiteral = true ↔ k ∈ literals := by
  cases k <;> simp [isLiteral, literals]

theorem precedence?_eq_some_iff {k : Kind} {level : Precedence} :
    k.precedence? = some level ↔ k ∈ level.operators := by
  cases k <;> cases level <;> simp [precedence?, Precedence.operators]

theorem precedence?_eq_none_iff {k : Kind} : k.precedence? = none ↔ k ∉ binaryOperators := by
  cases k <;> simp [precedence?, binaryOperators]

end Kind

/-! ## Derivations -/

/-- `Derives n ts x`: the tokens `ts` are derived from the nonterminal `n`, with the tree `x`. -/
inductive Derives : Nonterminal → List Token → Tree → Prop where
  /-- A single operand of a binary level. -/
  | operand {level : Precedence} {ts : List Token} {x : Tree} (h : Derives level.operand ts x) :
      Derives (.binary level) ts x
  /-- One more operand of a binary level, to the right of those before. -/
  | binary {level : Precedence} {ts us : List Token} {x y : Tree} {op : Token} (left : Derives (.binary level) ts x)
      (mid : op.kind ∈ level.operators) (right : Derives level.operand us y) :
      Derives (.binary level) (ts ++ op :: us) (.binary x op y)
  /-- An expression without a unary operator in front. -/
  | plain {ts : List Token} {x : Tree} (h : Derives .primary ts x) : Derives .unary ts x
  | unary {op : Token} {ts : List Token} {x : Tree} (mark : op.kind ∈ Kind.unaryOperators) (h : Derives .unary ts x) :
      Derives .unary (op :: ts) (.unary op x)
  | literal {t : Token} (h : t.kind ∈ Kind.literals) : Derives .primary [t] (.literal t)
  | grouping {l r : Token} {ts : List Token} {x : Tree} (opening : l.kind = .leftParen)
      (inner : Derives .expression ts x) (closing : r.kind = .rightParen) :
      Derives .primary (l :: ts ++ [r]) (.grouping l.line x)

namespace Derives

variable {n : Nonterminal} {ts : List Token} {x : Tree}

/-- What a stratum derives, every looser one derives as well. -/
theorem loosen (h : Derives n ts x) {m : Nonterminal} (hm : m.rank ≤ n.rank) : Derives m ts x := by
  -- one stratum at a time, by induction on how many there are between the two
  obtain ⟨d, hd⟩ := Nat.exists_eq_add_of_le hm
  induction d generalizing m with
  | zero => exact Nonterminal.rank_inj hd ▸ h
  | succ d ih =>
    rcases m with level | _ | _
    · refine .operand (ih ?_ ?_) <;> simp at hd ⊢ <;> omega
    · refine .plain (ih ?_ ?_) <;> simp at hd ⊢ <;> omega
    · have := n.rank_le_six
      simp at hd
      omega

theorem ne_nil (h : Derives n ts x) : ts ≠ [] := by
  induction h with
  | operand _ ih => exact ih
  | plain _ ih => exact ih
  | binary => simp
  | unary => simp
  | literal => simp
  | grouping => simp

end Derives

end ExprLang
