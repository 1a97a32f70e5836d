import ExprLang.Token.Basic

/-!
# Expression trees

* `Tree` — literals, groupings, unary and binary expressions, each with its line; `Tree.missing` stands where an
  operand is absent, which happens in trees built by hand only;
* `Tree.literal`, `Tree.unary`, `Tree.binary` — nodes that keep the line of the token they start with;
* `Tree.visits enter` — the nodes in pre-order, without the parts below nodes that `enter` refuses; it may tell equal
  nodes apart by their addresses, and `Tree.walk` is a walk that does not;
* `Tree.count`, `Tree.depth` — number of nodes and height.
-/

namespace ExprLang

/-- An expression. In a tree built by hand the lines of the nodes may be any. -/
inductive Tree where
  | missing
  | literalAt (line : Int) (token : Token)
  | grouping (line : Int) (x : Tree)
  | unaryAt (line : Int) (op : Token) (x : Tree)
  | binaryAt (line : Int) (x : Tree) (op : Token) (y : Tree)
  deriving DecidableEq

/-- The place of a node in a tree: which operand it is, then the address of the node it is an operand of. -/
abbrev Address := List Nat

namespace Tree

/-- The line that a node keeps. -/
def line? : Tree → Option Int
  | .missing => none
  | .literalAt line _ => some line
  | .grouping line _ => some line
  | .unaryAt line _ _ => some line
  | .binaryAt line _ _ _ => some line

/-! ## Nodes on the line they start on -/

/-- A literal, on the line of its token. -/
abbrev literal (t : Token) : Tree := .literalAt t.line t

/-- A unary expression, on the line of its operator. -/
abbrev unary (op : Token) (x : Tree) : Tree := .unaryAt op.line op x

/-- A binary expression, on the line of its left operand, or on that of its operator if there is none. -/
abbrev binary (x : Tree) (op : Token) (y : Tree) : Tree := .binaryAt (x.line?.getD op.line) x op y

/-- The binary expression with the given operands, `none` if there is no left one to take its line from. -/
def binary? (x : Tree) (op : Token) (y : Tree) : Option Tree := x.line?.map fun line => .binaryAt line x op y

/-- The word for the shape of a node. -/
def shape : Tree → String
  | .missing => "<nil>"
  | .literalAt .. => "Literal"
  | .grouping .. => "Grouping"
  | .unaryAt .. => "Unary"
  | .binaryAt .. => "Binary"

/-! ## Walks -/

/-- The nodes in pre-order with their addresses, followed by `rest`, for a tree that stands at the address `p`. Below a
node that `enter` refuses nothing is visited. -/
def visitsOnto (enter : Address → Tree → Bool) :
    (p : Address) → Tree → (rest : List (Address × Tree)) → List (Address × Tree)
  | _, .missing, rest => rest
  | p, .literalAt line t, rest => (p, .literalAt line t) :: rest
  | p, .grouping line x, rest =>
    (p, .grouping line x) :: if enter p (.grouping line x) then visitsOnto enter (0 :: p) x rest else rest
  | p, .unaryAt line op x, rest =>
    (p, .unaryAt line op x) :: if enter p (.unaryAt line op x) then visitsOnto enter (0 :: p) x rest else rest
  | p, .binaryAt line x op y, rest =>
    (p, .binaryAt line x op y) ::
      if enter p (.binaryAt line x op y) then visitsOnto enter (0 :: p) x (visitsOnto enter (1 :: p) y rest) else rest

/-- The nodes in pre-order with their addresses, for a tree that stands at the address `p`. Below a node that `enter`
refuses nothing is visited. -/
def visits (enter : Address → Tree → Bool) (p : Address) (x : Tree) : List (Address × Tree) := visitsOnto enter p x []

theorem visitsOnto_append (enter : Address → Tree → Bool) : ∀ (p : Address) (x : Tree) (a b : List (Address × Tree)),
    visitsOnto enter p x (a ++ b) = visitsOnto enter p x a ++ b
  | _, .missing, _, _ => rfl
  | _, .literalAt _ _, _, _ => rfl
  | p, .grouping line x, a, b => by
    by_cases h : enter p (.grouping line x) <;> simp [visitsOnto, h, visitsOnto_append enter _ x]
  | p, .unaryAt line op x, a, b => by
    by_cases h : enter p (.unaryAt line op x) <;> simp [visitsOnto, h, visitsOnto_append enter _ x]
  | p, .binaryAt line x op y, a, b => by
    by_cases h : enter p (.binaryAt line x op y) <;>
      simp [visitsOnto, h, visitsOnto_append enter _ x, visitsOnto_append enter _ y]

theorem visitsOnto_eq (enter : Address → Tree → Bool) (p : Address) (x : Tree) (rest : List (Address × Tree)) :
    visitsOnto enter p x rest = x.visits enter p ++ rest := by
  simpa [visits] using visitsOnto_append enter p x [] rest

section

variable (enter : Address → Tree → Bool) (p : Address) (line : Int) (t op : Token) (x y : Tree)

theorem visits_missing : visits enter p .missing = [] := rfl

theorem visits_literalAt : visits enter p (.literalAt line t) = [(p, .literalAt line t)] := rfl

theorem visits_grouping :
    visits enter p (.grouping line x) =
      (p, .grouping line x) :: if enter p (.grouping line x) then x.visits enter (0 :: p) else [] := rfl

theorem visits_unaryAt :
    visits enter p (.unaryAt line op x) =
      (p, .unaryAt line op x) :: if enter p (.unaryAt line op x) then x.visits enter (0 :: p) else [] := rfl

theorem visits_binaryAt :
    visits enter p (.binaryAt line x op y) =
      (p, .binaryAt line x op y) ::
        if enter p (.binaryAt line x op y) then x.visits enter (0 :: p) ++ y.visits enter (1 :: p) else [] := by
  rw [visits, visitsOnto, visitsOnto_eq enter (0 :: p) x]
  rfl

end

/-- The nodes in pre-order. Below a node that `enter` refuses nothing is visited. -/
def walk (enter : Tree → Bool) (x : Tree) : List Tree := (x.visits (fun _ => enter) []).map Prod.snd

/-- A walk that does not look at the addresses is the same wherever the tree stands. -/
theorem map_snd_visits (enter : Tree → Bool) (p : Address) (x : Tree) :
    (x.visits (fun _ => enter) p).map Prod.snd = x.walk enter := by
  unfold walk
  induction x generalizing p with
  | missing => rfl
  | literalAt line t => rfl
  | grouping line x ih =>
    rw [visits_grouping, visits_grouping, List.map_cons, List.map_cons]
    split
    · rw [ih (0 :: p), ih [0]]
    · rfl
  | unaryAt line op x ih =>
    rw [visits_unaryAt, visits_unaryAt, List.map_cons, List.map_cons]
    split
    · rw [ih (0 :: p), ih [0]]
    · rfl
  | binaryAt line x op y ihx ihy =>
    rw [visits_binaryAt, visits_binaryAt, List.map_cons, List.map_cons]
    split
    · rw [List.map_append, List.map_append, ihx (0 :: p), ihx [0], ihy (1 :: p), ihy [1]]
    · rfl

section

variable (enter : Tree → Bool) (line : Int) (t op : Token) (x y : Tree)

theorem walk_missing : walk enter .missing = [] := rfl

theorem walk_literalAt : walk enter (.literalAt line t) = [.literalAt line t] := rfl

theorem walk_grouping :
    walk enter (.grouping line x) = .grouping line x :: if enter (.grouping line x) then x.walk enter else [] := by
  rw [walk, visits_grouping, List.map_cons]
  split
  · rw [map_snd_visits]
  · rfl

theorem walk_unaryAt :
    walk enter (.unaryAt line op x) =
      .unaryAt line op x :: if enter (.unaryAt line op x) then x.walk enter else [] := by
  rw [walk, visits_unaryAt, List.map_cons]
  split
  · rw [map_snd_visits]
  · rfl

theorem walk_binaryAt :
    walk enter (.binaryAt line x op y) =
      .binaryAt line x op y :: if enter (.binaryAt line x op y) then x.walk enter ++ y.walk enter else [] := by
  rw [walk, visits_binaryAt, List.map_cons]
  split
  · rw [List.map_append, map_snd_visits, map_snd_visits]
  · rfl

end

/-! ## Sizes -/

/-- The number of nodes. -/
def count (x : Tree) : Nat := (x.walk fun _ => true).length

section

variable (line : Int) (t op : Token) (x y : Tree)

@[simp] theorem count_missing : count .missing = 0 := rfl

@[simp] theorem count_literalAt : count (.literalAt line t) = 1 := rfl

@[simp] theorem count_grouping : count (.grouping line x) = x.count + 1 := by
  simp [count, walk_grouping]

@[simp] theorem count_unaryAt : count (.unaryAt line op x) = x.count + 1 := by
  simp [count, walk_unaryAt]

@[simp] theorem count_binaryAt : count (.binaryAt line x op y) = x.count + y.count + 1 := by
  simp [count, walk_binaryAt]

end

/-- The number of nodes on a longest path from the root. -/
def depth : Tree → Nat
  | .missing => 0
  | .literalAt _ _ => 1
  | .grouping _ x => x.depth + 1
  | .unaryAt _ _ x => x.depth + 1
  | .binaryAt _ x _ y => max x.depth y.depth + 1

end Tree

end ExprLang
