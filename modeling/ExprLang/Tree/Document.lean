import ExprLang.Json
import ExprLang.Tree.Basic

/-!
# Trees as JSON

`Tree.toJson` describes a tree as a JSON document: an object for every node, its members in alphabetical order, and
`null` where an operand is missing. `Tree.document` is the text of that document, unless it is too deep to be written.
-/

namespace ExprLang.Tree

/-- The value that a literal token denotes, if it is of a kind that denotes one. -/
def literalValue? (t : Token) : Option Json :=
  match t.kind with
  | .number => some (.ofFloat t.number)
  | .string => some (.string t.text)
  | .kwTrue => some (.bool true)
  | .kwFalse => some (.bool false)
  | .kwNil => some .null
  | _ => none

/-- The member that gives the shape of a node. -/
def shapeMember (x : Tree) : Bytes × Json := (utf8 "type", .string (utf8 x.shape))

/-- The member that gives the line of a node. -/
def lineMember (line : Int) : Bytes × Json := (utf8 "line", .int line)

/-- The JSON description of a tree. -/
def toJson : Tree → Json
  | .missing => .null
  | .literalAt line t =>
    .object ([(utf8 "kind", .string t.kind.label), (utf8 "lexeme", .string t.lexeme), lineMember line,
      shapeMember (.literalAt line t)] ++ ((literalValue? t).map fun v => (utf8 "value", v)).toList)
  | .grouping line x =>
    .object [lineMember line, shapeMember (.grouping line x), (utf8 "x", x.toJson)]
  | .unaryAt line op x =>
    .object [lineMember line, (utf8 "op", .string op.lexeme), shapeMember (.unaryAt line op x), (utf8 "x", x.toJson)]
  | .binaryAt line x op y =>
    .object [lineMember line, (utf8 "op", .string op.lexeme), shapeMember (.binaryAt line x op y),
      (utf8 "x", x.toJson), (utf8 "y", y.toJson)]

theorem depth_of_literalValue? {t : Token} {v : Json} (h : literalValue? t = some v) : v.depth = 0 := by
  unfold literalValue? at h
  split at h <;> cases h
  · unfold Json.ofFloat
    split <;> rfl
  all_goals rfl

/-- Only the nodes of a tree are described by objects, so the description is as deep as the tree. -/
theorem depth_toJson : ∀ x : Tree, x.toJson.depth = x.depth
  | .missing => rfl
  | .literalAt line t => by
    cases h : literalValue? t with
    | none => simp [toJson, h, lineMember, shapeMember, Json.depth, Json.membersDepth, depth]
    | some v =>
      simp [toJson, h, lineMember, shapeMember, Json.depth, Json.membersDepth, depth, depth_of_literalValue? h]
  | .grouping line x => by
    simp [toJson, lineMember, shapeMember, Json.depth, Json.membersDepth, depth, depth_toJson x]
  | .unaryAt line op x => by
    simp [toJson, lineMember, shapeMember, Json.depth, Json.membersDepth, depth, depth_toJson x]
  | .binaryAt line x op y => by
    simp [toJson, lineMember, shapeMember, Json.depth, Json.membersDepth, depth, depth_toJson x, depth_toJson y]

/-- The text of the JSON description of a tree, unless that is too deep to be written. -/
def document (x : Tree) : Except Json.Fault Bytes :=
  let doc := x.toJson
  if doc.depth ≤ Json.maxDepth then .ok doc.render else .error .tooDeep

theorem document_of_depth_le {x : Tree} (h : x.depth ≤ 10000) : x.document = .ok x.toJson.render := by
  rw [← depth_toJson] at h
  exact if_pos h

theorem document_of_too_deep {x : Tree} (h : 10000 < x.depth) : x.document = .error .tooDeep := by
  rw [← depth_toJson] at h
  exact if_neg (Nat.not_le.2 h)

end ExprLang.Tree
