import ExprLang.Tree.Evaluator

/-!
# Types decide evaluation

Whether an expression has a value, and of which type, is known without computing it. So is the complaint of one that has
none.

* `Tree.Complete` — no operand is missing from the tree;
* `ValueType.ofLiteral?`, `ValueType.unary?`, `ValueType.binary?` — the types that literals and operators give;
* `Tree.typeOf` — the type of a complete tree, or the first complaint: left operand, right operand, operator;
* `Tree.evaluate_agrees` — evaluation ends as `Tree.typeOf` says;
* `Tree.typeOf_withoutValues` — the numbers and texts of the tokens do not matter to it.
-/

namespace ExprLang

/-! ## Types of literals and operators -/

namespace ValueType

/-- The type of a literal. -/
def ofLiteral? : Kind → Option ValueType
  | .number => some .number
  | .string => some .string
  | .kwTrue | .kwFalse => some .boolean
  | .kwNil => some .nil
  | _ => none

/-- The type that a unary operator gives. -/
def unary? : (op : Kind) → (operand : ValueType) → Option ValueType
  | .minus, .number => some .number
  | .bang, _ => some .boolean
  | _, _ => none

/-- The operators that make a number of two numbers. -/
def arithmetic : List Kind := [.plus, .minus, .star, .slash]

/-- The operators that compare two numbers. -/
def comparisons : List Kind := [.greater, .greaterEqual, .less, .lessEqual, .equalEqual, .bangEqual]

/-- The operators that apply to two operands of which only equality is known. -/
def equalities : List Kind := [.equalEqual, .bangEqual]

/-- The type that a binary operator gives. -/
def binary? (left : ValueType) (op : Kind) (right : ValueType) : Option ValueType :=
  match left, right with
  | .number, .number => if op ∈ arithmetic then some .number else if op ∈ comparisons then some .boolean else none
  | .string, .string => if op = .plus then some .string else none
  | .boolean, .boolean => if op ∈ equalities then some .boolean else none
  | .nil, .nil => if op ∈ equalities then some .boolean else none
  | _, _ => none

end ValueType

/-- What is wrong with a node, and its token. -/
structure Complaint where
  token : Token
  message : Bytes

namespace Complaint

/-- A literal of a kind that has no value. -/
def literal (t : Token) : Complaint := ⟨t, utf8 "Unrecognized literal."⟩

/-- A unary operator that does not apply to an operand of the given type. -/
def unary (op : Token) (operand : ValueType) : Complaint where
  token := op
  message :=
    if op.kind = .minus then utf8 "Operand must be a number; got " ++ utf8 operand.name ++ utf8 "."
    else utf8 "Unrecognized unary operator."

/-- A binary operator that does not apply to operands of the given types. -/
def binary (left : ValueType) (op : Token) (right : ValueType) : Complaint where
  token := op
  message := utf8 "Unsupported operands for '" ++ op.lexeme ++ utf8 "': " ++ utf8 left.name ++ utf8 " and " ++
    utf8 right.name ++ utf8 "."

/-- The type that a node has, or else the complaint about it. -/
def orType (c : Complaint) : Option ValueType → Except Complaint ValueType
  | some τ => .ok τ
  | none => .error c

end Complaint

/-! ## The type of a tree -/

namespace Tree

/-- No operand is missing. -/
def Complete : Tree → Prop
  | .missing => False
  | .literalAt _ _ => True
  | .grouping _ x => x.Complete
  | .unaryAt _ _ x => x.Complete
  | .binaryAt _ x _ y => x.Complete ∧ y.Complete

/-- The type of a complete tree, or the first complaint about it. -/
def typeOf : (x : Tree) → x.Complete → Except Complaint ValueType
  | .missing, h => h.elim
  | .literalAt _ t, _ => (Complaint.literal t).orType (ValueType.ofLiteral? t.kind)
  | .grouping _ x, h => x.typeOf h
  | .unaryAt _ op x, h =>
    match x.typeOf h with
    | .ok τ => (Complaint.unary op τ).orType (ValueType.unary? op.kind τ)
    | .error c => .error c
  | .binaryAt _ x op y, h =>
    match x.typeOf h.1 with
    | .ok τ =>
      match y.typeOf h.2 with
      | .ok υ => (Complaint.binary τ op υ).orType (ValueType.binary? τ op.kind υ)
      | .error c => .error c
    | .error c => .error c

end Tree

/-! ## Evaluation ends as the types say -/

/-- An evaluation ends as foretold: with a value of the type, or with the complaint at its token. -/
inductive Agrees : Except Fault Value → Except Complaint ValueType → Prop where
  | value {v : Value} {τ : ValueType} (type : v.type = τ) (known : τ ≠ .unknown) : Agrees (.ok v) (.ok τ)
  | complaint {e : RuntimeError} {c : Complaint} (token : e.token = c.token) (message : e.message = c.message) :
      Agrees (.error (.runtime e)) (.error c)

namespace Agrees

variable {r : Except Fault Value} {p : Except Complaint ValueType}

theorem ok_iff {τ : ValueType} (h : Agrees r p) : (∃ v, r = .ok v ∧ v.type = τ) ↔ p = .ok τ := by
  cases h with
  | value type => simp [type]
  | complaint => simp

theorem error_iff {t : Token} {m : Bytes} (h : Agrees r p) :
    (∃ e, r = .error (.runtime e) ∧ e.token = t ∧ e.message = m) ↔ p = .error ⟨t, m⟩ := by
  cases h with
  | value => simp
  | @complaint e c token message =>
    constructor
    · rintro ⟨_, ⟨⟩, rfl, rfl⟩
      rw [token, message]
    · intro hc
      cases hc
      exact ⟨e, rfl, token, message⟩

theorem name_ne_unknown {v : Value} (h : Agrees r p) (hv : r = .ok v) : v.type.name ≠ "unknown" := by
  cases h with
  | @value _ τ type known =>
    cases hv
    rw [type]
    cases τ with
    | unknown => exact absurd rfl known
    | _ => decide
  | complaint => cases hv

end Agrees

namespace Value

theorem ofLiteral_agrees (t : Token) :
    Agrees ((ofLiteral t).mapError .runtime) ((Complaint.literal t).orType (ValueType.ofLiteral? t.kind)) := by
  unfold ofLiteral ValueType.ofLiteral?
  cases t.kind
  case number => exact .value rfl (by decide)
  case string => exact .value rfl (by decide)
  case kwTrue => exact .value rfl (by decide)
  case kwFalse => exact .value rfl (by decide)
  case kwNil => exact .value rfl (by decide)
  all_goals exact .complaint rfl rfl

theorem applyUnary_agrees (op : Token) (v : Value) :
    Agrees ((applyUnary op v).mapError .runtime)
      ((Complaint.unary op v.type).orType (ValueType.unary? op.kind v.type)) := by
  unfold applyUnary
  cases hk : op.kind with
  | bang => exact .value rfl (by decide)
  | minus =>
    have hmessage : (Complaint.unary op v.type).message =
        utf8 "Operand must be a number; got " ++ utf8 v.type.name ++ utf8 "." := by simp [Complaint.unary, hk]
    cases v with
    | number x => exact .value rfl (by decide)
    | _ => exact .complaint rfl hmessage.symm
  | _ =>
    have hmessage : (Complaint.unary op v.type).message = utf8 "Unrecognized unary operator." := by
      simp [Complaint.unary, hk]
    exact .complaint rfl hmessage.symm

theorem map_type_onNumbers? (op : Kind) (x y : Float) :
    (onNumbers? op x y).map type = ValueType.binary? .number op .number := by
  cases op <;> rfl

theorem map_type_onStrings? (op : Kind) (x y : Bytes) :
    (onStrings? op x y).map type = ValueType.binary? .string op .string := by
  cases op <;> rfl

theorem map_type_onEquality? (op : Kind) (same : Bool) :
    (onEquality? op same).map type = if op ∈ ValueType.equalities then some .boolean else none := by
  cases op <;> rfl

theorem binary?_ne_unknown (left : ValueType) (op : Kind) (right : ValueType) :
    ValueType.binary? left op right ≠ some .unknown := by
  fun_cases ValueType.binary? left op right <;> simp

/-- A partial operation that has a value of the foretold type, and else the complaint. -/
theorem agrees_of_map_type {r : Option Value} {τ : Option ValueType} {e : RuntimeError} {c : Complaint}
    (htype : r.map type = τ) (known : τ ≠ some .unknown) (token : e.token = c.token) (message : e.message = c.message) :
    Agrees ((match r with | some v => Except.ok v | none => Except.error e).mapError .runtime) (c.orType τ) := by
  subst htype
  cases r with
  | none => exact .complaint token message
  | some v => exact .value rfl fun h => known (congrArg some h)

theorem applyBinary_agrees (x : Value) (op : Token) (y : Value) :
    Agrees ((applyBinary x op y).mapError .runtime)
      ((Complaint.binary x.type op y.type).orType (ValueType.binary? x.type op.kind y.type)) := by
  have known := binary?_ne_unknown x.type op.kind y.type
  -- off the diagonal no operator applies, whatever its kind
  cases x with
  | number a =>
    cases y with
    | number b => exact agrees_of_map_type (map_type_onNumbers? op.kind a b) known rfl rfl
    | _ => exact .complaint rfl rfl
  | string a =>
    cases y with
    | string b => exact agrees_of_map_type (map_type_onStrings? op.kind a b) known rfl rfl
    | _ => exact .complaint rfl rfl
  | boolean a =>
    cases y with
    | boolean b => exact agrees_of_map_type (map_type_onEquality? op.kind (a == b)) known rfl rfl
    | _ => exact .complaint rfl rfl
  | nil =>
    cases y with
    | nil => exact agrees_of_map_type (map_type_onEquality? op.kind true) known rfl rfl
    | _ => exact .complaint rfl rfl
  | absent => exact .complaint rfl rfl

end Value

namespace Tree

/-- **Evaluation ends as the type of the tree says.** -/
theorem evaluate_agrees (x : Tree) (h : x.Complete) : Agrees x.evaluate (x.typeOf h) := by
  induction x with
  | missing => exact h.elim
  | literalAt line t => exact Value.ofLiteral_agrees t
  | grouping _ x ih => exact ih h
  | unaryAt line op x ih =>
    have hx := ih h
    unfold evaluate typeOf
    generalize x.evaluate = r, x.typeOf h = s at hx
    cases hx with
    | @value v τ type known =>
      subst type
      exact Value.applyUnary_agrees op v
    | complaint token message => exact .complaint token message
  | binaryAt line x op y ihx ihy =>
    have hx := ihx h.1
    have hy := ihy h.2
    unfold evaluate typeOf
    generalize x.evaluate = r, x.typeOf h.1 = s at hx
    cases hx with
    | complaint token message => exact .complaint token message
    | @value v τ type known =>
      generalize y.evaluate = r, y.typeOf h.2 = s at hy
      cases hy with
      | complaint token message => exact .complaint token message
      | @value w υ type' known' =>
        subst type type'
        exact Value.applyBinary_agrees v op w

end Tree

/-! ## Numbers and texts do not matter -/

/-- The token without the number and the text it denotes. -/
def Token.withoutValue (t : Token) : Token := { t with number := 0, text := [] }

/-- The same complaint at the token without its value. -/
def Complaint.withoutValue (c : Complaint) : Complaint := { c with token := c.token.withoutValue }

theorem Complaint.mapError_orType (c : Complaint) (τ : Option ValueType) :
    (c.orType τ).mapError Complaint.withoutValue = c.withoutValue.orType τ := by
  cases τ <;> rfl

namespace Tree

/-- The tree without the numbers and texts of its tokens. -/
def withoutValues : Tree → Tree
  | .missing => .missing
  | .literalAt line t => .literalAt line t.withoutValue
  | .grouping line x => .grouping line x.withoutValues
  | .unaryAt line op x => .unaryAt line op.withoutValue x.withoutValues
  | .binaryAt line x op y => .binaryAt line x.withoutValues op.withoutValue y.withoutValues

theorem complete_withoutValues (x : Tree) : x.withoutValues.Complete ↔ x.Complete := by
  induction x with
  | missing => exact Iff.rfl
  | literalAt line t => exact Iff.rfl
  | grouping line x ih => exact ih
  | unaryAt line op x ih => exact ih
  | binaryAt line x op y ihx ihy => exact and_congr ihx ihy

/-- **Types are found without the numbers and texts of the tokens.** -/
theorem typeOf_withoutValues (x : Tree) (h : x.Complete) (h' : x.withoutValues.Complete) :
    x.withoutValues.typeOf h' = (x.typeOf h).mapError Complaint.withoutValue := by
  induction x with
  | missing => exact h.elim
  | literalAt line t => exact ((Complaint.literal t).mapError_orType _).symm
  | grouping _ x ih => exact ih h h'
  | unaryAt line op x ih =>
    simp only [withoutValues, typeOf, ih h h']
    cases x.typeOf h with
    | error c => rfl
    | ok τ => exact ((Complaint.unary op τ).mapError_orType _).symm
  | binaryAt line x op y ihx ihy =>
    simp only [withoutValues, typeOf, ihx h.1 h'.1, ihy h.2 h'.2]
    cases x.typeOf h.1 with
    | error c => rfl
    | ok τ =>
      cases y.typeOf h.2 with
      | error c => rfl
      | ok υ => exact ((Complaint.binary τ op υ).mapError_orType _).symm

end Tree

/-- Two evaluations end alike: with values of one type, or with one message at tokens that differ in their values
only. -/
inductive Alike : Except Fault Value → Except Fault Value → Prop where
  | values {v w : Value} (type : v.type = w.type) : Alike (.ok v) (.ok w)
  | errors {e f : RuntimeError} (token : e.token.withoutValue = f.token.withoutValue) (message : e.message = f.message) :
      Alike (.error (.runtime e)) (.error (.runtime f))

theorem Agrees.alike {r s : Except Fault Value} {p q : Except Complaint ValueType} (hr : Agrees r p) (hs : Agrees s q)
    (h : p.mapError Complaint.withoutValue = q.mapError Complaint.withoutValue) : Alike r s := by
  cases hr with
  | value type =>
    cases hs with
    | value type' => exact .values (type.trans ((Except.ok.inj h).trans type'.symm))
    | complaint => cases h
  | @complaint e c token message =>
    cases hs with
    | value => cases h
    | @complaint f d token' message' =>
      obtain ⟨htoken, hmessage⟩ := Complaint.mk.inj (Except.error.inj h)
      refine .errors ?_ (message.trans (hmessage.trans message'.symm))
      rw [token, token']
      exact htoken

namespace Tree

/-- **Types decide evaluation.** A complete tree has a value of the type that is found for it, which is never unknown,
and has no value exactly if there is a complaint, which is that of the evaluation. Trees that differ in the numbers and
texts of their tokens only are evaluated alike. -/
theorem evaluate_iff_typeOf (x : Tree) (h : x.Complete) :
    (∀ τ, (∃ v, x.evaluate = .ok v ∧ v.type = τ) ↔ x.typeOf h = .ok τ) ∧
      (∀ v, x.evaluate = .ok v → v.type.name ≠ "unknown") ∧
      (∀ t m, (∃ e, x.evaluate = .error (.runtime e) ∧ e.token = t ∧ e.message = m) ↔ x.typeOf h = .error ⟨t, m⟩) ∧
      ∀ y : Tree, y.withoutValues = x.withoutValues → Alike x.evaluate y.evaluate := by
  have hx := x.evaluate_agrees h
  refine ⟨fun τ => hx.ok_iff, fun v hv => hx.name_ne_unknown hv, fun t m => hx.error_iff, ?_⟩
  intro y hy
  have hcomplete : y.Complete := by
    rw [← complete_withoutValues, hy, complete_withoutValues]
    exact h
  refine hx.alike (y.evaluate_agrees hcomplete) ?_
  rw [← typeOf_withoutValues x h ((complete_withoutValues x).2 h),
    ← typeOf_withoutValues y hcomplete ((complete_withoutValues y).2 hcomplete)]
  simp only [hy]

/-- In `1 + -"a"` the minus sign complains before the plus sign can. -/
theorem evaluate_negated_string :
    let one : Token := { kind := .number, lexeme := utf8 "1", line := 1, number := 1 }
    let plus : Token := { kind := .plus, lexeme := utf8 "+", line := 1 }
    let minus : Token := { kind := .minus, lexeme := utf8 "-", line := 2 }
    let a : Token := { kind := .string, lexeme := utf8 "\"a\"", line := 2, text := utf8 "a" }
    let x : Tree := .binary (.literal one) plus (.unary minus (.literal a))
    x.Complete ∧ ∃ e, x.evaluate = .error (.runtime e) ∧ e.token = minus ∧
      e.message = utf8 "Operand must be a number; got " ++ utf8 "string" ++ utf8 "." := by
  intro one plus minus a x
  have h : x.Complete := ⟨trivial, trivial⟩
  exact ⟨h, ((evaluate_iff_typeOf x h).2.2.1 _ _).2 rfl⟩

end Tree

end ExprLang
