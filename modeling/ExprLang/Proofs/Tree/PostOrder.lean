import ExprLang.Failure
import ExprLang.Proofs.Tree.Typing

/-!
# Evaluation in post-order

The nodes of a tree are put in a row: those of the left operand, those of the right one, then the node itself. Evaluation
goes along that row and stops at the first node whose own step fails.

* `Tree.postOrder` — the row, in which a missing operand has a place of its own;
* `Tree.step` — what a node does with the values of its operands, and `Tree.FailsBy` — that this fails;
* `Tree.trace` — evaluation with a record of the steps it makes;
* `Tree.follows_trace` — the steps are made along the row, up to the first one that fails;
* `Tree.evaluate_stops` — the place where an evaluation without a value has stopped.
-/

namespace ExprLang

namespace Tree

/-! ## Nodes in a row -/

/-- The nodes of a tree in post-order. -/
def postOrder : Tree → List Tree
  | .missing => [.missing]
  | .literalAt line t => [.literalAt line t]
  | .grouping line x => x.postOrder ++ [.grouping line x]
  | .unaryAt line op x => x.postOrder ++ [.unaryAt line op x]
  | .binaryAt line x op y => x.postOrder ++ (y.postOrder ++ [.binaryAt line x op y])

/-- The operands of a node, from left to right. -/
def operands : Tree → List Tree
  | .missing => []
  | .literalAt _ _ => []
  | .grouping _ x => [x]
  | .unaryAt _ _ x => [x]
  | .binaryAt _ x _ y => [x, y]

/-- The literal or the operator of a node. -/
def token? : Tree → Option Token
  | .missing => none
  | .literalAt _ t => some t
  | .grouping _ _ => none
  | .unaryAt _ op _ => some op
  | .binaryAt _ _ op _ => some op

/-- What a node does by itself, given the values of its operands. -/
def step : Tree → (values : List Value) → Except Fault Value
  | .literalAt _ t, [] => (Value.ofLiteral t).mapError .runtime
  | .grouping _ _, [v] => .ok v
  | .unaryAt _ op _, [v] => (Value.applyUnary op v).mapError .runtime
  | .binaryAt _ _ op _, [v, w] => (Value.applyBinary v op w).mapError .runtime
  | _, _ => .error .missingOperand

/-- The operands have the given values. -/
def OperandValues (x : Tree) (values : List Value) : Prop := x.operands.map evaluate = values.map .ok

/-- The operands have values, and the step of the node itself fails. -/
def FailsBy (x : Tree) (fault : Fault) : Prop := ∃ values, x.OperandValues values ∧ x.step values = .error fault

variable {x y : Tree} {values : List Value} {fault : Fault}

theorem exists_pair_of_operandValues {line : Int} {op : Token} (h : (binaryAt line x op y).OperandValues values) :
    ∃ v w, values = [v, w] ∧ x.evaluate = .ok v ∧ y.evaluate = .ok w := by
  obtain ⟨v, rest, rfl, hv, hrest⟩ := List.map_eq_cons_iff.1 h.symm
  obtain ⟨w, rfl, hw⟩ := List.map_eq_singleton_iff.1 hrest
  exact ⟨v, w, rfl, hv.symm, hw.symm⟩

/-- A node whose operands have values is evaluated by its own step. -/
theorem evaluate_eq_step (h : x.OperandValues values) : x.evaluate = x.step values := by
  cases x with
  | missing =>
    obtain rfl := List.map_eq_nil_iff.1 h.symm
    rfl
  | literalAt line t =>
    obtain rfl := List.map_eq_nil_iff.1 h.symm
    rfl
  | grouping line x =>
    obtain ⟨v, rfl, hv⟩ := List.map_eq_singleton_iff.1 h.symm
    exact hv.symm
  | unaryAt line op x =>
    obtain ⟨v, rfl, hv⟩ := List.map_eq_singleton_iff.1 h.symm
    rw [evaluate, ← hv]
    rfl
  | binaryAt line x op y =>
    obtain ⟨v, w, rfl, hv, hw⟩ := exists_pair_of_operandValues h
    rw [evaluate, hv, hw]
    rfl

theorem FailsBy.evaluate_eq (h : x.FailsBy fault) : x.evaluate = .error fault := by
  obtain ⟨values, hvalues, hstep⟩ := h
  rw [evaluate_eq_step hvalues, hstep]

theorem token_of_agrees {r : Except Fault Value} {c : Complaint} {τ : Option ValueType} (h : Agrees r (c.orType τ))
    (hr : r = .error fault) : ∃ e, fault = .runtime e ∧ e.token = c.token := by
  cases τ with
  | some τ =>
    cases h
    cases hr
  | none =>
    cases h with
    | @complaint e _ token _ =>
      cases hr
      exact ⟨e, rfl, token⟩

/-- **A step that fails is at a missing operand, or complains of the token of its node.** -/
theorem FailsBy.blame (h : x.FailsBy fault) :
    (x = .missing ∧ fault = .missingOperand) ∨ ∃ e, fault = .runtime e ∧ x.token? = some e.token := by
  have heval := h.evaluate_eq
  obtain ⟨values, hvalues, hstep⟩ := h
  cases x with
  | missing =>
    cases heval
    exact .inl ⟨rfl, rfl⟩
  | literalAt line t =>
    obtain ⟨e, rfl, he⟩ := token_of_agrees (Value.ofLiteral_agrees t) heval
    exact .inr ⟨e, rfl, congrArg some he.symm⟩
  | grouping line x =>
    obtain ⟨v, rfl, -⟩ := List.map_eq_singleton_iff.1 hvalues.symm
    cases hstep
  | unaryAt line op x =>
    obtain ⟨v, rfl, -⟩ := List.map_eq_singleton_iff.1 hvalues.symm
    obtain ⟨e, rfl, he⟩ := token_of_agrees (Value.applyUnary_agrees op v) hstep
    exact .inr ⟨e, rfl, congrArg some he.symm⟩
  | binaryAt line x op y =>
    obtain ⟨v, w, rfl, -, -⟩ := exists_pair_of_operandValues hvalues
    obtain ⟨e, rfl, he⟩ := token_of_agrees (Value.applyBinary_agrees v op w) hstep
    exact .inr ⟨e, rfl, congrArg some he.symm⟩

/-! ## Evaluation with a record of its steps -/

/-- A step that has been made: a node, and the values that it has been given. -/
structure Application where
  node : Tree
  values : List Value

/-- How an evaluation has ended, and the steps it has made. -/
structure Trace where
  steps : List Application
  result : Except Fault Value

namespace Trace

/-- A single step. -/
def single (x : Tree) (values : List Value) : Trace := ⟨[⟨x, values⟩], x.step values⟩

/-- Goes on with a value; a fault ends the evaluation where it is. -/
def andThen (t : Trace) (f : Value → Trace) : Trace :=
  match t.result with
  | .ok v => ⟨t.steps ++ (f v).steps, (f v).result⟩
  | .error fault => ⟨t.steps, .error fault⟩

end Trace

/-- The evaluation of a tree, with a record of its steps. -/
def trace : Tree → Trace
  | .missing => .single .missing []
  | .literalAt line t => .single (.literalAt line t) []
  | .grouping line x => x.trace.andThen fun v => .single (.grouping line x) [v]
  | .unaryAt line op x => x.trace.andThen fun v => .single (.unaryAt line op x) [v]
  | .binaryAt line x op y =>
    x.trace.andThen fun v => y.trace.andThen fun w => .single (.binaryAt line x op y) [v, w]

/-- The record does not change how the evaluation ends. -/
theorem result_trace (x : Tree) : x.trace.result = x.evaluate := by
  induction x with
  | missing => rfl
  | literalAt line t => rfl
  | grouping line x ih =>
    rw [trace, evaluate, Trace.andThen, ih]
    cases x.evaluate <;> rfl
  | unaryAt line op x ih =>
    rw [trace, evaluate, Trace.andThen, ih]
    cases x.evaluate <;> rfl
  | binaryAt line x op y ihx ihy =>
    rw [trace, evaluate, Trace.andThen, ihx]
    cases x.evaluate with
    | error e => rfl
    | ok v =>
      show (y.trace.andThen _).result = _
      rw [Trace.andThen, ihy]
      cases y.evaluate <;> rfl

/-! ## Steps along the row -/

/-- A step that the record may have: the node has been given the values of its operands. -/
def Application.Made (a : Application) : Prop := a.node.OperandValues a.values

/-- The steps of the record are made at the given nodes, in their order. They are made at all of them and give values, or
up to the first one that fails. -/
inductive Follows (nodes : List Tree) : Trace → Prop where
  | value {steps : List Application} {v : Value} (made : ∀ a ∈ steps, a.Made)
      (values : ∀ a ∈ steps, ∃ w, a.node.evaluate = .ok w) (row : steps.map (·.node) = nodes) :
      Follows nodes ⟨steps, .ok v⟩
  | fault {steps : List Application} {last : Application} {fault : Fault} (rest : List Tree)
      (made : ∀ a ∈ steps ++ [last], a.Made) (values : ∀ a ∈ steps, ∃ w, a.node.evaluate = .ok w)
      (fails : last.node.step last.values = .error fault) (row : steps.map (·.node) ++ last.node :: rest = nodes) :
      Follows nodes ⟨steps ++ [last], .error fault⟩

theorem follows_single (h : x.OperandValues values) : Follows [x] (.single x values) := by
  have hmade : ∀ a ∈ [(⟨x, values⟩ : Application)], a.Made := List.forall_mem_singleton.2 h
  unfold Trace.single
  cases hstep : x.step values with
  | ok v => exact .value hmade (List.forall_mem_singleton.2 ⟨v, (evaluate_eq_step h).trans hstep⟩) rfl
  | error fault =>
    show Follows [x] ⟨[] ++ [⟨x, values⟩], .error fault⟩
    exact .fault [] hmade (List.forall_mem_nil _) hstep rfl

/-- What comes after a value follows the nodes after those of the value; what comes after a fault is not done. -/
theorem Follows.andThen {nodes more : List Tree} {t : Trace} {f : Value → Trace} (h : Follows nodes t)
    (hf : ∀ v, t.result = .ok v → Follows more (f v)) : Follows (nodes ++ more) (t.andThen f) := by
  cases h with
  | @value steps v made values row =>
    have hv := hf v rfl
    unfold Trace.andThen
    dsimp only
    generalize f v = u at hv
    subst row
    cases hv with
    | value made' values' row' =>
      refine .value (List.forall_mem_append.2 ⟨made, made'⟩) (List.forall_mem_append.2 ⟨values, values'⟩) ?_
      rw [List.map_append, row']
    | @fault steps' last fault rest made' values' fails row' =>
      rw [← List.append_assoc]
      refine .fault rest ?_ (List.forall_mem_append.2 ⟨values, values'⟩) fails ?_
      · rw [List.append_assoc]
        exact List.forall_mem_append.2 ⟨made, made'⟩
      · rw [List.map_append, List.append_assoc, row']
  | @fault steps last fault rest made values fails row =>
    subst row
    refine .fault (rest ++ more) made values fails ?_
    rw [List.append_assoc, List.cons_append]

/-- **The steps of an evaluation are made along the post-order of the tree.** -/
theorem follows_trace (x : Tree) : Follows x.postOrder x.trace := by
  induction x with
  | missing => exact follows_single rfl
  | literalAt line t => exact follows_single rfl
  | grouping line x ih =>
    refine ih.andThen fun v hv => follows_single ?_
    rw [result_trace] at hv
    exact congrArg (fun r => [r]) hv
  | unaryAt line op x ih =>
    refine ih.andThen fun v hv => follows_single ?_
    rw [result_trace] at hv
    exact congrArg (fun r => [r]) hv
  | binaryAt line x op y ihx ihy =>
    refine ihx.andThen fun v hv => ihy.andThen fun w hw => follows_single ?_
    rw [result_trace] at hv hw
    show [x.evaluate, y.evaluate] = _
    rw [hv, hw]
    rfl

/-! ## The first node that fails -/

/-- The node at place `i` of a row fails by its own step, and all nodes before it have values. -/
structure FailsFirst (nodes : List Tree) (i : Nat) (y : Tree) : Prop where
  place : nodes[i]? = some y
  before : ∀ z ∈ nodes.take i, ∃ v, z.evaluate = .ok v
  fails : ∃ fault, y.FailsBy fault

/-- A node that fails is not before one that fails first. -/
theorem FailsFirst.le {nodes : List Tree} {i j : Nat} (hi : FailsFirst nodes i x) (hj : FailsFirst nodes j y) : j ≤ i := by
  refine Nat.le_of_not_lt fun hlt => ?_
  obtain ⟨fault, hfault⟩ := hi.fails
  have hmem : x ∈ nodes.take j := List.mem_of_getElem? ((List.getElem?_take_of_lt hlt).trans hi.place)
  obtain ⟨v, hv⟩ := hj.before x hmem
  rw [hfault.evaluate_eq] at hv
  cases hv

/-- A record that ends with a fault has its last step at the first node that fails. -/
theorem Follows.exists_failsFirst {nodes : List Tree} {t : Trace} (h : Follows nodes t) (ht : t.result = .error fault) :
    ∃ i y, FailsFirst nodes i y ∧ y.FailsBy fault ∧ t.steps.map (·.node) = nodes.take (i + 1) ∧
      ∀ a ∈ t.steps, a.Made := by
  cases h with
  | value => cases ht
  | @fault steps last _ rest made values fails row =>
    cases ht
    have hlast : last.node.FailsBy fault := ⟨last.values, made last (by simp), fails⟩
    have hlength : (steps.map (·.node)).length = steps.length := List.length_map _
    subst row
    refine ⟨steps.length, last.node, ⟨?_, ?_, fault, hlast⟩, hlast, ?_, made⟩
    · rw [← hlength, List.getElem?_append_right (Nat.le_refl _), Nat.sub_self, List.getElem?_cons_zero]
    · rw [← hlength, List.take_left]
      exact List.forall_mem_map.2 values
    · rw [← hlength, List.take_length_add_append, List.map_append]
      rfl

/-- **Evaluation stops at the first node in post-order that fails.** If a tree has no value, there is exactly one place in
its post-order where a node fails by its own step and all nodes before it have values. If an operand is missing there,
the evaluation ends with that; else it ends with an error at the literal or the operator of that node. An operand that has
no value decides for every binary expression it is the left operand of, whatever the right one is. The steps of the
evaluation are made at the nodes up to that place and at no others, each of them with the values of its operands. -/
theorem evaluate_stops (x : Tree) (h : ∀ v, x.evaluate ≠ .ok v) :
    ∃ i y, FailsFirst x.postOrder i y ∧ (∀ j z, FailsFirst x.postOrder j z → j = i ∧ z = y) ∧
      ((y = .missing ∧ x.evaluate = .error .missingOperand ∧
          (Failure.ofFault .missingOperand).message = utf8 "interp: unexpected node <nil>") ∨
        ∃ e, x.evaluate = .error (.runtime e) ∧ y.token? = some e.token) ∧
      (∀ op z, (Tree.binary x op z).evaluate = x.evaluate) ∧
      x.trace.result = x.evaluate ∧ x.trace.steps.map (·.node) = x.postOrder.take (i + 1) ∧
      ∀ a ∈ x.trace.steps, a.node.operands.map evaluate = a.values.map .ok := by
  obtain ⟨fault, hfault⟩ : ∃ fault, x.evaluate = .error fault := by
    cases hx : x.evaluate with
    | ok v => exact absurd hx (h v)
    | error fault => exact ⟨fault, rfl⟩
  obtain ⟨i, y, hfirst, hy, hsteps, hmade⟩ := (follows_trace x).exists_failsFirst ((result_trace x).trans hfault)
  refine ⟨i, y, hfirst, fun j z hz => ?_, ?_, fun op z => ?_, result_trace x, hsteps, hmade⟩
  · obtain rfl : j = i := Nat.le_antisymm (hfirst.le hz) (hz.le hfirst)
    exact ⟨rfl, Option.some.inj (hz.place.symm.trans hfirst.place)⟩
  · rw [hfault]
    rcases hy.blame with ⟨rfl, rfl⟩ | ⟨e, rfl, he⟩
    · exact .inl ⟨rfl, rfl, rfl⟩
    · exact .inr ⟨e, rfl, he⟩
  · rw [evaluate, hfault]

/-- In `-"a" + (nothing)` the minus sign complains, and nothing is done about the missing operand. -/
theorem evaluate_stops_before_missing :
    let minus : Token := { kind := .minus, lexeme := utf8 "-", line := 1 }
    let plus : Token := { kind := .plus, lexeme := utf8 "+", line := 2 }
    let a : Token := { kind := .string, lexeme := utf8 "\"a\"", line := 1, text := utf8 "a" }
    let x : Tree := .binary (.unary minus (.literal a)) plus .missing
    (∀ v, x.evaluate ≠ .ok v) ∧ FailsFirst x.postOrder 1 (.unary minus (.literal a)) ∧
      (∃ e, x.evaluate = .error (.runtime e) ∧ e.token = minus) ∧
      x.trace.steps.map (·.node) = [.literal a, .unary minus (.literal a)] := by
  intro minus plus a x
  have h : ∀ v, x.evaluate ≠ .ok v := by
    intro v hv
    cases hv
  have hfirst : FailsFirst x.postOrder 1 (.unary minus (.literal a)) := by
    refine ⟨rfl, ?_, _, [.string (utf8 "a")], rfl, rfl⟩
    exact List.forall_mem_singleton.2 ⟨.string (utf8 "a"), rfl⟩
  obtain ⟨i, y, -, hunique, hblame, -, -, hsteps, -⟩ := evaluate_stops x h
  obtain ⟨rfl, rfl⟩ := hunique 1 _ hfirst
  refine ⟨h, hfirst, ?_, hsteps⟩
  rcases hblame with ⟨hmissing, -, -⟩ | ⟨e, he, htoken⟩
  · cases hmissing
  · exact ⟨e, he, (Option.some.inj htoken).symm⟩

end Tree

end ExprLang
