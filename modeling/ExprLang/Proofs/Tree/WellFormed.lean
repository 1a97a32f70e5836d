import ExprLang.Proofs.Tree.Parsing
import ExprLang.Proofs.Tree.Typing
import ExprLang.Tree.Document
import ExprLang.Tree.Printer

/-!
# What is parsed is well formed

A tree that was parsed has no missing operand, and each of its tokens is of a kind that its node may have. So it is never
refused as malformed by what comes after the parser:

* `Tree.WellFormed among` — such trees, with their tokens from `among`; `Derives.wellFormed` — the grammar derives no other;
* `Tree.Expected` — the complaints that are left to a well-formed tree, and `Tree.evaluate_wellFormed` — no others are made;
* `Tree.walkWith`, `Tree.renderWith`, `Tree.toJsonWith` — walking and writing a tree, with something else to be done at a
  missing operand; on a complete tree it is never done.
-/

namespace ExprLang

namespace Tree

/-- A tree as the grammar makes it, with tokens from `among`. -/
def WellFormed (among : List Token) : Tree → Prop
  | .missing => False
  | .literalAt _ t => t ∈ among ∧ t.kind ∈ Kind.literals
  | .grouping _ x => x.WellFormed among
  | .unaryAt _ op x => (op ∈ among ∧ op.kind ∈ Kind.unaryOperators) ∧ x.WellFormed among
  | .binaryAt _ x op y => x.WellFormed among ∧ (op ∈ among ∧ op.kind ∈ Kind.binaryOperators) ∧ y.WellFormed among

variable {among more : List Token} {x : Tree}

theorem WellFormed.mono (h : x.WellFormed among) (hsub : among ⊆ more) : x.WellFormed more := by
  induction x with
  | missing => exact h
  | literalAt line t => exact ⟨hsub h.1, h.2⟩
  | grouping _ x ih => exact ih h
  | unaryAt line op x ih => exact ⟨⟨hsub h.1.1, h.1.2⟩, ih h.2⟩
  | binaryAt line x op y ihx ihy => exact ⟨ihx h.1, ⟨hsub h.2.1.1, h.2.1.2⟩, ihy h.2.2⟩

theorem WellFormed.complete (h : x.WellFormed among) : x.Complete := by
  induction x with
  | missing => exact h
  | literalAt line t => trivial
  | grouping _ x ih => exact ih h
  | unaryAt line op x ih => exact ih h.2
  | binaryAt line x op y ihx ihy => exact ⟨ihx h.1, ihy h.2.2⟩

end Tree

theorem Precedence.operators_subset (level : Precedence) : level.operators ⊆ Kind.binaryOperators := by
  cases level <;> decide

/-- **The grammar derives well-formed trees only**, of the tokens they are derived from. -/
theorem Derives.wellFormed {n : Nonterminal} {ts : List Token} {x : Tree} (h : Derives n ts x) : x.WellFormed ts := by
  induction h with
  | operand _ ih => exact ih
  | @binary level ts us x y op _ mid _ ihx ihy =>
    refine ⟨ihx.mono ?_, ⟨by simp, level.operators_subset mid⟩, ihy.mono ?_⟩
    · exact List.subset_append_left ts _
    · exact List.subset_append_of_subset_right ts (List.subset_cons_self op us)
  | plain _ ih => exact ih
  | @unary op ts x mark _ ih => exact ⟨⟨List.mem_cons_self, mark⟩, ih.mono (List.subset_cons_self op ts)⟩
  | literal h => exact ⟨List.mem_singleton_self _, h⟩
  | @grouping l r ts x _ _ _ ih =>
    refine ih.mono ?_
    exact List.subset_append_of_subset_left _ (List.subset_cons_self l ts)

/-! ## Evaluation -/

namespace Value

/-- The types of the values that there are. -/
def types : List ValueType := [.number, .string, .boolean, .nil]

theorem type_mem_types {v : Value} (h : v ≠ .absent) : v.type ∈ types := by
  cases v with
  | absent => exact absurd rfl h
  | _ => simp [types, type]

theorem error_of_applyBinary {v w : Value} {op : Token} {e : RuntimeError} (h : applyBinary v op w = .error e) :
    e = ⟨op, .unsupportedOperands v.type w.type⟩ := by
  simp only [applyBinary] at h
  split at h
  · cases h
  · exact (Except.error.inj h).symm

end Value

namespace Tree

/-- The complaints that are left to a well-formed tree: a minus sign before an operand that is no number, and a binary
operator between operands it does not apply to. -/
inductive Expected (among : List Token) : RuntimeError → Prop where
  | operand {op : Token} {τ : ValueType} (mem : op ∈ among) (kind : op.kind = .minus)
      (type : τ ∈ [ValueType.string, .boolean, .nil]) : Expected among ⟨op, .operandNotNumber τ⟩
  | operands {op : Token} {τ υ : ValueType} (mem : op ∈ among) (kind : op.kind ∈ Kind.binaryOperators)
      (left : τ ∈ Value.types) (right : υ ∈ Value.types) : Expected among ⟨op, .unsupportedOperands τ υ⟩

/-- How the evaluation of a well-formed tree may end. -/
inductive Ends (among : List Token) : Except Fault Value → Prop where
  | value {v : Value} (present : v ≠ .absent) : Ends among (.ok v)
  | complaint {e : RuntimeError} (expected : Expected among e) : Ends among (.error (.runtime e))

variable {among : List Token} {t op : Token} {v w : Value}

theorem ends_ofLiteral (h : t.kind ∈ Kind.literals) : Ends among ((Value.ofLiteral t).mapError .runtime) := by
  simp only [Kind.literals, List.mem_cons, List.not_mem_nil, or_false] at h
  unfold Value.ofLiteral
  rcases h with h | h | h | h | h <;> rw [h] <;> exact .value (by simp)

theorem ends_applyUnary (hmem : op ∈ among) (hop : op.kind ∈ Kind.unaryOperators) (hv : v ≠ .absent) :
    Ends among ((Value.applyUnary op v).mapError .runtime) := by
  simp only [Kind.unaryOperators, List.mem_cons, List.not_mem_nil, or_false] at hop
  unfold Value.applyUnary
  rcases hop with hop | hop
  · rw [hop]
    exact .value (by simp)
  · rw [hop]
    cases v with
    | number => exact .value (by simp)
    | absent => exact absurd rfl hv
    | _ => exact .complaint (.operand hmem hop (by simp [Value.type]))

theorem ends_applyBinary (hmem : op ∈ among) (hop : op.kind ∈ Kind.binaryOperators) (hv : v ≠ .absent) (hw : w ≠ .absent) :
    Ends among ((Value.applyBinary v op w).mapError .runtime) := by
  have hagrees := Value.applyBinary_agrees v op w
  cases h : Value.applyBinary v op w with
  | ok u =>
    rw [h] at hagrees
    refine .value fun hu => ?_
    subst hu
    exact hagrees.name_ne_unknown rfl rfl
  | error e =>
    obtain rfl := Value.error_of_applyBinary h
    exact .complaint (.operands hmem hop (Value.type_mem_types hv) (Value.type_mem_types hw))

/-- **A well-formed tree is never refused as malformed.** -/
theorem evaluate_wellFormed {x : Tree} (h : x.WellFormed among) : Ends among x.evaluate := by
  induction x with
  | missing => exact h.elim
  | literalAt line t => exact ends_ofLiteral h.2
  | grouping _ x ih => exact ih h
  | unaryAt line op x ih =>
    have hx := ih h.2
    unfold evaluate
    generalize x.evaluate = r at hx
    cases hx with
    | value present => exact ends_applyUnary h.1.1 h.1.2 present
    | complaint expected => exact .complaint expected
  | binaryAt line x op y ihx ihy =>
    have hx := ihx h.1
    have hy := ihy h.2.2
    unfold evaluate
    generalize x.evaluate = r at hx
    cases hx with
    | complaint expected => exact .complaint expected
    | value present =>
      generalize y.evaluate = s at hy
      cases hy with
      | complaint expected => exact .complaint expected
      | value present' => exact ends_applyBinary h.2.1.1 h.2.1.2 present present'

/-! ## Messages -/

variable {e : RuntimeError}

theorem utf8_append_ne {a b : String} (s : Bytes) (hlen : 3 ≤ (utf8 a).length) (h : (utf8 a).take 3 ≠ (utf8 b).take 3) :
    utf8 a ++ s ≠ utf8 b := by
  intro e
  rw [← e, List.take_append_of_le_length hlen] at h
  exact h rfl

theorem Expected.ne_unrecognized (h : Expected among e) :
    e.message ≠ utf8 "Unrecognized literal." ∧ e.message ≠ utf8 "Unrecognized unary operator." := by
  cases h with
  | operand =>
    simp only [RuntimeError.message, List.append_assoc]
    exact ⟨utf8_append_ne _ (by decide) (by decide), utf8_append_ne _ (by decide) (by decide)⟩
  | operands =>
    simp only [RuntimeError.message, List.append_assoc]
    exact ⟨utf8_append_ne _ (by decide) (by decide), utf8_append_ne _ (by decide) (by decide)⟩

/-! ## Missing operands -/

/-- The nodes in pre-order, with `hole` in the place of a missing operand. -/
def walkWith (hole : List Tree) (enter : Tree → Bool) : Tree → List Tree
  | .missing => hole
  | .literalAt line t => [.literalAt line t]
  | .grouping line x => .grouping line x :: if enter (.grouping line x) then x.walkWith hole enter else []
  | .unaryAt line op x => .unaryAt line op x :: if enter (.unaryAt line op x) then x.walkWith hole enter else []
  | .binaryAt line x op y =>
    .binaryAt line x op y ::
      if enter (.binaryAt line x op y) then x.walkWith hole enter ++ y.walkWith hole enter else []

/-- The text form of a tree, with `hole` in the place of a missing operand. -/
def renderWith (hole : Bytes) : Tree → Bytes
  | .missing => hole
  | .literalAt _ t => utf8 "(Literal " ++ t.lexeme ++ utf8 ")"
  | .grouping _ x => utf8 "(Grouping " ++ x.renderWith hole ++ utf8 ")"
  | .unaryAt _ op x => utf8 "(Unary " ++ op.lexeme ++ utf8 " " ++ x.renderWith hole ++ utf8 ")"
  | .binaryAt _ x op y =>
    utf8 "(Binary " ++ op.lexeme ++ utf8 " " ++ x.renderWith hole ++ utf8 " " ++ y.renderWith hole ++ utf8 ")"

/-- The JSON description of a tree, with `hole` in the place of a missing operand. -/
def toJsonWith (hole : Json) : Tree → Json
  | .missing => hole
  | .literalAt line t => toJson (.literalAt line t)
  | .grouping line x =>
    .object [lineMember line, shapeMember (.grouping line x), (utf8 "x", x.toJsonWith hole)]
  | .unaryAt line op x =>
    .object [lineMember line, (utf8 "op", .string op.lexeme), shapeMember (.unaryAt line op x),
      (utf8 "x", x.toJsonWith hole)]
  | .binaryAt line x op y =>
    .object [lineMember line, (utf8 "op", .string op.lexeme), shapeMember (.binaryAt line x op y),
      (utf8 "x", x.toJsonWith hole), (utf8 "y", y.toJsonWith hole)]

section Holes

variable (x : Tree) (enter : Tree → Bool)

theorem walkWith_nil : x.walkWith [] enter = x.walk enter := by
  induction x with
  | missing => rfl
  | literalAt line t => rfl
  | grouping line x ih => rw [walk_grouping, walkWith, ih]
  | unaryAt line op x ih => rw [walk_unaryAt, walkWith, ih]
  | binaryAt line x op y ihx ihy => rw [walk_binaryAt, walkWith, ihx, ihy]

theorem renderWith_nil : x.renderWith (utf8 "<nil>") = x.render := by
  induction x with
  | missing => exact (List.append_nil _).symm
  | literalAt line t => simp [renderWith, render, renderOnto]
  | grouping line x ih =>
    show _ = (grouping line x).renderOnto []
    rw [renderWith, ih, renderOnto, renderOnto_eq x]
    simp
  | unaryAt line op x ih =>
    show _ = (unaryAt line op x).renderOnto []
    rw [renderWith, ih, renderOnto, renderOnto_eq x]
    simp
  | binaryAt line x op y ihx ihy =>
    show _ = (binaryAt line x op y).renderOnto []
    rw [renderWith, ihx, ihy, renderOnto, renderOnto_eq y, renderOnto_eq x]
    simp

theorem toJsonWith_null : x.toJsonWith .null = x.toJson := by
  induction x with
  | missing => rfl
  | literalAt line t => rfl
  | grouping line x ih => rw [toJsonWith, toJson, ih]
  | unaryAt line op x ih => rw [toJsonWith, toJson, ih]
  | binaryAt line x op y ihx ihy => rw [toJsonWith, toJson, ihx, ihy]

end Holes

section Complete

variable {x : Tree}

theorem Complete.walkWith_eq (h : x.Complete) (hole : List Tree) (enter : Tree → Bool) :
    x.walkWith hole enter = x.walk enter := by
  rw [← walkWith_nil]
  induction x with
  | missing => exact h.elim
  | literalAt line t => rfl
  | grouping line x ih => rw [walkWith, walkWith, ih h]
  | unaryAt line op x ih => rw [walkWith, walkWith, ih h]
  | binaryAt line x op y ihx ihy => rw [walkWith, walkWith, ihx h.1, ihy h.2]

theorem Complete.renderWith_eq (h : x.Complete) (hole : Bytes) : x.renderWith hole = x.render := by
  rw [← renderWith_nil]
  induction x with
  | missing => exact h.elim
  | literalAt line t => rfl
  | grouping line x ih => rw [renderWith, renderWith, ih h]
  | unaryAt line op x ih => rw [renderWith, renderWith, ih h]
  | binaryAt line x op y ihx ihy => rw [renderWith, renderWith, ihx h.1, ihy h.2]

theorem Complete.toJsonWith_eq (h : x.Complete) (hole : Json) : x.toJsonWith hole = x.toJson := by
  rw [← toJsonWith_null]
  induction x with
  | missing => exact h.elim
  | literalAt line t => rfl
  | grouping line x ih => rw [toJsonWith, toJsonWith, ih h]
  | unaryAt line op x ih => rw [toJsonWith, toJsonWith, ih h]
  | binaryAt line x op y ihx ihy => rw [toJsonWith, toJsonWith, ihx h.1, ihy h.2]

end Complete

end Tree

/-- **What the parser accepts is not refused by what comes after it.** A tree that was parsed has a value, or a complaint
about one of the tokens it was parsed from: a minus sign before something that is no number, or a binary operator between
operands it does not apply to. Walking it and writing it meet no missing operand. -/
theorem Parser.parse_accepted {p q : Parser} {x : Tree} (h : p.parse = (.ok x, q)) :
    let read := (p.tokens.take q.cursor).drop p.cursor
    ((∃ v, x.evaluate = .ok v ∧ v ≠ .absent) ∨ ∃ e, x.evaluate = .error (.runtime e) ∧ e.token ∈ read ∧
      ((e.token.kind = .minus ∧ ∃ τ ∈ ["string", "boolean", "nil"],
          e.message = utf8 "Operand must be a number; got " ++ utf8 τ ++ utf8 ".") ∨
        (e.token.kind ∈ Kind.binaryOperators ∧ ∃ τ ∈ ["number", "string", "boolean", "nil"],
          ∃ υ ∈ ["number", "string", "boolean", "nil"], e.message =
            utf8 "Unsupported operands for '" ++ e.token.lexeme ++ utf8 "': " ++ utf8 τ ++ utf8 " and " ++ utf8 υ ++
              utf8 ".")) ∧
      e.message ≠ utf8 "Unrecognized literal." ∧ e.message ≠ utf8 "Unrecognized unary operator.") ∧
    (∀ hole enter, x.walkWith hole enter = x.walk enter) ∧ (∀ hole, x.renderWith hole = x.render) ∧
      ∀ hole, x.toJsonWith hole = x.toJson := by
  intro read
  have hwell : x.WellFormed read := (reads_of_parse h).derives.wellFormed
  have hcomplete := hwell.complete
  refine ⟨?_, hcomplete.walkWith_eq, hcomplete.renderWith_eq, hcomplete.toJsonWith_eq⟩
  have hends := Tree.evaluate_wellFormed hwell
  generalize x.evaluate = r at hends
  cases hends with
  | @value v present => exact .inl ⟨v, rfl, present⟩
  | @complaint e expected =>
    refine .inr ⟨e, rfl, ?_⟩
    have hne := expected.ne_unrecognized
    cases expected with
    | @operand op τ mem kind type =>
      refine ⟨mem, .inl ⟨kind, τ.name, ?_, rfl⟩, hne⟩
      exact List.mem_map_of_mem (f := ValueType.name) type
    | @operands op τ υ mem kind left right =>
      refine ⟨mem, .inr ⟨kind, τ.name, ?_, υ.name, ?_, rfl⟩, hne⟩
      · exact List.mem_map_of_mem (f := ValueType.name) left
      · exact List.mem_map_of_mem (f := ValueType.name) right

/-- A minus sign before `nil` is parsed, and what is wrong with it is said of the minus sign. -/
theorem Parser.parse_accepted_negated_nil :
    let minus : Token := { kind := .minus, lexeme := utf8 "-", line := 1 }
    let none : Token := { kind := .kwNil, lexeme := utf8 "nil", line := 2 }
    let p : Parser := { tokens := [minus, none, .endOfSource 2] }
    let x : Tree := .unary minus (.literal none)
    p.parse = (.ok x, { p with cursor := 2 }) ∧
      (∃ e, x.evaluate = .error (.runtime e) ∧ e.token ∈ [minus, none] ∧
        e.message ≠ utf8 "Unrecognized unary operator.") ∧
      ∀ hole, x.renderWith hole = x.render := by
  intro minus none p x
  have hparse : p.parse = (.ok x, { p with cursor := 2 }) := rfl
  obtain ⟨hends, -, hrender, -⟩ := Parser.parse_accepted hparse
  refine ⟨hparse, ?_, hrender⟩
  rcases hends with ⟨v, hv, -⟩ | ⟨e, he, hmem, -, -, hne⟩
  · cases hv
  · exact ⟨e, he, hmem, hne⟩

end ExprLang
