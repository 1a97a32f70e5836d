import ExprLang.Proofs.Json.Decoder
import ExprLang.Proofs.Json.Writing
import ExprLang.Proofs.Tree.Grammar
import ExprLang.Tree.Document

/-!
# What the text of a tree says

The text that is written for a tree is a JSON text, in valid UTF-8 and with a line feed at the end, and what it stands for
is the tree, node by node:

* `Tree.NumberDescribed`, `Tree.ValueDescribed`, `Tree.Described` — what a datum says about a tree;
* `Tree.described_of_represents` — what the text of `Tree.toJson` stands for says that;
* `Tree.document_described` — every tree that is not too deep is written as such a text.
-/

namespace ExprLang

/-- What a byte string stands for, if it is a JSON text in valid UTF-8. -/
def Json.decodeBytes (s : Bytes) : Option Json.Datum := (Utf8.characters? s).bind Json.decode

namespace Tree

open Json (Datum Numeral)
open Utf8 (shown encode)

/-- A finite float is given as a number that reads back to it, any other by its name. -/
inductive NumberDescribed (x : Float) : Datum → Prop
  | finite {n : Numeral} (hx : Binary64.magnitude x < Binary64.infinity) (h : n.toFloat = x) : NumberDescribed x (.number n)
  | infinity (hx : Binary64.magnitude x = Binary64.infinity) (hsign : Binary64.isNegative x = false) :
      NumberDescribed x (.string "+Inf".toList)
  | negativeInfinity (hx : Binary64.magnitude x = Binary64.infinity) (hsign : Binary64.isNegative x = true) :
      NumberDescribed x (.string "-Inf".toList)
  | notANumber (hx : Binary64.infinity < Binary64.magnitude x) : NumberDescribed x (.string "NaN".toList)

/-- The member for the value of a literal; a token that is no literal has none. -/
inductive ValueDescribed (t : Token) : List (List Char × Datum) → Prop
  | number {v} (hkind : t.kind = .number) (hv : NumberDescribed t.number v) : ValueDescribed t [("value".toList, v)]
  | string (hkind : t.kind = .string) : ValueDescribed t [("value".toList, .string (shown t.text))]
  | kwTrue (hkind : t.kind = .kwTrue) : ValueDescribed t [("value".toList, .bool true)]
  | kwFalse (hkind : t.kind = .kwFalse) : ValueDescribed t [("value".toList, .bool false)]
  | kwNil (hkind : t.kind = .kwNil) : ValueDescribed t [("value".toList, .null)]
  | none (hkind : t.kind ∉ Kind.literals) : ValueDescribed t []

/-- The datum is an object for every node of the tree, with the members of the node in alphabetical order, and `null`
where an operand is missing. The line is a number, whatever operands there are. -/
inductive Described : Tree → Datum → Prop
  | missing : Described .missing .null
  | literalAt {n : Int} {line : Numeral} {t value} (hline : line.value = n) (hvalue : ValueDescribed t value) :
      Described (.literalAt n t) (.object ([("kind".toList, .string (shown t.kind.label)),
        ("lexeme".toList, .string (shown t.lexeme)), ("line".toList, .number line),
        ("type".toList, .string "Literal".toList)] ++ value))
  | grouping {n : Int} {line : Numeral} {x v} (hline : line.value = n) (hx : Described x v) :
      Described (.grouping n x) (.object [("line".toList, .number line), ("type".toList, .string "Grouping".toList),
        ("x".toList, v)])
  | unaryAt {n : Int} {line : Numeral} {op x v} (hline : line.value = n) (hx : Described x v) :
      Described (.unaryAt n op x) (.object [("line".toList, .number line), ("op".toList, .string (shown op.lexeme)),
        ("type".toList, .string "Unary".toList), ("x".toList, v)])
  | binaryAt {n : Int} {line : Numeral} {x op y v w} (hline : line.value = n) (hx : Described x v)
      (hy : Described y w) :
      Described (.binaryAt n x op y) (.object [("line".toList, .number line), ("op".toList, .string (shown op.lexeme)),
        ("type".toList, .string "Binary".toList), ("x".toList, v), ("y".toList, w)])

/-! ## The members of a node -/

theorem numberDescribed_of_represents {x : Float} {v : Datum} (h : (Json.ofFloat x).Represents v) :
    NumberDescribed x v := by
  unfold Json.ofFloat at h
  split at h
  · rename_i hx
    obtain ⟨n, rfl, hn⟩ := h
    exact .finite hx hn
  · rename_i hx
    obtain rfl : v = _ := h
    unfold NumberStyle.format
    extract_lets bits
    split
    · rename_i hnan
      rw [Utf8.shown_utf8]
      exact .notANumber hnan
    · rename_i hnan
      have hbits : bits = Binary64.infinity := by omega
      rw [if_pos hbits]
      cases hsign : Binary64.isNegative x
      · rw [if_neg Bool.false_ne_true, Utf8.shown_utf8]
        exact .infinity hbits hsign
      · rw [if_pos rfl, Utf8.shown_utf8]
        exact .negativeInfinity hbits hsign

theorem isFinite_ofFloat (x : Float) : (Json.ofFloat x).IsFinite := by
  unfold Json.ofFloat
  split
  · assumption
  · trivial

theorem valueDescribed_of_represents {t : Token} {members : List (List Char × Datum)}
    (h : Json.MembersRepresent ((literalValue? t).map fun v => (utf8 "value", v)).toList members) :
    ValueDescribed t members := by
  cases hvalue : literalValue? t with
  | none =>
    rw [hvalue] at h
    obtain rfl : members = [] := h
    refine .none fun hmem => ?_
    simp only [Kind.literals, List.mem_cons, List.not_mem_nil, or_false] at hmem
    rcases hmem with hkind | hkind | hkind | hkind | hkind <;> simp [literalValue?, hkind] at hvalue
  | some doc =>
    rw [hvalue] at h
    obtain ⟨v, _, rfl, hv, rfl⟩ := h
    rw [Utf8.shown_utf8]
    unfold literalValue? at hvalue
    split at hvalue <;> cases hvalue
    · rename_i hkind
      exact .number hkind (numberDescribed_of_represents hv)
    · rename_i hkind
      obtain rfl : v = _ := hv
      exact .string hkind
    · rename_i hkind
      obtain rfl : v = _ := hv
      exact .kwTrue hkind
    · rename_i hkind
      obtain rfl : v = _ := hv
      exact .kwFalse hkind
    · rename_i hkind
      obtain rfl : v = _ := hv
      exact .kwNil hkind

/-- **What the text of `toJson` stands for describes the tree.** -/
theorem described_of_represents {x : Tree} {v : Datum} (h : x.toJson.Represents v) : Described x v := by
  induction x generalizing v with
  | missing =>
    obtain rfl : v = .null := h
    exact .missing
  | literalAt n t =>
    obtain ⟨_, rfl, _, _, rfl, rfl, _, _, rfl, rfl, _, _, rfl, ⟨line, rfl, hline⟩, _, _, rfl, rfl, hvalue⟩ := h
    simp only [Utf8.shown_utf8]
    exact .literalAt hline (valueDescribed_of_represents hvalue)
  | grouping n x ih =>
    obtain ⟨_, rfl, _, _, rfl, ⟨line, rfl, hline⟩, _, _, rfl, rfl, v, _, rfl, hx, rfl⟩ := h
    simp only [Utf8.shown_utf8]
    exact .grouping hline (ih hx)
  | unaryAt n op x ih =>
    obtain ⟨_, rfl, _, _, rfl, ⟨line, rfl, hline⟩, _, _, rfl, rfl, _, _, rfl, rfl, v, _, rfl, hx, rfl⟩ := h
    simp only [Utf8.shown_utf8]
    exact .unaryAt hline (ih hx)
  | binaryAt n x op y ihx ihy =>
    obtain ⟨_, rfl, _, _, rfl, ⟨line, rfl, hline⟩, _, _, rfl, rfl, _, _, rfl, rfl, v, _, rfl, hx, w, _, rfl, hy, rfl⟩ := h
    simp only [Utf8.shown_utf8]
    exact .binaryAt hline (ihx hx) (ihy hy)

theorem membersFinite_value (t : Token) :
    Json.MembersFinite ((literalValue? t).map fun v => (utf8 "value", v)).toList := by
  unfold literalValue?
  split
  · exact ⟨isFinite_ofFloat t.number, trivial⟩
  all_goals trivial

theorem isFinite_toJson (x : Tree) : x.toJson.IsFinite := by
  induction x with
  | missing => trivial
  | literalAt n t => exact ⟨trivial, trivial, trivial, trivial, membersFinite_value t⟩
  | grouping n x ih => exact ⟨trivial, trivial, ih, trivial⟩
  | unaryAt n op x ih => exact ⟨trivial, trivial, trivial, ih, trivial⟩
  | binaryAt n x op y ihx ihy => exact ⟨trivial, trivial, trivial, ihx, ihy, trivial⟩

/-! ## Documents -/

theorem depth_iterate_unary (op : Token) (x : Tree) (n : Nat) : (Nat.iterate (.unary op) n x).depth = x.depth + n := by
  induction n generalizing x with
  | zero => rfl
  | succ n ih =>
    show (Nat.iterate (Tree.unary op) n (Tree.unary op x)).depth = x.depth + (n + 1)
    rw [ih, depth]
    omega

/-- **A tree is written as a JSON text that says what it is**, unless it is too deep for one. -/
theorem document_described (x : Tree) :
    (x.depth ≤ 10000 → ∃ text v, x.document = .ok (encode (text ++ ['\n'])) ∧ Json.Written text (.value v) ∧
      Json.decodeBytes (encode (text ++ ['\n'])) = some v ∧ x.Described v) ∧
    (10000 < x.depth → ∃ e, x.document = .error e ∧ e.message = utf8 "exceeded max depth") := by
  refine ⟨fun hdepth => ?_, fun hdepth => ⟨.tooDeep, document_of_too_deep hdepth, rfl⟩⟩
  obtain ⟨text, v, hrender, hwritten, hrepresents⟩ := Json.exists_written 0 x.toJson (isFinite_toJson x)
  have hdocument : x.document = .ok (encode (text ++ ['\n'])) := by
    rw [document_of_depth_le hdepth, Json.render, hrender, Utf8.encode_append]
    rfl
  have hdecode : Json.decodeBytes (encode (text ++ ['\n'])) = some v := by
    rw [Json.decodeBytes, Utf8.characters?_encode, Option.bind_some, Json.decode_eq_some_iff]
    exact .mk Json.blanks_nil hwritten (List.forall_mem_singleton.2 rfl)
  exact ⟨text, v, hdocument, hwritten, hdecode, described_of_represents hrepresents⟩

/-- An infinite number with a stray byte for its lexeme is described, although it is on another line than its token and
the left operand is missing, and a tree one node too deep is not. -/
theorem document_described_missing_operand :
    let minus : Token := { kind := .minus, lexeme := utf8 "-", line := 1 }
    let huge : Token := { kind := .number, lexeme := [0xFF], line := -3, number := Float.ofBits 0x7FF0000000000000 }
    let x : Tree := .binaryAt 0 .missing minus (.literalAt 12 huge)
    let deep : Tree := Nat.iterate (.unary minus) 10000 (.literal huge)
    (∃ text v, x.document = .ok (encode (text ++ ['\n'])) ∧ Json.decodeBytes (encode (text ++ ['\n'])) = some v ∧
      x.Described v) ∧
    ∃ e, deep.document = .error e ∧ e.message = utf8 "exceeded max depth" := by
  intro minus huge x deep
  obtain ⟨text, v, hdocument, -, hdecode, hdescribed⟩ := (document_described x).1 (show 2 ≤ 10000 by decide)
  have hdeep : 10000 < deep.depth := by
    rw [depth_iterate_unary, depth]
    omega
  exact ⟨⟨text, v, hdocument, hdecode, hdescribed⟩, (document_described deep).2 hdeep⟩

/-- Ten thousand minus signs before a number are too deep a tree to be written. -/
theorem document_minus_signs :
    let minus : Token := { kind := .minus, lexeme := utf8 "-", line := 1 }
    let one : Token := { kind := .number, lexeme := utf8 "1", line := 1, number := 1 }
    ¬ ∃ out, (Nat.iterate (.unary minus) 10000 (.literal one) : Tree).document = .ok out := by
  rintro minus one ⟨out, h⟩
  have hdeep : 10000 < (Nat.iterate (.unary minus) 10000 (.literal one) : Tree).depth := by
    rw [depth_iterate_unary, depth]
    omega
  rw [document_of_too_deep hdeep] at h
  cases h

end Tree

end ExprLang
