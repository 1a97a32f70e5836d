import ExprLang.Proofs.Tree.ViablePrefix

/-!
# Parsing is local

A parser looks at the tokens it consumes and at the one after them. What stands before the cursor, and what comes after
that one token, does not matter.

* `Tree.Halts.of_next` — whether the parser stops, and with which result, is decided by the next token;
* `Parser.parse_of_halts` — a call reads the tokens that lead to a state in which the parser stops;
* `Parser.SameWindow` — two parsers find the same tokens from their cursors on, as far as they are looked at;
* `Parser.parse_local` — two such parsers have the same result and move alike.
-/

namespace ExprLang

/-- Where a token comes next, nothing but that token decides that the parser stops. -/
theorem Tree.Halts.of_next {last last' t : Token} {after after' : List Token} {stack : List Frame} {operand : Option Tree}
    {result : Except ParseError Tree} (h : Halts last (t :: after) stack operand result) :
    Halts last' (t :: after') stack operand result := by
  cases h with
  | expected next => exact .expected next
  | done next whole => exact .done next whole
  | unclosed next noClosing inner => exact .unclosed next noClosing inner

namespace Parser

open ExprLang.Tree (Reaches Halts)

variable {p p' q : Parser} {result : Except ParseError Tree}

/-- Tokens that lead to a state in which the parser stops are consumed by a call. -/
theorem parse_of_halts {read after : List Token} {stack : List Frame} {operand : Option Tree}
    (hrest : p.rest = read ++ after) (hreach : Reaches read [] none stack operand)
    (hhalt : Halts p.last after stack operand result) :
    p.parse = (result, { p with cursor := p.cursor + read.length }) := by
  unfold parse
  rw [hrest, hreach, Tree.parseWith_of_halts hhalt]
  simp only [moveTo_append hrest]

/-- From their cursors on, both parsers find the same tokens at the next places up to the `n`-th one. -/
def SameWindow (n : Nat) (p p' : Parser) : Prop :=
  ∀ m ≤ n, p'.tokens[p'.cursor + m]? = p.tokens[p.cursor + m]?

theorem SameWindow.exists_rest {read after : List Token} {t : Token} (h : SameWindow read.length p p')
    (hrest : p.rest = read ++ t :: after) : ∃ after', p'.rest = read ++ t :: after' := by
  have hsplit : p.rest.take (read.length + 1) = read ++ [t] := by
    rw [hrest, List.take_length_add_append]
    rfl
  have hsame : p'.rest.take (read.length + 1) = p.rest.take (read.length + 1) := by
    apply List.ext_getElem?
    intro m
    by_cases hm : m < read.length + 1
    · rw [List.getElem?_take_of_lt hm, List.getElem?_take_of_lt hm, rest, rest, List.getElem?_drop, List.getElem?_drop]
      exact h m (Nat.le_of_lt_succ hm)
    · rw [List.getElem?_take_eq_none (by omega), List.getElem?_take_eq_none (by omega)]
  refine ⟨p'.rest.drop (read.length + 1), ?_⟩
  calc p'.rest = p'.rest.take (read.length + 1) ++ p'.rest.drop (read.length + 1) := (List.take_append_drop _ _).symm
    _ = read ++ t :: p'.rest.drop (read.length + 1) := by rw [hsame, hsplit, List.append_assoc, List.singleton_append]

/-- **Parsing is local.** Let a call end, with a tree or with an error, at a token of the list. A parser that finds the
same tokens from its own cursor up to the place of that one has the same result, and moves its cursor by as much, whatever
else is in its list. -/
theorem parse_local (h : p.parse = (result, q)) (hin : q.cursor < p.tokens.length)
    (hsame : SameWindow (q.cursor - p.cursor) p p') :
    p'.parse = (result, { p' with cursor := p'.cursor + (q.cursor - p.cursor) }) := by
  obtain ⟨read, stack, operand, hrest, hq, hreach, hhalt⟩ := halts_of_parse h
  have hcursor : q.cursor = p.cursor + read.length := by rw [hq]
  have hlength : q.cursor - p.cursor = read.length := by omega
  rw [hlength] at hsame ⊢
  have hne : q.rest ≠ [] := by
    intro hnil
    have htokens : q.tokens = p.tokens := by rw [hq]
    have hle := List.drop_eq_nil_iff.1 hnil
    rw [htokens] at hle
    omega
  obtain ⟨t, after, hnext⟩ := List.exists_cons_of_ne_nil hne
  rw [hnext] at hrest hhalt
  obtain ⟨after', hrest'⟩ := hsame.exists_rest hrest
  exact parse_of_halts hrest' hreach hhalt.of_next

/-- The error at the semicolon of `- ( nil ; 1` is found again after another token and before others. -/
theorem parse_local_elsewhere :
    let minus : Token := { kind := .minus, lexeme := utf8 "-", line := 1 }
    let opener : Token := { kind := .leftParen, lexeme := utf8 "(", line := 1 }
    let nil : Token := { kind := .kwNil, lexeme := utf8 "nil", line := 2 }
    let semicolon : Token := { kind := .semicolon, lexeme := utf8 ";", line := 2 }
    let one : Token := { kind := .number, lexeme := utf8 "1", line := 3, number := 1 }
    let p : Parser := { tokens := [minus, opener, nil, semicolon, one] }
    let p' : Parser := { tokens := [one, minus, opener, nil, semicolon, nil, .endOfSource 7], cursor := 1 }
    p.parse = (.error ⟨semicolon, .closingParen⟩, { p with cursor := 3 }) ∧ SameWindow 3 p p' ∧
      p'.parse = (.error ⟨semicolon, .closingParen⟩, { p' with cursor := 4 }) := by
  intro minus opener nil semicolon one p p'
  have h : p.parse = (.error ⟨semicolon, .closingParen⟩, { p with cursor := 3 }) := rfl
  have hsame : SameWindow 3 p p' := by
    intro m hm
    match m, hm with
    | 0, _ => rfl
    | 1, _ => rfl
    | 2, _ => rfl
    | 3, _ => rfl
  have hin : 3 < p.tokens.length := Nat.lt_succ_of_lt (Nat.lt_succ_self 3)
  exact ⟨h, hsame, parse_local h hin hsame⟩

end Parser

end ExprLang
