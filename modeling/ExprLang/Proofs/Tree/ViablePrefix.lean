import ExprLang.Proofs.Tree.Cursor

/-!
# Where parsing fails

A parse error is at the first token that cannot go on with an expression: what has been read before it can still be
completed, and what is looked for is what could come next.

* `Tree.Reaches` — reading some tokens leads from one state of the parser to another, whatever comes after them;
* `Tree.Halts` — the states in which the parser stops, by what comes next;
* `Tree.parseWith_settles` — every expression is read up to such a state;
* `Tree.parseWith_closing` — whatever frames wait, an operand and closing parentheses complete them;
* `Parser.Viable` — tokens that others complete to an expression;
* `Parser.parse_error_viable` — the place and the message of a parse error.
-/

namespace ExprLang

namespace Tree

variable {last t : Token} {stack stack' : List Frame} {operand operand' : Option Tree} {x y : Tree}
  {read after : List Token} {result : Except ParseError Tree}

/-! ## States of the parser -/

/-- Reading the tokens leads from one state to another, whatever comes after them. -/
def Reaches (read : List Token) (stack : List Frame) (operand : Option Tree) (stack' : List Frame)
    (operand' : Option Tree) : Prop :=
  ∀ last rest, parseWith last stack operand (read ++ rest) = parseWith last stack' operand' rest

/-- No token comes next with which an operand starts. -/
def NoOperand (rest : List Token) : Prop :=
  ∀ t ∈ rest.head?, t.kind.isUnaryOperator = false ∧ t.kind.isLiteral = false ∧ t.kind ≠ .leftParen

/-- No closing parenthesis comes next. -/
def NoClosing (rest : List Token) : Prop := ∀ t ∈ rest.head?, t.kind ≠ .rightParen

/-- The state in which the parser stops, with the result, where the tokens `after` come next. -/
inductive Halts (last : Token) (after : List Token) :
    List Frame → Option Tree → Except ParseError Tree → Prop where
  /-- An operand is expected. -/
  | expected {stack : List Frame} (next : NoOperand after) :
      Halts last after stack none (.error ⟨after.head?.getD last, .expression⟩)
  /-- All frames are completed. -/
  | done {stack : List Frame} {x y : Tree} (next : NoOperator after) (whole : Frame.unwind stack x = (none, y)) :
      Halts last after stack (some x) (.ok y)
  /-- A parenthesis is still open. -/
  | unclosed {stack below : List Frame} {x y : Tree} {line : Int} (next : NoOperator after) (noClosing : NoClosing after)
      (inner : Frame.unwind stack x = (some (line, below), y)) :
      Halts last after stack (some x) (.error ⟨after.head?.getD last, .closingParen⟩)

theorem noOperand_cons :
    NoOperand (t :: after) ↔ t.kind.isUnaryOperator = false ∧ t.kind.isLiteral = false ∧ t.kind ≠ .leftParen := by
  simp [NoOperand]

theorem noClosing_cons : NoClosing (t :: after) ↔ t.kind ≠ .rightParen := by
  simp [NoClosing]

theorem noOperator_cons : NoOperator (t :: after) ↔ t.kind.precedence? = none := by
  simp [NoOperator, Kind.precedence?_eq_none_iff]

theorem parseWith_of_halts (h : Halts last after stack operand result) :
    parseWith last stack operand after = (result, after) := by
  cases h with
  | expected next =>
    cases after with
    | nil => rfl
    | cons t rest =>
      obtain ⟨hu, hl, hp⟩ := noOperand_cons.1 next
      rw [parseWith, if_neg (by simp [hu]), if_neg (by simp [hl]), if_neg hp]
      rfl
  | done next whole =>
    cases after with
    | nil => simp only [parseWith, whole]
    | cons t rest => simp only [parseWith, noOperator_cons.1 next, whole]
  | unclosed next noClosing inner =>
    cases after with
    | nil =>
      simp only [parseWith, inner]
      rfl
    | cons t rest =>
      simp only [parseWith, noOperator_cons.1 next, inner, if_neg (noClosing_cons.1 noClosing)]
      rfl

/-- The tokens are read up to those of the outcome, into a state in which the parser stops with its result. -/
def Settles (last : Token) (stack : List Frame) (operand : Option Tree) (ts : List Token)
    (outcome : Except ParseError Tree × List Token) : Prop :=
  ∃ read stack' operand', ts = read ++ outcome.2 ∧ Reaches read stack operand stack' operand' ∧
    Halts last outcome.2 stack' operand' outcome.1

theorem Settles.here (h : Halts last after stack operand result) : Settles last stack operand after (result, after) :=
  ⟨[], stack, operand, rfl, fun _ _ => rfl, h⟩

theorem Settles.cons {outcome : Except ParseError Tree × List Token} {ts : List Token}
    (first : ∀ last rest, parseWith last stack operand (t :: rest) = parseWith last stack' operand' rest)
    (h : Settles last stack' operand' ts outcome) : Settles last stack operand (t :: ts) outcome := by
  obtain ⟨read, stack'', operand'', hread, hreach, hhalt⟩ := h
  refine ⟨t :: read, stack'', operand'', congrArg (t :: ·) hread, fun last rest => ?_, hhalt⟩
  rw [List.cons_append, first, hreach]

/-- **An expression is read up to a state in which the parser stops**, and up to there nothing depends on what comes
after. -/
theorem parseWith_settles (last : Token) (stack : List Frame) (operand : Option Tree) (ts : List Token) :
    Settles last stack operand ts (parseWith last stack operand ts) := by
  fun_induction parseWith last stack operand ts with
  | case1 => exact .here (.expected (by simp [NoOperand]))
  | case2 stack t rest hu ih => exact ih.cons fun _ _ => by rw [parseWith, if_pos hu]
  | case3 stack t rest hu hl ih => exact ih.cons fun _ _ => by rw [parseWith, if_neg hu, if_pos hl]
  | case4 stack t rest hu hl hp ih => exact ih.cons fun _ _ => by rw [parseWith, if_neg hu, if_neg hl, if_pos hp]
  | case5 stack t rest hu hl hp =>
    exact .here (.expected (noOperand_cons.2 ⟨by simpa using hu, by simpa using hl, hp⟩))
  | case6 stack x y whole => exact .here (.done (by simp [NoOperator]) whole)
  | case7 stack x frames y inner => exact .here (.unclosed (by simp [NoOperator]) (by simp [NoClosing]) inner)
  | case8 stack x t rest level hlevel stack' x' hc ih =>
    exact ih.cons fun _ _ => by simp only [parseWith, hlevel, hc]
  | case9 stack x t rest hnone y whole => exact .here (.done (noOperator_cons.2 hnone) whole)
  | case10 stack x t rest hnone line below y inner hclose ih =>
    exact ih.cons fun _ _ => by simp only [parseWith, hnone, inner, if_pos hclose]
  | case11 stack x t rest hnone line below y inner hclose =>
    exact .here (.unclosed (noOperator_cons.2 hnone) (noClosing_cons.2 hclose) inner)

/-! ## Completing what waits -/

/-- As many closing parentheses as there are open ones among the frames. -/
def closing (closer : Token) : List Frame → List Token
  | [] => []
  | .paren _ :: stack => closer :: closing closer stack
  | .before _ :: stack => closing closer stack
  | .between _ _ _ :: stack => closing closer stack

theorem noOperator_closing {closer : Token} (hcloser : closer.kind = .rightParen) (stack : List Frame) :
    NoOperator (closing closer stack) := by
  induction stack with
  | nil => simp [NoOperator, closing]
  | cons frame stack ih =>
    cases frame with
    | paren line =>
      rw [closing, noOperator_cons, hcloser]
      rfl
    | before op => exact ih
    | between level left op => exact ih

/-- **Whatever frames wait, closing parentheses complete an operand to an expression.** -/
theorem parseWith_closing {closer : Token} (hcloser : closer.kind = .rightParen) (stack : List Frame) (x : Tree) :
    ∃ y, ∀ last, parseWith last stack (some x) (closing closer stack) = (.ok y, []) := by
  induction stack generalizing x with
  | nil => exact ⟨x, fun _ => rfl⟩
  | cons frame stack ih =>
    cases frame with
    | paren line =>
      obtain ⟨y, hy⟩ := ih (.grouping line x)
      refine ⟨y, fun last => ?_⟩
      rw [closing, parseWith_rightParen line hcloser, hy]
    | before op =>
      obtain ⟨y, hy⟩ := ih (.unary op x)
      refine ⟨y, fun last => ?_⟩
      rw [closing, parseWith_before, hy]
    | between level left op =>
      obtain ⟨y, hy⟩ := ih (.binary left op x)
      refine ⟨y, fun last => ?_⟩
      rw [closing, parseWith_between op ((noOperator_closing hcloser stack).noTighter _), hy]

end Tree

namespace Parser

open ExprLang.Tree (Reaches Halts closing)

variable {p q : Parser} {e : ParseError} {pre : List Token} {stack : List Frame} {operand : Option Tree} {t : Token}

/-! ## Viable prefixes -/

/-- The tokens are the beginning of an expression: some others complete them. -/
def Viable (pre : List Token) : Prop :=
  ∃ rest x, ({ tokens := pre ++ rest } : Parser).parse = (.ok x, { tokens := pre ++ rest, cursor := (pre ++ rest).length })

/-- No list of tokens that starts with these and the next one is parsed. -/
def Refuses (pre : List Token) (t : Token) : Prop :=
  ∀ rest x r, ({ tokens := pre ++ t :: rest } : Parser).parse ≠ (.ok x, r)

theorem Refuses.not_viable (h : Refuses pre t) : ¬ Viable (pre ++ [t]) := by
  rintro ⟨rest, x, hx⟩
  rw [List.append_assoc, List.singleton_append] at hx
  exact h rest x _ hx

theorem Viable.of_append {more : List Token} (h : Viable (pre ++ more)) : Viable pre := by
  obtain ⟨rest, x, hx⟩ := h
  rw [List.append_assoc] at hx
  exact ⟨more ++ rest, x, hx⟩

/-- Tokens that lead to an operand are viable, whatever frames wait for it. -/
theorem viable_of_reaches {x : Tree} (h : Reaches pre [] none stack (some x)) : Viable pre := by
  let closer : Token := { kind := .rightParen, lexeme := utf8 ")", line := 1 }
  have hcloser : closer.kind = .rightParen := rfl
  obtain ⟨y, hy⟩ := Tree.parseWith_closing hcloser stack x
  refine ⟨closing closer stack, y, ?_⟩
  unfold parse
  rw [show ({ tokens := pre ++ closing closer stack } : Parser).rest = pre ++ closing closer stack from rfl, h, hy]
  simp [moveTo, Parser.rest]

/-- A token at which the parser stops with an error is refused. -/
theorem refuses_of_halts (h : Reaches pre [] none stack operand)
    (hstop : ∀ last rest, ∃ e, Halts last (t :: rest) stack operand (.error e)) : Refuses pre t := by
  intro rest x r hx
  obtain ⟨e, hhalt⟩ := hstop ({ tokens := pre ++ t :: rest } : Parser).last rest
  unfold parse at hx
  rw [show ({ tokens := pre ++ t :: rest } : Parser).rest = pre ++ t :: rest from rfl, h,
    Tree.parseWith_of_halts hhalt] at hx
  cases hx

/-! ## Where an operand is expected -/

theorem viable_number {number : Token} (h : Reaches pre [] none stack none) (hnumber : number.kind = .number) :
    Viable (pre ++ [number]) := by
  have hliteral : Reaches (pre ++ [number]) [] none stack (some (.literal number)) := by
    intro last rest
    rw [List.append_assoc, h, List.singleton_append]
    simp [Tree.parseWith, hnumber, Kind.isUnaryOperator, Kind.isLiteral]
  exact viable_of_reaches hliteral

theorem refuses_of_noOperand (h : Reaches pre [] none stack none) (ht : Tree.NoOperand [t]) : Refuses pre t :=
  refuses_of_halts h fun _ _ => ⟨_, .expected ht⟩

/-! ## Where a parenthesis is open -/

section Open

variable {x y : Tree} {line : Int} {below : List Frame}

theorem viable_closing {closer : Token} (h : Reaches pre [] none stack (some x))
    (inner : Frame.unwind stack x = (some (line, below), y)) (hcloser : closer.kind = .rightParen) :
    Viable (pre ++ [closer]) := by
  have hgrouping : Reaches (pre ++ [closer]) [] none below (some (.grouping line y)) := by
    intro last rest
    rw [List.append_assoc, h, List.singleton_append]
    simp [Tree.parseWith, hcloser, Kind.precedence?, inner]
  exact viable_of_reaches hgrouping

theorem refuses_of_noClosing (h : Reaches pre [] none stack (some x))
    (inner : Frame.unwind stack x = (some (line, below), y)) (hop : Tree.NoOperator [t]) (hcloser : Tree.NoClosing [t]) :
    Refuses pre t :=
  refuses_of_halts h fun _ _ => ⟨_, .unclosed hop hcloser inner⟩

end Open

/-! ## The place of an error -/

/-- A call has read tokens into a state in which the parser stops, and leaves the cursor after them. -/
theorem halts_of_parse {result : Except ParseError Tree} (h : p.parse = (result, q)) :
    ∃ read stack operand, p.rest = read ++ q.rest ∧ q = { p with cursor := p.cursor + read.length } ∧
      Reaches read [] none stack operand ∧ Halts p.last q.rest stack operand result := by
  obtain ⟨read, stack, operand, hread, hreach, hhalt⟩ := Tree.parseWith_settles p.last [] none p.rest
  unfold parse at h
  obtain ⟨hresult, hq⟩ := Prod.mk.inj h
  rw [moveTo_append hread] at hq
  rw [hresult] at hhalt
  have hrest : q.rest = (Tree.parseWith p.last [] none p.rest).2 := by
    have hdrop := congrArg (List.drop read.length) hread
    rw [List.drop_left] at hdrop
    rw [← hdrop, ← hq, rest, rest, List.drop_drop]
  rw [← hrest] at hread hhalt
  exact ⟨read, stack, operand, hread, hq.symm, hreach, hhalt⟩

theorem message_eq_iff (cause : ParseCause) :
    (cause.message = utf8 "Expect ')' after expression." ↔ cause = .closingParen) ∧
      (cause.message = utf8 "Expect expression." ↔ cause = .expression) := by
  cases cause <;> decide

/-- **A parse error is at the first token that cannot go on with an expression.** The cursor is left there, and the
error is at that token, or at the end of the source. What has been read before is the beginning of an expression, and
together with the token in error it is not. A closing parenthesis is missed where one could come next and a number could
not, an expression where a number could and a closing parenthesis could not. -/
theorem parse_error_viable (h : p.parse = (.error e, q)) :
    let pre := (p.tokens.take q.cursor).drop p.cursor
    q.tokens = p.tokens ∧ p.cursor ≤ q.cursor ∧ (p.cursor ≤ p.tokens.length → q.cursor ≤ p.tokens.length) ∧
      e.token = p.tokens[q.cursor]?.getD (.endOfSource ((p.tokens.getLast?.map (·.line)).getD 1)) ∧
      Viable pre ∧ (∀ t, p.tokens[q.cursor]? = some t → Refuses pre t) ∧
      ∀ closer number : Token, closer.kind = .rightParen → number.kind = .number →
        (e.cause.message = utf8 "Expect ')' after expression." ↔
          Viable (pre ++ [closer]) ∧ ¬ Viable (pre ++ [number])) ∧
        (e.cause.message = utf8 "Expect expression." ↔ Viable (pre ++ [number]) ∧ ¬ Viable (pre ++ [closer])) := by
  intro pre
  obtain ⟨read, stack, operand, hrest, hq, hreach, hhalt⟩ := halts_of_parse h
  have hpre : pre = read := by
    simp only [pre, hq]
    rw [List.drop_take, Nat.add_sub_cancel_left, ← rest, hrest, List.take_left]
  have hhead : p.tokens[q.cursor]? = q.rest.head? := by
    rw [← List.head?_drop, rest, hq]
  have hlength := congrArg List.length hrest
  rw [rest, List.length_drop, List.length_append] at hlength
  have hcursor : q.cursor = p.cursor + read.length := congrArg cursor hq
  rw [hpre, hhead]
  have htokens : q.tokens = p.tokens := by rw [hq]
  refine ⟨htokens, by omega, by omega, ?_⟩
  cases hhalt with
  | expected next =>
    let zero : Token := { kind := .number, lexeme := utf8 "0", line := 1 }
    have hzero : Viable (read ++ [zero]) := viable_number hreach rfl
    refine ⟨rfl, hzero.of_append, fun t ht => refuses_of_noOperand hreach fun u hu => next u (ht.trans hu),
      fun closer number hcloser hnumber => ?_⟩
    have hyes : Viable (read ++ [number]) := viable_number hreach hnumber
    have hno : ¬ Viable (read ++ [closer]) := by
      refine (refuses_of_noOperand hreach (Tree.noOperand_cons.2 ?_)).not_viable
      simp [hcloser, Kind.isUnaryOperator, Kind.isLiteral]
    simp [message_eq_iff, hyes, hno]
  | unclosed next noClosing inner =>
    refine ⟨rfl, viable_of_reaches hreach,
      fun t ht => refuses_of_noClosing hreach inner (fun u hu => next u (ht.trans hu)) fun u hu => noClosing u (ht.trans hu),
      fun closer number hcloser hnumber => ?_⟩
    have hyes : Viable (read ++ [closer]) := viable_closing hreach inner hcloser
    have hno : ¬ Viable (read ++ [number]) := by
      refine (refuses_of_noClosing hreach inner (Tree.noOperator_cons.2 ?_) (Tree.noClosing_cons.2 ?_)).not_viable
      · rw [hnumber]
        rfl
      · simp [hnumber]
    simp [message_eq_iff, hyes, hno]

/-- In `- ( nil ; 1` the error is at the semicolon, where the parenthesis could have been closed. -/
theorem parse_error_viable_semicolon :
    let minus : Token := { kind := .minus, lexeme := utf8 "-", line := 1 }
    let opener : Token := { kind := .leftParen, lexeme := utf8 "(", line := 1 }
    let nil : Token := { kind := .kwNil, lexeme := utf8 "nil", line := 2 }
    let semicolon : Token := { kind := .semicolon, lexeme := utf8 ";", line := 2 }
    let closer : Token := { kind := .rightParen, lexeme := utf8 ")", line := 3 }
    let one : Token := { kind := .number, lexeme := utf8 "1", line := 3, number := 1 }
    let p : Parser := { tokens := [minus, opener, nil, semicolon, one] }
    p.parse = (.error ⟨semicolon, .closingParen⟩, { p with cursor := 3 }) ∧ Refuses [minus, opener, nil] semicolon ∧
      Viable [minus, opener, nil, closer] ∧ ¬ Viable [minus, opener, nil, one] := by
  intro minus opener nil semicolon closer one p
  have h : p.parse = (.error ⟨semicolon, .closingParen⟩, { p with cursor := 3 }) := rfl
  obtain ⟨-, -, -, -, -, hrefuses, hmessage⟩ := parse_error_viable h
  obtain ⟨hcloser, hone⟩ := (hmessage closer one rfl rfl).1.1 rfl
  exact ⟨h, hrefuses semicolon rfl, hcloser, hone⟩

end Parser

end ExprLang
