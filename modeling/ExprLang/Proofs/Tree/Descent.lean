import ExprLang.Proofs.Tree.Parsing

/-!
# Recursive descent

An expression may also be read by one procedure for each stratum of the grammar, which moves the cursor over one token
after the other and looks back at the token it has just passed. Nothing in the text of such procedures says that their
calls come to an end, or that there is a token to look back at:

* `Crash` — the two ways in which a descent may break off, and `Descent` what it comes to;
* `Parser.advance`, `Parser.previous`, `Parser.accept` — steps of the cursor, which are checked;
* `Parser.descend`, `Parser.fold`, `Parser.recover` — the procedures, with a bound on the calls that are open at a time;
* `Parser.descend_parse`, `Parser.recover_synchronize` — the descent never breaks off, and it is the parser.
-/

namespace ExprLang

/-! ## Checked steps -/

/-- Why a descent breaks off. -/
inductive Crash where
  /-- A token is looked back at where the list has none. -/
  | outOfRange
  /-- More calls are open than allowed. -/
  | outOfCalls
  deriving DecidableEq

/-- What a descent comes to: it breaks off, or it ends with a result or a parse error and leaves the parser behind. -/
abbrev Descent (α : Type) : Type := Except Crash (Except ParseError α × Parser)

namespace Descent

variable {α β : Type}

/-- Goes on with a result; a parse error ends the descent where it is. -/
def andThen (d : Descent α) (f : α → Parser → Descent β) : Descent β :=
  match d with
  | .error c => .error c
  | .ok (.error e, p) => .ok (.error e, p)
  | .ok (.ok a, p) => f a p

/-- Ends with a result. -/
def done (a : α) (p : Parser) : Descent α := .ok (.ok a, p)

/-- Ends with a parse error. -/
def fail (e : ParseError) (p : Parser) : Descent α := .ok (.error e, p)

@[simp] theorem done_andThen (a : α) (p : Parser) (f : α → Parser → Descent β) : (done a p).andThen f = f a p := rfl

@[simp] theorem fail_andThen (e : ParseError) (p : Parser) (f : α → Parser → Descent β) :
    (fail e p).andThen f = fail e p := rfl

end Descent

namespace Parser

open Descent (done fail)

/-- The token at the cursor. -/
def peek (p : Parser) : Token := p.tokenAt p.cursor

/-- The cursor one place further on. -/
def next (p : Parser) : Parser := { p with cursor := p.cursor + 1 }

/-- Looks back at the token before the cursor. -/
def previous (p : Parser) : Descent Token :=
  match p.cursor with
  | 0 => .error .outOfRange
  | i + 1 =>
    match p.tokens[i]? with
    | some t => done t p
    | none => .error .outOfRange

/-- Moves over the token at the cursor and looks back at it; the end of the source is not passed. -/
def advance (p : Parser) : Descent Token := if p.peek.kind = .eof then done p.peek p else p.next.previous

/-- Moves over the token at the cursor if it is of one of the kinds. -/
def accept (p : Parser) (kinds : List Kind) : Descent Bool :=
  if p.peek.kind ∈ kinds then p.advance.andThen fun _ q => done true q else done false p

/-! ## The procedures -/

mutual

/-- Reads what is derived from a nonterminal at the cursor, with at most `calls` calls open at a time. -/
def descend : (calls : Nat) → Nonterminal → Parser → Descent Tree
  | 0, _, _ => .error .outOfCalls
  | calls + 1, .binary level, p => (descend calls level.operand p).andThen fun x q => fold calls level x q
  | calls + 1, .unary, p =>
    (p.accept Kind.unaryOperators).andThen fun found q =>
      if found then
        q.previous.andThen fun op q => (descend calls .unary q).andThen fun x q => done (.unary op x) q
      else descend calls .primary q
  | calls + 1, .primary, p =>
    if p.peek.kind.isLiteral then p.advance.andThen fun _ q => done (.literal p.peek) q
    else if p.peek.kind = .leftParen then
      p.advance.andThen fun _ q => (descend calls .expression q).andThen fun x q =>
        if q.peek.kind = .rightParen then q.advance.andThen fun _ q => done (.grouping p.peek.line x) q
        else fail ⟨q.peek, .closingParen⟩ q
    else fail ⟨p.peek, .expression⟩ p

/-- Goes on with the operators of a level, to the right of the operand `x`. -/
def fold : (calls : Nat) → Precedence → Tree → Parser → Descent Tree
  | 0, _, _, _ => .error .outOfCalls
  | calls + 1, level, x, p =>
    (p.accept level.operators).andThen fun found q =>
      if found then
        q.previous.andThen fun op q =>
          (descend calls level.operand q).andThen fun y q => fold calls level (.binary x op y) q
      else done x q

end

/-- Moves on to the next place where a statement may start. -/
def discard : (calls : Nat) → Parser → Descent Unit
  | 0, _ => .error .outOfCalls
  | calls + 1, p =>
    if p.peek.kind = .eof then done () p
    else
      p.previous.andThen fun t p =>
        if t.kind = .semicolon then done () p
        else if p.peek.kind.startsStatement then done () p
        else p.advance.andThen fun _ q => discard calls q

/-- Passes the token at the cursor and moves on to the next place where a statement may start. -/
def recover (calls : Nat) (p : Parser) : Descent Unit := p.advance.andThen fun _ q => discard calls q

/-! ## Steps of the cursor -/

variable {p q r : Parser} {n : Nonterminal} {level : Precedence} {x : Tree}

theorem peek_eq_last (h : p.rest = []) : p.peek = p.last := by
  have hnone : p.tokens[p.cursor]? = none := by rw [← List.head?_drop, ← rest, h, List.head?_nil]
  rw [peek, tokenAt, hnone, Option.getD_none]

theorem peek_of_rest {t : Token} {ts : List Token} (h : p.rest = t :: ts) : p.peek = t := by
  rw [peek, tokenAt, ← List.head?_drop, ← rest, h, List.head?_cons, Option.getD_some]

theorem rest_of_peek (h : p.peek.kind ≠ .eof) : p.rest = p.peek :: p.next.rest := by
  cases hrest : p.rest with
  | nil => exact absurd (congrArg Token.kind (peek_eq_last hrest)) h
  | cons t ts =>
    have hnext : p.next.rest = ts := by
      rw [rest, next, ← List.drop_drop, ← rest, hrest, List.drop_succ_cons, List.drop_zero]
    rw [hnext, peek_of_rest hrest]

theorem previous_next (h : p.peek.kind ≠ .eof) : p.next.previous = done p.peek p.next := by
  have hsome : p.tokens[p.cursor]? = some p.peek := by
    rw [← List.head?_drop, ← rest, rest_of_peek h, List.head?_cons]
  simp [previous, next, hsome]

theorem advance_of_peek (h : p.peek.kind ≠ .eof) : p.advance = done p.peek p.next := by
  rw [advance, if_neg h, previous_next h]

theorem accept_of_mem {kinds : List Kind} (h : p.peek.kind ∈ kinds) (hne : p.peek.kind ≠ .eof) :
    p.accept kinds = done true p.next := by
  rw [accept, if_pos h, advance_of_peek hne, Descent.done_andThen]

theorem accept_of_notMem {kinds : List Kind} (h : p.peek.kind ∉ kinds) : p.accept kinds = done false p := if_neg h

/-- The parser `q` is at a later place of the same tokens, within the list. -/
structure Leads (p q : Parser) : Prop where
  tokens : q.tokens = p.tokens
  start : p.cursor ≤ q.cursor
  stop : q.cursor - p.cursor ≤ p.tokens.length - p.cursor

namespace Leads

theorem refl (p : Parser) : p.Leads p := ⟨rfl, Nat.le_refl _, by omega⟩

theorem trans (h : p.Leads q) (h' : q.Leads r) : p.Leads r := by
  obtain ⟨tokens, start, stop⟩ := h
  obtain ⟨tokens', start', stop'⟩ := h'
  rw [tokens] at stop'
  exact ⟨tokens'.trans tokens, by omega, by omega⟩

theorem next (h : p.peek.kind ≠ .eof) : p.Leads p.next := by
  have hlen := congrArg List.length (rest_of_peek h)
  rw [List.length_cons, rest, List.length_drop] at hlen
  exact ⟨rfl, Nat.le_succ _, by simp only [Parser.next]; omega⟩

theorem last (h : p.Leads q) : q.last = p.last := by rw [Parser.last, Parser.last, h.tokens]

theorem length_rest (h : p.Leads q) : q.rest.length + (q.cursor - p.cursor) = p.rest.length := by
  obtain ⟨tokens, start, stop⟩ := h
  rw [rest, rest, List.length_drop, List.length_drop, tokens]
  omega

theorem moveTo (h : p.Leads q) : p.moveTo q.rest = q := by
  have hlen := h.length_rest
  have hstart := h.start
  have hcursor : p.cursor + (p.rest.length - q.rest.length) = q.cursor := by omega
  rw [Parser.moveTo, hcursor, ← h.tokens]

end Leads

/-! ## The descent reads what the parser reads -/

/-- No operator of the stratum `n` or a tighter one comes next. -/
def Stops (n : Nonterminal) (rest : List Token) : Prop :=
  ∀ t ∈ rest.head?, ∀ level : Precedence, t.kind ∈ level.operators → level.rank < n.rank

theorem stops_of_unary (h : Nonterminal.unary.rank ≤ n.rank) (rest : List Token) : Stops n rest := by
  intro t _ level _
  refine Nat.lt_of_lt_of_le ?_ h
  cases level <;> decide

theorem Stops.noTighter {rest : List Token} (h : Stops level.operand rest) : Tree.NoTighter (.binary level) rest := by
  intro t ht lv hlv
  have hlt := h t ht lv hlv
  rw [Precedence.rank_operand] at hlt
  exact Nat.le_of_lt_succ hlt

theorem Stops.noOperator {rest : List Token} (h : Stops .expression rest) : Tree.NoOperator rest := by
  intro t ht
  rw [← Kind.precedence?_eq_none_iff]
  cases hlevel : t.kind.precedence? with
  | none => rfl
  | some level =>
    have hlt := h t ht level (Kind.precedence?_eq_some_iff.1 hlevel)
    cases level <;> exact absurd hlt (by decide)

/-- `Agrees n pushed p operand d`: with `operand` just read and the frames `pushed` open, the descent `d` from `p` ends
where the parser gets to, on every stack that takes the stratum `n`. -/
inductive Agrees (n : Nonterminal) (pushed : List Frame) (p : Parser) (operand : Option Tree) : Descent Tree → Prop where
  | done {x : Tree} {q : Parser} (leads : p.Leads q) (progress : operand = none → p.cursor < q.cursor)
      (stops : Stops n q.rest)
      (same : ∀ stack, Frame.Takes n stack → Tree.parseWith p.last (pushed ++ stack) operand p.rest =
        Tree.parseWith p.last stack (some x) q.rest) :
      Agrees n pushed p operand (done x q)
  | fail {e : ParseError} {q : Parser} (leads : p.Leads q)
      (same : ∀ stack, Frame.Takes n stack →
        Tree.parseWith p.last (pushed ++ stack) operand p.rest = (.error e, q.rest)) :
      Agrees n pushed p operand (fail e q)

namespace Agrees

variable {m : Nonterminal} {pushed : List Frame} {operand : Option Tree} {d : Descent Tree}
  {f : Tree → Parser → Descent Tree}

theorem here (stops : Stops n p.rest) : Agrees n [] p (some x) (Descent.done x p) :=
  .done (Leads.refl p) (by simp) stops fun _ _ => rfl

/-- What holds after a step of the parser holds before it. -/
theorem of_step (pushed' : List Frame) (operand' : Option Tree) (leads : p.Leads q)
    (progress : operand = none → p.cursor < q.cursor)
    (step : ∀ stack, Frame.Takes n stack → Tree.parseWith p.last (pushed ++ stack) operand p.rest =
      Tree.parseWith p.last (pushed' ++ stack) operand' q.rest)
    (h : Agrees n pushed' q operand' d) : Agrees n pushed p operand d := by
  cases h with
  | @done x r leads' _ stops same =>
    rw [leads.last] at same
    refine .done (leads.trans leads') (fun h => Nat.lt_of_lt_of_le (progress h) leads'.start) stops fun stack ht => ?_
    rw [step stack ht, same stack ht]
  | @fail e r leads' same =>
    rw [leads.last] at same
    refine .fail (leads.trans leads') fun stack ht => ?_
    rw [step stack ht, same stack ht]

theorem of_primary (h : Agrees .primary [] p none d) : Agrees .unary [] p none d := by
  cases h with
  | done leads progress _ same =>
    exact .done leads progress (stops_of_unary (Nat.le_refl _) _) fun stack _ =>
      same stack (Frame.takes_of_unary (by decide) stack)
  | fail leads same => exact .fail leads fun stack _ => same stack (Frame.takes_of_unary (by decide) stack)

/-- An operand is read first, on top of the frames that wait for it. -/
theorem andThen (h : Agrees m [] p none d)
    (takes : ∀ stack, Frame.Takes n stack → Frame.Takes m (pushed ++ stack))
    (cont : ∀ x q, p.Leads q → p.cursor < q.cursor → Stops m q.rest → Agrees n pushed q (some x) (f x q)) :
    Agrees n pushed p none (d.andThen f) := by
  cases h with
  | @done x q leads progress stops same =>
    rw [Descent.done_andThen]
    exact of_step pushed (some x) leads progress (fun stack ht => same _ (takes stack ht)) (cont x q leads (progress rfl) stops)
  | fail leads same =>
    rw [Descent.fail_andThen]
    exact .fail leads fun stack ht => same _ (takes stack ht)

end Agrees

theorem operand_ne_primary (level : Precedence) : level.operand ≠ .primary := by cases level <;> simp [Precedence.operand]

theorem ne_eof_of_unaryOperator {k : Kind} (h : k ∈ Kind.unaryOperators) : k ≠ .eof := by
  rintro rfl
  exact absurd h (by decide)

theorem ne_eof_of_operator {k : Kind} (h : k ∈ level.operators) : k ≠ .eof := by
  rintro rfl
  cases level <;> exact absurd h (by decide)

theorem ne_eof_of_isLiteral {k : Kind} (h : k.isLiteral = true) : k ≠ .eof := by
  rintro rfl
  cases h

/-- Where no expression starts, the parser complains of the token at the cursor. -/
theorem parseWith_of_peek (hu : p.peek.kind ∉ Kind.unaryOperators) (hl : ¬ p.peek.kind.isLiteral = true)
    (hp : p.peek.kind ≠ .leftParen) (stack : List Frame) :
    Tree.parseWith p.last stack none p.rest = (.error ⟨p.peek, .expression⟩, p.rest) := by
  cases hrest : p.rest with
  | nil => rw [Tree.parseWith, peek_eq_last hrest]
  | cons t ts =>
    have ht := peek_of_rest hrest
    rw [ht] at hu hl hp ⊢
    rw [Tree.parseWith, if_neg fun h => hu (Kind.isUnaryOperator_iff.1 h), if_neg hl, if_neg hp]

/-- Where an expression in parentheses stops at another token than the closing one, the parser complains of that token. -/
theorem parseWith_of_unclosed (hstops : Stops .expression p.rest) (hp : p.peek.kind ≠ .rightParen) (line : Int)
    (x : Tree) (stack : List Frame) :
    Tree.parseWith p.last (.paren line :: stack) (some x) p.rest = (.error ⟨p.peek, .closingParen⟩, p.rest) := by
  cases hrest : p.rest with
  | nil =>
    rw [peek_eq_last hrest]
    rfl
  | cons t ts =>
    have ht := peek_of_rest hrest
    rw [hrest] at hstops
    have hnone := Kind.precedence?_eq_none_iff.2 (hstops.noOperator t rfl)
    rw [ht] at hp ⊢
    simp only [Tree.parseWith, hnone, Frame.unwind, if_neg hp]

/-- The descent into every stratum agrees with the parser, if enough calls are allowed. A call that is opened at the
same place is for a tighter stratum, of which there are six; all others are opened after a token has been passed. The
procedure of primary expressions is not called at a unary operator. -/
def Descends (calls : Nat) : Prop :=
  ∀ n p, 8 * p.rest.length + 7 ≤ calls + n.rank → (n = .primary → p.peek.kind ∉ Kind.unaryOperators) →
    Agrees n [] p none (descend calls n p)

/-- The same for the operators of a level. -/
def Folds (calls : Nat) : Prop :=
  ∀ level x p, 8 * p.rest.length + 1 ≤ calls → Stops level.operand p.rest →
    Agrees (.binary level) [] p (some x) (fold calls level x p)

section Strata

variable {calls : Nat}

theorem descend_binary (hd : Descends calls) (hf : Folds calls) (hcalls : 8 * p.rest.length + 7 ≤ calls + 1 + level.rank) :
    Agrees (.binary level) [] p none (descend (calls + 1) (.binary level) p) := by
  have hlevel : level.rank ≤ 4 := by cases level <;> decide
  rw [descend]
  refine .andThen (hd level.operand p ?_ fun h => absurd h (operand_ne_primary level)) (fun stack ht => ht.mono (by simp)) ?_
  · rw [Precedence.rank_operand]
    omega
  · intro x q leads progress stops
    have hlen := leads.length_rest
    exact hf level x q (by omega) stops

theorem descend_unary (hd : Descends calls) (hcalls : 8 * p.rest.length + 2 ≤ calls + 1) :
    Agrees .unary [] p none (descend (calls + 1) .unary p) := by
  rw [descend]
  by_cases hop : p.peek.kind ∈ Kind.unaryOperators
  · have heof := ne_eof_of_unaryOperator hop
    have hlen := (Leads.next heof).length_rest
    have hcursor : p.next.cursor = p.cursor + 1 := rfl
    rw [accept_of_mem hop heof, Descent.done_andThen, if_pos rfl, previous_next heof, Descent.done_andThen]
    refine .of_step [.before p.peek] none (Leads.next heof) (by omega) ?_
      (.andThen (hd .unary p.next ?_ (by simp)) ?_ ?_)
    · intro stack _
      rw [rest_of_peek heof, Tree.parseWith, if_pos (Kind.isUnaryOperator_iff.2 hop)]
      rfl
    · rw [Nonterminal.rank_unary]
      omega
    · intro stack _
      exact Frame.takes_of_unary (Nat.le_refl _) _
    · intro x q _ _ stops
      exact .of_step [] (some _) (Leads.refl q) (by simp) (fun stack _ => Tree.parseWith_before p.peek) (.here stops)
  · rw [accept_of_notMem hop, Descent.done_andThen, if_neg Bool.false_ne_true]
    refine .of_primary (hd .primary p ?_ fun _ => hop)
    rw [Nonterminal.rank_primary]
    omega

theorem descend_primary (hd : Descends calls) (hcalls : 8 * p.rest.length + 1 ≤ calls + 1)
    (hop : p.peek.kind ∉ Kind.unaryOperators) : Agrees .primary [] p none (descend (calls + 1) .primary p) := by
  have hu : ¬ p.peek.kind.isUnaryOperator = true := fun h => hop (Kind.isUnaryOperator_iff.1 h)
  rw [descend]
  by_cases hliteral : p.peek.kind.isLiteral = true
  · have heof := ne_eof_of_isLiteral hliteral
    have hcursor : p.next.cursor = p.cursor + 1 := rfl
    rw [if_pos hliteral, advance_of_peek heof, Descent.done_andThen]
    refine .of_step [] (some _) (Leads.next heof) (by omega) (fun stack _ => ?_) (.here (stops_of_unary (by decide) _))
    rw [rest_of_peek heof, Tree.parseWith, if_neg hu, if_pos hliteral]
  · rw [if_neg hliteral]
    by_cases hopen : p.peek.kind = .leftParen
    · have heof : p.peek.kind ≠ .eof := by simp [hopen]
      have hlen := (Leads.next heof).length_rest
      have hcursor : p.next.cursor = p.cursor + 1 := rfl
      rw [if_pos hopen, advance_of_peek heof, Descent.done_andThen]
      refine .of_step [.paren p.peek.line] none (Leads.next heof) (by omega) ?_
        (.andThen (hd .expression p.next ?_ (by simp)) (fun _ _ => trivial) ?_)
      · intro stack _
        rw [rest_of_peek heof, Tree.parseWith, if_neg hu, if_neg hliteral, if_pos hopen]
        rfl
      · rw [Nonterminal.rank_binary, Precedence.rank]
        omega
      · intro x q _ _ stops
        by_cases hclose : q.peek.kind = .rightParen
        · have heof' : q.peek.kind ≠ .eof := by simp [hclose]
          rw [if_pos hclose, advance_of_peek heof', Descent.done_andThen]
          refine .of_step [] (some _) (Leads.next heof') (by simp) (fun stack _ => ?_) (.here (stops_of_unary (by decide) _))
          rw [rest_of_peek heof']
          exact Tree.parseWith_rightParen p.peek.line hclose
        · rw [if_neg hclose]
          exact .fail (Leads.refl q) fun stack _ => parseWith_of_unclosed stops hclose p.peek.line x stack
    · rw [if_neg hopen]
      exact .fail (Leads.refl p) fun stack _ => parseWith_of_peek hop hliteral hopen stack

theorem fold_agrees (hd : Descends calls) (hf : Folds calls) (hcalls : 8 * p.rest.length + 1 ≤ calls + 1)
    (hstops : Stops level.operand p.rest) : Agrees (.binary level) [] p (some x) (fold (calls + 1) level x p) := by
  rw [fold]
  by_cases hop : p.peek.kind ∈ level.operators
  · have heof := ne_eof_of_operator hop
    have hlen := (Leads.next heof).length_rest
    have hcursor : p.next.cursor = p.cursor + 1 := rfl
    rw [accept_of_mem hop heof, Descent.done_andThen, if_pos rfl, previous_next heof, Descent.done_andThen]
    refine .of_step [.between level x p.peek] none (Leads.next heof) (by simp) ?_
      (.andThen (hd level.operand p.next ?_ fun h => absurd h (operand_ne_primary level)) ?_ ?_)
    · intro stack ht
      rw [rest_of_peek heof]
      exact Tree.parseWith_operator hop ht
    · rw [Precedence.rank_operand]
      omega
    · intro stack _
      simp [Frame.Takes]
    · intro y q leads progress stops
      have hlen' := leads.length_rest
      refine .of_step [] (some _) (Leads.refl q) (by simp) (fun stack _ => ?_) (hf level (.binary x p.peek y) q (by omega) stops)
      exact Tree.parseWith_between p.peek stops.noTighter
  · rw [accept_of_notMem hop, Descent.done_andThen, if_neg Bool.false_ne_true]
    refine .here fun t ht lv hlv => ?_
    have hle : lv.rank ≤ level.rank := hstops.noTighter t ht lv hlv
    rw [Nonterminal.rank_binary]
    refine Nat.lt_of_le_of_ne hle fun hrank => hop ?_
    obtain rfl : lv = level := Nonterminal.binary.inj (Nonterminal.rank_inj hrank)
    obtain ⟨ts, hts⟩ := List.head?_eq_some_iff.1 ht
    rw [peek_of_rest hts]
    exact hlv

end Strata

/-- **A descent with enough calls never breaks off, and reads what the parser reads.** -/
theorem descends_and_folds (calls : Nat) : Descends calls ∧ Folds calls := by
  induction calls with
  | zero =>
    refine ⟨fun n p h _ => ?_, fun level x p h _ => ?_⟩
    · have := n.rank_le_six
      omega
    · omega
  | succ calls ih =>
    obtain ⟨hd, hf⟩ := ih
    refine ⟨fun n p hcalls hprimary => ?_, fun level x p hcalls hstops => fold_agrees hd hf hcalls hstops⟩
    rcases n with level | _ | _
    · exact descend_binary hd hf hcalls
    · rw [Nonterminal.rank_unary] at hcalls
      exact descend_unary hd (by omega)
    · rw [Nonterminal.rank_primary] at hcalls
      exact descend_primary hd (by omega) (hprimary rfl)

/-- **The descent is the parser.** With enough calls it ends, looks back at a token only where there is one, and has the
same result at the same place. -/
theorem descend_parse {calls : Nat} (h : 8 * p.rest.length + 6 ≤ calls) :
    descend calls .expression p = .ok p.parse := by
  have hagrees := (descends_and_folds calls).1 .expression p (Nat.succ_le_succ h) (by simp)
  rw [parse]
  generalize descend calls .expression p = d at hagrees
  have htakes : Frame.Takes .expression [] := trivial
  cases hagrees with
  | @done x q leads _ stops same =>
    have hsame := same [] htakes
    rw [List.nil_append, Tree.parseWith_some_nil stops.noOperator] at hsame
    simp only [hsame, leads.moveTo]
    rfl
  | @fail e q leads same =>
    have hsame := same [] htakes
    rw [List.nil_append] at hsame
    simp only [hsame, leads.moveTo]
    rfl

/-! ## Skipping to the next statement -/

theorem skip_of_peek {t : Token} (h : p.peek.kind = .eof ∨ t.kind = .semicolon ∨ p.peek.kind.startsStatement) :
    skip t p.rest = p.rest := by
  cases hrest : p.rest with
  | nil => rfl
  | cons u us =>
    rw [peek_of_rest hrest] at h
    rw [skip, if_pos h]

theorem discard_skip {calls : Nat} {t : Token} (hcalls : p.rest.length < calls) (ht : p.previous = done t p) :
    ∃ q, discard calls p = done () q ∧ p.Leads q ∧ q.rest = skip t p.rest := by
  induction calls generalizing p t with
  | zero => omega
  | succ calls ih =>
    rw [discard]
    by_cases heof : p.peek.kind = .eof
    · exact ⟨p, if_pos heof, Leads.refl p, (skip_of_peek (.inl heof)).symm⟩
    · rw [if_neg heof, ht, Descent.done_andThen]
      by_cases hsemi : t.kind = .semicolon
      · exact ⟨p, if_pos hsemi, Leads.refl p, (skip_of_peek (.inr (.inl hsemi))).symm⟩
      · rw [if_neg hsemi]
        by_cases hstart : p.peek.kind.startsStatement
        · exact ⟨p, if_pos hstart, Leads.refl p, (skip_of_peek (.inr (.inr hstart))).symm⟩
        · have hlen := (Leads.next heof).length_rest
          have hcursor : p.next.cursor = p.cursor + 1 := rfl
          obtain ⟨q, hq, leads, hskip⟩ := ih (p := p.next) (by omega) (previous_next heof)
          rw [if_neg hstart, advance_of_peek heof, Descent.done_andThen]
          refine ⟨q, hq, (Leads.next heof).trans leads, ?_⟩
          rw [hskip, rest_of_peek heof, skip, if_neg (by simp [heof, hsemi, hstart])]

theorem synchronize_at_end (h : p.peek.kind = .eof) : p.synchronize = p := by
  rw [synchronize]
  cases hrest : p.rest with
  | nil => rfl
  | cons t ts =>
    rw [peek_of_rest hrest] at h
    exact if_pos h

/-- **Skipping by checked steps ends, and is what the parser does.** -/
theorem recover_synchronize {calls : Nat} (h : p.rest.length < calls) : recover calls p = done () p.synchronize := by
  unfold recover
  by_cases heof : p.peek.kind = .eof
  · have hcalls : calls = calls - 1 + 1 := by omega
    rw [advance, if_pos heof, Descent.done_andThen, hcalls, discard, if_pos heof, synchronize_at_end heof]
  · have hlen := (Leads.next heof).length_rest
    have hcalls : p.next.rest.length < calls := by omega
    obtain ⟨q, hq, leads, hskip⟩ := discard_skip hcalls (previous_next heof)
    rw [advance_of_peek heof, Descent.done_andThen, hq, synchronize, rest_of_peek heof]
    simp only [if_neg heof, ← hskip, ((Leads.next heof).trans leads).moveTo]

end Parser

end ExprLang
