import ExprLang.Proofs.Tree.Grammar

/-!
# Parsing decides the grammar

The frames that wait on the stack are a derivation in the making. `Frame.Holds stack pre` says which tokens they have
been read from, and `Frame.Takes n stack` that the topmost one may be given an operand of the stratum `n`.

* `Frame.complete_holds`, `Frame.unwind_holds` — completing frames builds derivations and loses no token;
* `Tree.parseWith_sound` — a tree that is returned has a derivation, which ends before a token that is no operator;
* `Tree.parseWith_derives` — reading the tokens of a derivation has the same outcome as being given its tree, as long
  as no operator that binds more tightly comes next;
* `Parser.parse_ok_iff_reads` — a parser returns exactly the tree of the grammar.
-/

namespace ExprLang

/-! ## Stacks -/

namespace Frame

/-- The frame on top of the stack may be given an operand derived from `n`. -/
def Takes (n : Nonterminal) : List Frame → Prop
  | [] => True
  | .paren _ :: _ => True
  | .before _ :: _ => Nonterminal.unary.rank ≤ n.rank
  | .between level _ _ :: _ => level.rank < n.rank

/-- `Holds stack pre`: the frames have been read from the tokens `pre`, the lowest one first. -/
inductive Holds : List Frame → List Token → Prop where
  | nil : Holds [] []
  | paren {stack : List Frame} {pre : List Token} {l : Token} (below : Holds stack pre) (opening : l.kind = .leftParen) :
      Holds (.paren l.line :: stack) (pre ++ [l])
  | before {stack : List Frame} {pre : List Token} {op : Token} (below : Holds stack pre)
      (mark : op.kind ∈ Kind.unaryOperators) : Holds (.before op :: stack) (pre ++ [op])
  | between {stack : List Frame} {pre us : List Token} {level : Precedence} {x : Tree} {op : Token}
      (below : Holds stack pre) (takes : Takes (.binary level) stack) (left : Derives (.binary level) us x)
      (mid : op.kind ∈ level.operators) : Holds (.between level x op :: stack) (pre ++ (us ++ [op]))

variable {stack : List Frame} {pre us : List Token} {n : Nonterminal} {level : Precedence} {x : Tree}

/-- What takes an operand takes a tighter one. -/
theorem Takes.mono {m : Nonterminal} (ht : Takes m stack) (h : m.rank ≤ n.rank) : Takes n stack := by
  match stack, ht with
  | [], _ => trivial
  | .paren _ :: _, _ => trivial
  | .before _ :: _, ht => exact Nat.le_trans ht h
  | .between _ _ _ :: _, ht => exact Nat.lt_of_lt_of_le ht h

/-- Every stack takes an operand that is at least as tight as a unary expression. -/
theorem takes_of_unary (h : Nonterminal.unary.rank ≤ n.rank) (stack : List Frame) : Takes n stack := by
  have hunary : Takes .unary stack := by
    match stack with
    | [] => trivial
    | .paren _ :: _ => trivial
    | .before _ :: _ => exact Nat.le_refl _
    | .between level _ _ :: _ =>
      have hlt : level.rank < Nonterminal.unary.rank := by cases level <;> decide
      exact hlt
  exact hunary.mono h

theorem derives_operand {left : Tree} {op : Token} (hx : Derives n us x) (ht : Takes n (.between level left op :: stack)) :
    Derives level.operand us x := by
  refine hx.loosen ?_
  rw [Precedence.rank_operand]
  exact ht

/-- Completing frames for an operator of the given level makes its left operand, and leaves frames that take what the
operator will build. -/
theorem complete_holds (level : Precedence) (hs : Holds stack pre) (hx : Derives n us x) (ht : Takes n stack)
    (hn : level.rank ≤ n.rank) :
    ∃ pre' us', Holds (complete level stack x).1 pre' ∧ Takes (.binary level) (complete level stack x).1 ∧
      Derives (.binary level) us' (complete level stack x).2 ∧ pre' ++ us' = pre ++ us := by
  induction hs generalizing n us x with
  | nil => exact ⟨[], us, .nil, trivial, hx.loosen hn, rfl⟩
  | @paren stack pre l below opening =>
    exact ⟨pre ++ [l], us, .paren below opening, trivial, hx.loosen hn, rfl⟩
  | @before stack pre op below mark ih =>
    have hunary : Derives .unary (op :: us) (.unary op x) := .unary mark (hx.loosen ht)
    obtain ⟨pre', us', h1, h2, h3, e⟩ := ih hunary (takes_of_unary (Nat.le_refl _) stack)
      (by cases level <;> decide)
    exact ⟨pre', us', h1, h2, h3, by simpa using e⟩
  | @between stack pre ts lv left op below takes hleft mid ih =>
    unfold complete
    by_cases hlv : level.rank ≤ lv.rank
    · rw [if_pos hlv]
      obtain ⟨pre', us', h1, h2, h3, e⟩ := ih (.binary hleft mid (derives_operand hx ht)) takes hlv
      exact ⟨pre', us', h1, h2, h3, by simpa using e⟩
    · rw [if_neg hlv]
      exact ⟨_, us, .between below takes hleft mid, Nat.lt_of_not_le hlv, hx.loosen hn, rfl⟩

/-- Completing all frames down to a parenthesis, or to the bottom, makes a whole expression. -/
theorem unwind_holds (hs : Holds stack pre) (hx : Derives n us x) (ht : Takes n stack) :
    ∃ y us', Derives .expression us' y ∧
      ((unwind stack x = (none, y) ∧ us' = pre ++ us) ∨
        ∃ l stack' pre', unwind stack x = (some (l.line, stack'), y) ∧ l.kind = .leftParen ∧ Holds stack' pre' ∧
          pre' ++ l :: us' = pre ++ us) := by
  have hmin : Nonterminal.expression.rank ≤ n.rank := by
    rcases n with ⟨⟨⟩⟩ | _ | _ <;> decide
  induction hs generalizing n us x with
  | nil => exact ⟨x, us, hx.loosen hmin, .inl ⟨rfl, rfl⟩⟩
  | @paren stack pre l below opening =>
    exact ⟨x, us, hx.loosen hmin, .inr ⟨l, stack, pre, rfl, opening, below, by simp⟩⟩
  | @before stack pre op below mark ih =>
    have hunary : Derives .unary (op :: us) (.unary op x) := .unary mark (hx.loosen ht)
    obtain ⟨y, us', hy, h⟩ := ih hunary (takes_of_unary (Nat.le_refl _) stack) (by decide)
    exact ⟨y, us', hy, by simpa [unwind] using h⟩
  | @between stack pre ts lv left op below takes hleft mid ih =>
    obtain ⟨y, us', hy, h⟩ := ih (.binary hleft mid (derives_operand hx ht)) takes (by cases lv <;> decide)
    exact ⟨y, us', hy, by simpa [unwind] using h⟩

theorem derives_of_unwind_eq_none {y : Tree} (hs : Holds stack pre) (hx : Derives .primary us x)
    (hw : unwind stack x = (none, y)) : Derives .expression (pre ++ us) y := by
  obtain ⟨y', us', hy, ⟨hw', rfl⟩ | ⟨l, stack', pre', hw', -⟩⟩ := unwind_holds hs hx (takes_of_unary (by decide) stack)
  · rw [hw] at hw'
    cases hw'
    exact hy
  · rw [hw] at hw'
    cases hw'

theorem derives_of_unwind_eq_some {y : Tree} {line : Int} {stack' : List Frame} (hs : Holds stack pre)
    (hx : Derives .primary us x) (hw : unwind stack x = (some (line, stack'), y)) :
    ∃ l pre' us', l.kind = .leftParen ∧ l.line = line ∧ Holds stack' pre' ∧ Derives .expression us' y ∧
      pre' ++ l :: us' = pre ++ us := by
  obtain ⟨y', us', hy, ⟨hw', rfl⟩ | ⟨l, stack'', pre', hw', hopen, hs', e⟩⟩ :=
    unwind_holds hs hx (takes_of_unary (by decide) stack)
  · rw [hw] at hw'
    cases hw'
  · rw [hw] at hw'
    cases hw'
    exact ⟨l, pre', us', hopen, rfl, hs', hy, e⟩

/-- Frames that take what an operator of the level will build are not touched by it. -/
theorem complete_of_takes (h : Takes (.binary level) stack) (x : Tree) : complete level stack x = (stack, x) := by
  match stack with
  | [] => rfl
  | .paren _ :: _ => rfl
  | .before _ :: _ =>
    have : Nonterminal.unary.rank ≤ level.rank := h
    cases level <;> exact absurd this (by decide)
  | .between lv _ _ :: _ => exact if_neg (Nat.not_le_of_lt h)

end Frame

/-! ## What is returned has a derivation -/

namespace Tree

variable {last : Token} {stack : List Frame} {level : Precedence} {x y : Tree} {t : Token} {rest : List Token}

/-- The tokens that the operand just read, if there is one, has been read from. -/
def OperandOf (us : List Token) : Option Tree → Prop
  | none => us = []
  | some x => Derives .primary us x

/-- No operator that stands between operands comes next. -/
def NoOperator (rest : List Token) : Prop := ∀ t ∈ rest.head?, t.kind ∉ Kind.binaryOperators

/-- **A tree that is returned has a derivation** from the tokens held by the stack and those that are consumed. -/
theorem parseWith_sound {operand : Option Tree} {tokens : List Token}
    (h : parseWith last stack operand tokens = (.ok y, rest)) {pre us : List Token} (hs : Frame.Holds stack pre)
    (hu : OperandOf us operand) :
    ∃ read, tokens = read ++ rest ∧ Derives .expression (pre ++ us ++ read) y ∧ NoOperator rest := by
  fun_induction parseWith last stack operand tokens generalizing pre us with
  | case1 => simp at h
  | case2 stack t tokens hk ih =>
    obtain rfl : us = [] := hu
    obtain ⟨read, rfl, hy, hr⟩ := ih h (.before hs (Kind.isUnaryOperator_iff.1 hk)) rfl
    exact ⟨t :: read, rfl, by simpa using hy, hr⟩
  | case3 stack t tokens _ hk ih =>
    obtain rfl : us = [] := hu
    obtain ⟨read, rfl, hy, hr⟩ := ih h hs (Derives.literal (Kind.isLiteral_iff.1 hk))
    exact ⟨t :: read, rfl, by simpa using hy, hr⟩
  | case4 stack t tokens _ _ hk ih =>
    obtain rfl : us = [] := hu
    obtain ⟨read, rfl, hy, hr⟩ := ih h (.paren hs hk) rfl
    exact ⟨t :: read, rfl, by simpa using hy, hr⟩
  | case5 => simp at h
  | case6 stack x z hz =>
    cases h
    exact ⟨[], rfl, by simpa using Frame.derives_of_unwind_eq_none hs hu hz, by simp [NoOperator]⟩
  | case7 => simp at h
  | case8 stack x t tokens level hlevel stack' x' hc ih =>
    obtain ⟨pre', us', h1, h2, h3, e⟩ := Frame.complete_holds level hs hu (Frame.takes_of_unary (by decide) stack)
      (by cases level <;> decide)
    rw [hc] at h1 h2 h3
    obtain ⟨read, rfl, hy, hr⟩ := ih h (.between h1 h2 h3 (Kind.precedence?_eq_some_iff.1 hlevel)) rfl
    refine ⟨t :: read, rfl, ?_, hr⟩
    rw [← e]
    simpa using hy
  | case9 stack x t tokens hk z hz =>
    cases h
    refine ⟨[], rfl, by simpa using Frame.derives_of_unwind_eq_none hs hu hz, ?_⟩
    simpa [NoOperator] using Kind.precedence?_eq_none_iff.1 hk
  | case10 stack x t tokens hk line stack' z hz hclose ih =>
    obtain ⟨l, pre', us', hopen, rfl, hs', hx, e⟩ := Frame.derives_of_unwind_eq_some hs hu hz
    obtain ⟨read, rfl, hy, hr⟩ := ih h hs' (Derives.grouping hopen hx hclose)
    refine ⟨t :: read, rfl, ?_, hr⟩
    rw [← e]
    simpa using hy
  | case11 => simp at h

/-! ## What has a derivation is returned -/

/-- No operator that binds more tightly than `n` comes next. -/
def NoTighter (n : Nonterminal) (rest : List Token) : Prop :=
  ∀ t ∈ rest.head?, ∀ level : Precedence, t.kind ∈ level.operators → level.rank ≤ n.rank

theorem NoTighter.mono {m n : Nonterminal} (h : NoTighter m rest) (hmn : m.rank ≤ n.rank) : NoTighter n rest :=
  fun t ht level hl => Nat.le_trans (h t ht level hl) hmn

theorem noTighter_of_unary {n : Nonterminal} (h : Nonterminal.unary.rank ≤ n.rank) (rest : List Token) :
    NoTighter n rest := by
  intro t _ level _
  refine Nat.le_trans ?_ h
  cases level <;> decide

theorem noTighter_cons (hop : t.kind ∈ level.operators) : NoTighter (.binary level) (t :: rest) := by
  intro u hu lv hlv
  obtain rfl : t = u := by simpa using hu
  rw [← Kind.precedence?_eq_some_iff] at hop hlv
  obtain rfl : level = lv := by simpa [hop] using hlv
  exact Nat.le_refl _

theorem NoOperator.noTighter (h : NoOperator rest) (n : Nonterminal) : NoTighter n rest := by
  intro t ht level hl
  have hk := Kind.precedence?_eq_none_iff.2 (h t ht)
  rw [Kind.precedence?_eq_some_iff.2 hl] at hk
  cases hk

/-- An operator whose left operand is complete waits for its right one. -/
theorem parseWith_operator (hop : t.kind ∈ level.operators) (ht : Frame.Takes (.binary level) stack) :
    parseWith last stack (some x) (t :: rest) = parseWith last (.between level x t :: stack) none rest := by
  rw [parseWith, Kind.precedence?_eq_some_iff.2 hop]
  simp only [Frame.complete_of_takes ht]

/-- The operand of a unary operator is never extended. -/
theorem parseWith_before (op : Token) :
    parseWith last (.before op :: stack) (some x) rest = parseWith last stack (some (.unary op x)) rest := by
  cases rest <;> simp only [parseWith, Frame.unwind, Frame.complete]

/-- The right operand of a binary operator is not extended by an operator that binds no tighter. -/
theorem parseWith_between (op : Token) (hr : NoTighter (.binary level) rest) :
    parseWith last (.between level x op :: stack) (some y) rest =
      parseWith last stack (some (.binary x op y)) rest := by
  cases rest with
  | nil => simp only [parseWith, Frame.unwind]
  | cons t rest =>
    simp only [parseWith, Frame.unwind]
    cases hk : t.kind.precedence? with
    | none => rfl
    | some lv =>
      have hlv : lv.rank ≤ level.rank := hr t rfl lv (Kind.precedence?_eq_some_iff.1 hk)
      simp only [Frame.complete, if_pos hlv]

/-- A closing parenthesis completes the grouping that is open on top of the stack. -/
theorem parseWith_rightParen (line : Int) (h : t.kind = .rightParen) :
    parseWith last (.paren line :: stack) (some x) (t :: rest) =
      parseWith last stack (some (.grouping line x)) rest := by
  simp [parseWith, h, Kind.precedence?, Frame.unwind]

/-- **Reading the tokens of a derivation has the same outcome as being given its tree**, if the stack takes it and no
operator that binds more tightly comes next. -/
theorem parseWith_derives {n : Nonterminal} {us : List Token} (h : Derives n us x) (ht : Frame.Takes n stack)
    (hr : NoTighter n rest) : parseWith last stack none (us ++ rest) = parseWith last stack (some x) rest := by
  induction h generalizing stack rest with
  | @operand level ts x h ih =>
    have hle : level.rank ≤ level.operand.rank := by simp
    exact ih (ht.mono hle) (hr.mono hle)
  | @binary level ts us x y op left mid right ihl ihr =>
    rw [List.append_assoc, List.cons_append, ihl ht (noTighter_cons mid), parseWith_operator mid ht,
      ihr (by simp [Frame.Takes]) (hr.mono (by simp)), parseWith_between op hr]
  | plain h ih => exact ih (Frame.takes_of_unary (by decide) stack) (noTighter_of_unary (by decide) rest)
  | @unary op ts x mark h ih =>
    rw [List.cons_append, parseWith, if_pos (Kind.isUnaryOperator_iff.2 mark),
      ih (Frame.takes_of_unary (by decide) _) (noTighter_of_unary (by decide) rest), parseWith_before]
  | @literal t h =>
    have hu : ¬ t.kind.isUnaryOperator = true := by
      rw [Kind.isUnaryOperator_iff]
      simp only [Kind.literals, Kind.unaryOperators, List.mem_cons] at h ⊢
      rcases h with h | h | h | h | h | h <;> simp_all
    rw [List.cons_append, List.nil_append, parseWith, if_neg hu, if_pos (Kind.isLiteral_iff.2 h)]
  | @grouping l r ts x opening inner closing ih =>
    have hr' : NoOperator (r :: rest) := by
      intro t ht
      obtain rfl : r = t := by simpa using ht
      simp [closing, Kind.binaryOperators]
    have hopen : parseWith last stack none (l :: (ts ++ r :: rest)) =
        parseWith last (.paren l.line :: stack) none (ts ++ r :: rest) := by
      simp [parseWith, opening, Kind.isUnaryOperator, Kind.isLiteral]
    have htakes : Frame.Takes .expression (.paren l.line :: stack) := trivial
    rw [show l :: ts ++ [r] ++ rest = l :: (ts ++ r :: rest) by simp, hopen, ih htakes (hr'.noTighter _),
      parseWith_rightParen l.line closing]

/-- Where no operator comes next, an operand on the empty stack is the result. -/
theorem parseWith_some_nil (hr : NoOperator rest) : parseWith last [] (some x) rest = (.ok x, rest) := by
  cases rest with
  | nil => rfl
  | cons t rest => simp only [parseWith, Kind.precedence?_eq_none_iff.2 (hr t rfl), Frame.unwind]

/-- **The expressions that are returned are those of the grammar.** -/
theorem parseWith_eq_ok_iff {tokens : List Token} :
    parseWith last [] none tokens = (.ok x, rest) ↔
      ∃ read, tokens = read ++ rest ∧ Derives .expression read x ∧ NoOperator rest := by
  constructor
  · intro h
    simpa using parseWith_sound h .nil rfl
  · rintro ⟨read, rfl, hx, hr⟩
    have htakes : Frame.Takes .expression [] := trivial
    rw [parseWith_derives hx htakes (hr.noTighter _), parseWith_some_nil hr]

end Tree

/-! ## Cursors -/

namespace Parser

/-- The token at a place of the list; after the list, the end of the source. -/
def tokenAt (p : Parser) (j : Nat) : Token := p.tokens[j]?.getD p.last

/-- The tokens from the cursor up to the place `j` are derived as the expression `x`, and no operator that could go on
with it stands at `j`. -/
structure Reads (p : Parser) (x : Tree) (j : Nat) : Prop where
  start : p.cursor ≤ j
  stop : j ≤ p.tokens.length
  derives : Derives .expression ((p.tokens.take j).drop p.cursor) x
  next : (p.tokenAt j).kind ∉ Kind.binaryOperators

variable {p : Parser} {x : Tree} {j : Nat}

theorem noOperator_drop_iff : Tree.NoOperator (p.tokens.drop j) ↔ (p.tokenAt j).kind ∉ Kind.binaryOperators := by
  unfold Tree.NoOperator tokenAt
  rw [List.head?_drop]
  cases p.tokens[j]? with
  | none => simp [last, Token.endOfSource, Kind.binaryOperators]
  | some t => simp

/-- The same with the tokens from the cursor on cut in two, in place of places in the list. -/
theorem reads_iff_rest :
    p.Reads x j ↔ ∃ read after, p.rest = read ++ after ∧ j = p.cursor + read.length ∧ Derives .expression read x ∧
      Tree.NoOperator after := by
  constructor
  · rintro ⟨start, stop, derives, next⟩
    refine ⟨(p.tokens.take j).drop p.cursor, p.tokens.drop j, ?_, ?_, derives, noOperator_drop_iff.2 next⟩
    · have hlen : p.cursor ≤ (p.tokens.take j).length := by simp; omega
      rw [← List.drop_append_of_le_length hlen, List.take_append_drop, rest]
    · simp; omega
  · rintro ⟨read, after, hrest, rfl, derives, next⟩
    have hlen : p.tokens.length - p.cursor = read.length + after.length := by
      simpa [rest] using congrArg List.length hrest
    have hpos : 0 < read.length := List.length_pos_iff.2 derives.ne_nil
    refine ⟨by omega, by omega, ?_, noOperator_drop_iff.1 ?_⟩
    · rw [List.drop_take, ← rest, hrest, Nat.add_sub_cancel_left, List.take_left]
      exact derives
    · rw [← List.drop_drop, ← rest, hrest, List.drop_left]
      exact next

/-- Reading moves the cursor over what it consumes. -/
theorem moveTo_append {read after : List Token} (h : p.rest = read ++ after) :
    p.moveTo after = { p with cursor := p.cursor + read.length } := by
  simp [moveTo, h]

theorem parse_eq_ok_iff : p.parse = (.ok x, { p with cursor := j }) ↔ p.Reads x j := by
  rw [reads_iff_rest]
  unfold parse
  constructor
  · intro h
    rcases hp : Tree.parseWith p.last [] none p.rest with ⟨result, after⟩
    rw [hp] at h
    obtain ⟨rfl, hmove⟩ := Prod.mk.inj h
    obtain ⟨read, hrest, hx, hafter⟩ := Tree.parseWith_eq_ok_iff.1 hp
    rw [moveTo_append hrest] at hmove
    exact ⟨read, after, hrest, (congrArg cursor hmove).symm, hx, hafter⟩
  · rintro ⟨read, after, hrest, rfl, hx, hafter⟩
    rw [Tree.parseWith_eq_ok_iff.2 ⟨read, hrest, hx, hafter⟩]
    show (Except.ok x, p.moveTo after) = _
    rw [moveTo_append hrest]

theorem reads_of_parse {q : Parser} (h : p.parse = (.ok x, q)) : p.Reads x q.cursor := by
  have hmoved : p.parse.2 = { p with cursor := p.parse.2.cursor } := rfl
  have hq : q = { p with cursor := q.cursor } := by
    rw [h] at hmoved
    exact hmoved
  rw [hq] at h
  exact parse_eq_ok_iff.1 h

/-- **A parser decides the grammar.** It returns the tree `x` and leaves the cursor at `j` exactly if `x` is the tree of
a derivation of the tokens up to `j`, where no binary operator stands; and there is at most one such tree and place. -/
theorem parse_ok_iff_reads (p : Parser) :
    (∀ x j, p.parse = (.ok x, { p with cursor := j }) ↔ p.Reads x j) ∧
      ∀ x j y k, p.Reads x j → p.Reads y k → x = y ∧ j = k := by
  refine ⟨fun x j => parse_eq_ok_iff, fun x j y k hx hy => ?_⟩
  rw [← parse_eq_ok_iff] at hx hy
  obtain ⟨hxy, hjk⟩ := Prod.mk.inj (hx.symm.trans hy)
  exact ⟨Except.ok.inj hxy, congrArg cursor hjk⟩

end Parser

end ExprLang
