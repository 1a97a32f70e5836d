import ExprLang.Proofs.Tree.Descent

/-!
# The cursor of a parser

A parser may be called again and again, after failures too. Whatever the calls, its cursor goes forward only, over tokens
that are not the end of the source:

* `Parser.Passes p q` — from `p` to `q`, the cursor passes tokens none of which marks the end;
* `Parser.passes_parse`, `Parser.passes_synchronize` — so it does in each call, and `Parser.passes_after` in all of them;
* `Parser.endIndex` — the place of the first token that marks the end, beyond which the cursor does not get;
* `Parser.after_safe` — what holds after any calls.
-/

namespace ExprLang

/-! ## Tokens that are consumed -/

/-- Parsing consumes tokens in front, and never the end of the source. -/
theorem Tree.parseWith_consumes (last : Token) (stack : List Frame) (operand : Option Tree) (ts : List Token) :
    ∃ read, ts = read ++ (parseWith last stack operand ts).2 ∧ ∀ t ∈ read, t.kind ≠ .eof := by
  fun_induction parseWith last stack operand ts with
  | case2 stack t rest hu ih =>
    obtain ⟨read, hread, hne⟩ := ih
    have ht : t.kind ≠ .eof := Parser.ne_eof_of_unaryOperator (Kind.isUnaryOperator_iff.1 hu)
    exact ⟨t :: read, congrArg (t :: ·) hread, List.forall_mem_cons.2 ⟨ht, hne⟩⟩
  | case3 stack t rest _ hl ih =>
    obtain ⟨read, hread, hne⟩ := ih
    exact ⟨t :: read, congrArg (t :: ·) hread, List.forall_mem_cons.2 ⟨Parser.ne_eof_of_isLiteral hl, hne⟩⟩
  | case4 stack t rest _ _ hp ih =>
    obtain ⟨read, hread, hne⟩ := ih
    exact ⟨t :: read, congrArg (t :: ·) hread, List.forall_mem_cons.2 ⟨by simp [hp], hne⟩⟩
  | case8 stack x t rest level hlevel _ _ _ ih =>
    obtain ⟨read, hread, hne⟩ := ih
    have ht : t.kind ≠ .eof := Parser.ne_eof_of_operator (Kind.precedence?_eq_some_iff.1 hlevel)
    exact ⟨t :: read, congrArg (t :: ·) hread, List.forall_mem_cons.2 ⟨ht, hne⟩⟩
  | case10 stack x t rest _ line _ y _ hp ih =>
    obtain ⟨read, hread, hne⟩ := ih
    exact ⟨t :: read, congrArg (t :: ·) hread, List.forall_mem_cons.2 ⟨by simp [hp], hne⟩⟩
  | _ => exact ⟨[], rfl, by simp⟩

namespace Parser

/-- Skipping passes tokens in front, and never the end of the source. -/
theorem skip_consumes (previous : Token) (ts : List Token) :
    ∃ read, ts = read ++ skip previous ts ∧ ∀ t ∈ read, t.kind ≠ .eof := by
  induction ts generalizing previous with
  | nil => exact ⟨[], rfl, by simp⟩
  | cons t ts ih =>
    rw [skip]
    split
    · exact ⟨[], rfl, by simp⟩
    · rename_i h
      obtain ⟨read, hread, hne⟩ := ih t
      exact ⟨t :: read, congrArg (t :: ·) hread, List.forall_mem_cons.2 ⟨fun ht => h (.inl ht), hne⟩⟩

variable {p q r : Parser}

/-- From `p` to `q` the cursor passes tokens that do not mark the end. -/
def Passes (p q : Parser) : Prop :=
  ∃ read, p.rest = read ++ q.rest ∧ q = { p with cursor := p.cursor + read.length } ∧ ∀ t ∈ read, t.kind ≠ .eof

theorem Passes.refl (p : Parser) : p.Passes p := ⟨[], rfl, rfl, by simp⟩

theorem Passes.trans (h : p.Passes q) (h' : q.Passes r) : p.Passes r := by
  obtain ⟨read, hrest, hq, hne⟩ := h
  obtain ⟨read', hrest', hr, hne'⟩ := h'
  refine ⟨read ++ read', ?_, ?_, List.forall_mem_append.2 ⟨hne, hne'⟩⟩
  · rw [hrest, hrest', List.append_assoc]
  · rw [hr, hq, List.length_append, Nat.add_assoc]

theorem passes_moveTo {read after : List Token} (h : p.rest = read ++ after) (hne : ∀ t ∈ read, t.kind ≠ .eof) :
    p.Passes (p.moveTo after) := by
  rw [moveTo_append h]
  refine ⟨read, ?_, rfl, hne⟩
  rw [h, rest, ← List.drop_drop, ← rest, h, List.drop_left]

theorem passes_parse (p : Parser) : p.Passes p.parse.2 := by
  obtain ⟨read, hread, hne⟩ := Tree.parseWith_consumes p.last [] none p.rest
  exact passes_moveTo hread hne

theorem passes_synchronize (p : Parser) : p.Passes p.synchronize := by
  rw [synchronize]
  cases hrest : p.rest with
  | nil => exact Passes.refl p
  | cons t ts =>
    dsimp only
    split
    · exact Passes.refl p
    · rename_i ht
      obtain ⟨read, hread, hne⟩ := skip_consumes t ts
      have hcons : p.rest = (t :: read) ++ skip t ts := hrest.trans (congrArg (t :: ·) hread)
      exact passes_moveTo hcons (List.forall_mem_cons.2 ⟨ht, hne⟩)

/-! ## Sequences of calls -/

/-- What a parser may be asked to do. -/
inductive Call where
  | parse
  | synchronize
  deriving DecidableEq

/-- The parser after a call. -/
def perform (p : Parser) : Call → Parser
  | .parse => p.parse.2
  | .synchronize => p.synchronize

/-- The parser after some calls. -/
def after (p : Parser) (calls : List Call) : Parser := calls.foldl perform p

theorem passes_perform (p : Parser) (c : Call) : p.Passes (p.perform c) := by
  cases c with
  | parse => exact passes_parse p
  | synchronize => exact passes_synchronize p

theorem passes_after (p : Parser) (calls : List Call) : p.Passes (p.after calls) := by
  induction calls generalizing p with
  | nil => exact Passes.refl p
  | cons c calls ih => exact (passes_perform p c).trans (ih (p.perform c))

/-! ## The end -/

/-- The place of the first token that marks the end; after the list if there is none. -/
def endIndex (tokens : List Token) : Nat := tokens.findIdx (·.kind = .eof)

/-- The end stays where it is while the cursor moves towards it. -/
theorem Passes.add_endIndex (h : p.Passes q) : p.cursor + endIndex p.rest = q.cursor + endIndex q.rest := by
  obtain ⟨read, hrest, hq, hne⟩ := h
  have hread : read.findIdx (·.kind = .eof) = read.length := by
    refine List.findIdx_eq_length_of_false fun t ht => ?_
    simpa using hne t ht
  have hcursor : q.cursor = p.cursor + read.length := congrArg cursor hq
  rw [hrest, endIndex, List.findIdx_append, hread, if_neg (Nat.lt_irrefl _), hcursor]
  simp only [endIndex]
  omega

/-- From the start of a list of tokens, the cursor gets as far from the end as its rest says. -/
theorem endIndex_of_passes {tokens : List Token} (h : Passes { tokens } p) :
    endIndex tokens = p.cursor + endIndex p.rest := by
  have hadd := h.add_endIndex
  rwa [Nat.zero_add] at hadd

theorem kind_peek_of_endIndex (h : endIndex p.rest = 0) : p.peek.kind = .eof := by
  cases hrest : p.rest with
  | nil =>
    rw [peek_eq_last hrest]
    rfl
  | cons t ts =>
    rw [peek_of_rest hrest]
    rw [hrest, endIndex, List.findIdx_cons] at h
    by_cases ht : t.kind = .eof
    · exact ht
    · simp [ht] at h

theorem parse_at_end (h : p.peek.kind = .eof) : p.parse = (.error ⟨p.peek, .expression⟩, p) := by
  have hmove : p.moveTo p.rest = p := (Leads.refl p).moveTo
  rw [parse, parseWith_of_peek (by simp [h, Kind.unaryOperators]) (by simp [h, Kind.isLiteral]) (by simp [h]) []]
  simp only [hmove]

theorem after_at_end (h : p.peek.kind = .eof) (calls : List Call) : p.after calls = p := by
  have hperform : ∀ c, p.perform c = p := by
    intro c
    cases c with
    | parse => exact congrArg Prod.snd (parse_at_end h)
    | synchronize => exact synchronize_at_end h
  induction calls with
  | nil => rfl
  | cons c calls ih =>
    rw [after, List.foldl_cons, hperform]
    exact ih

theorem cursor_lt_of_parse {x : Tree} (h : p.parse = (.ok x, q)) : p.cursor < q.cursor := by
  obtain ⟨read, after, -, hcursor, hx, -⟩ := reads_iff_rest.1 (reads_of_parse h)
  have hpos : 0 < read.length := List.length_pos_iff.2 hx.ne_nil
  omega

/-- **The cursor of a parser is safe over any use.** After any calls: a further call comes to an end and never looks back
at a token that is not there; the cursor does not go back, and not beyond the first token that marks the end; a tree is
returned only if a token has been consumed; and at the end nothing is read any more. -/
theorem after_safe (tokens : List Token) (before : List Call) :
    let p := ({ tokens } : Parser).after before
    (∀ calls, 8 * tokens.length + 6 ≤ calls →
      descend calls .expression p = .ok p.parse ∧ recover calls p = .ok (.ok (), p.synchronize)) ∧
    p.tokens = tokens ∧ p.cursor ≤ endIndex tokens ∧
    (∀ c, p.cursor ≤ (p.perform c).cursor ∧ (p.perform c).cursor ≤ endIndex tokens) ∧
    (∀ x q, p.parse = (.ok x, q) → p.cursor < q.cursor) ∧
    (p.cursor = endIndex tokens → (p.tokenAt (endIndex tokens)).kind = .eof ∧
      (∃ e, p.parse = (.error e, p) ∧ e.token = p.tokenAt (endIndex tokens) ∧
        e.cause.message = utf8 "Expect expression.") ∧
      p.synchronize = p ∧ ∀ later, p.after later = p) := by
  intro p
  have hp : Passes { tokens } p := passes_after _ before
  have hend := endIndex_of_passes hp
  have htokens : p.tokens = tokens := by
    obtain ⟨read, -, hq, -⟩ := hp
    rw [hq]
  refine ⟨fun calls hcalls => ?_, htokens, by omega, fun c => ?_, fun x q h => cursor_lt_of_parse h, fun hcursor => ?_⟩
  · have hlen : p.rest.length ≤ tokens.length := by
      rw [rest, List.length_drop, htokens]
      omega
    exact ⟨descend_parse (by omega), recover_synchronize (by omega)⟩
  · have hc := passes_perform p c
    have hend' := endIndex_of_passes (hp.trans hc)
    obtain ⟨read, -, hq, -⟩ := hc
    have hstep : (p.perform c).cursor = p.cursor + read.length := congrArg cursor hq
    omega
  · have hzero : endIndex p.rest = 0 := by omega
    have hpeek := kind_peek_of_endIndex hzero
    rw [← hcursor]
    exact ⟨hpeek, ⟨_, parse_at_end hpeek, rfl, rfl⟩, synchronize_at_end hpeek, after_at_end hpeek⟩

/-- With the end of the source in the middle of the tokens, the cursor gets there and no further. -/
theorem after_safe_end_in_the_middle :
    let minus : Token := { kind := .minus, lexeme := utf8 "-", line := 1 }
    let none : Token := { kind := .kwNil, lexeme := utf8 "nil", line := 2 }
    let tokens := [minus, .endOfSource 1, none]
    let p := ({ tokens } : Parser).after [.parse, .synchronize]
    p.cursor = endIndex tokens ∧ endIndex tokens = 1 ∧
      ∃ e, p.parse = (.error e, p) ∧ e.token = .endOfSource 1 ∧ e.cause.message = utf8 "Expect expression." := by
  intro minus none tokens p
  have hcursor : p.cursor = endIndex tokens := rfl
  exact ⟨hcursor, rfl, ((after_safe tokens [.parse, .synchronize]).2.2.2.2.2 hcursor).2.1⟩

end Parser

end ExprLang
