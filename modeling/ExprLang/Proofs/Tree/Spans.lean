import ExprLang.Proofs.Token.LineBreaks
import ExprLang.Proofs.Tree.SourceOrder

/-!
# Spans of nodes

Every node of a tree that was parsed has been read from tokens that stand in a row, and it is on the line of the first of
them. A binary expression has no token of its own there: its line is that of its left operand, and so of the leftmost
token below it.

* `Span`, `Tree.spans` — the nodes of a tree, each with the places of the tokens it has been read from;
* `Tree.pairwise_start_spans` — the nodes are visited from left to right;
* `Derives.line?_eq` — what is derived is on the line of the first token it is derived from;
* `Derives.isRead_of_mem_spans` — so is every node below it, for it is derived from the tokens of its span;
* `Parser.parse_lines` — the lines of the nodes of a tree that was parsed.
-/

namespace ExprLang

/-! ## Nodes and their places -/

/-- A node whose first token is at the place `start`. -/
structure Span where
  node : Tree
  start : Nat
  deriving DecidableEq

namespace Span

/-- The place after the last token of the node. -/
def stop (s : Span) : Nat := s.start + s.node.symbols.length

/-- The node is derived from the tokens of its span. -/
def IsRead (tokens : List Token) (s : Span) : Prop := ∃ n, Derives n ((tokens.take s.stop).drop s.start) s.node

/-- The node has tokens, and all of them are from the place `i` on and before the place `j`. -/
structure Within (i j : Nat) (s : Span) : Prop where
  start : i ≤ s.start
  nonempty : s.start < s.stop
  stop : s.stop ≤ j

theorem Within.mono {i j i' j' : Nat} {s : Span} (h : s.Within i j) (hi : i' ≤ i) (hj : j ≤ j') : s.Within i' j' :=
  ⟨Nat.le_trans hi h.start, h.nonempty, Nat.le_trans h.stop hj⟩

end Span

namespace Tree

/-- The nodes of a tree in pre-order with their places, if its first token is at the place `i`. An operand starts after the
operator or the parenthesis before it, but a left operand starts where the whole does. -/
def spans : Tree → (i : Nat) → List Span
  | .missing, _ => []
  | .literalAt line t, i => [⟨.literalAt line t, i⟩]
  | .grouping line x, i => ⟨.grouping line x, i⟩ :: x.spans (i + 1)
  | .unaryAt line op x, i => ⟨.unaryAt line op x, i⟩ :: x.spans (i + 1)
  | .binaryAt line x op y, i => ⟨.binaryAt line x op y, i⟩ :: (x.spans i ++ y.spans (i + x.symbols.length + 1))

/-- All nodes have a span, and they stand in the order in which they are visited. -/
theorem map_node_spans (x : Tree) (i : Nat) : (x.spans i).map Span.node = x.walk fun _ => true := by
  induction x generalizing i with
  | missing => rfl
  | literalAt line t => rfl
  | grouping line x ih => rw [spans, List.map_cons, ih, walk_grouping, if_pos rfl]
  | unaryAt line op x ih => rw [spans, List.map_cons, ih, walk_unaryAt, if_pos rfl]
  | binaryAt line x op y ihx ihy => rw [spans, List.map_cons, List.map_append, ihx, ihy, walk_binaryAt, if_pos rfl]

theorem head?_spans {x : Tree} (h : x.Complete) (i : Nat) : (x.spans i).head? = some ⟨x, i⟩ := by
  cases x with
  | missing => exact h.elim
  | _ => rfl

/-- The nodes of a tree have been read from its tokens. -/
theorem within_of_mem_spans {x : Tree} {i : Nat} {s : Span} (h : s ∈ x.spans i) :
    s.Within i (i + x.symbols.length) := by
  have root : ∀ {y : Tree} {i : Nat}, 0 < y.symbols.length → (Span.mk y i).Within i (i + y.symbols.length) :=
    fun hpos => ⟨Nat.le_refl _, Nat.lt_add_of_pos_right hpos, Nat.le_refl _⟩
  induction x generalizing i with
  | missing => cases h
  | literalAt line t =>
    obtain rfl := List.mem_singleton.1 h
    exact root (Nat.succ_pos _)
  | grouping line x ih =>
    have hlen : (grouping line x).symbols.length = x.symbols.length + 2 := by simp [symbols]
    rcases List.mem_cons.1 h with rfl | h
    · exact root (by omega)
    · exact (ih h).mono (by omega) (by omega)
  | unaryAt line op x ih =>
    have hlen : (unaryAt line op x).symbols.length = x.symbols.length + 1 := rfl
    rcases List.mem_cons.1 h with rfl | h
    · exact root (by omega)
    · exact (ih h).mono (by omega) (by omega)
  | binaryAt line x op y ihx ihy =>
    have hlen : (binaryAt line x op y).symbols.length = x.symbols.length + (y.symbols.length + 1) := List.length_append
    rcases List.mem_cons.1 h with rfl | h
    · exact root (by omega)
    · rcases List.mem_append.1 h with h | h
      · exact (ihx h).mono (by omega) (by omega)
      · exact (ihy h).mono (by omega) (by omega)

/-- **The nodes are visited from left to right.** -/
theorem pairwise_start_spans (x : Tree) (i : Nat) : (x.spans i).Pairwise fun s s' => s.start ≤ s'.start := by
  induction x generalizing i with
  | missing => exact .nil
  | literalAt line t => exact List.pairwise_singleton _ _
  | grouping line x ih =>
    refine List.pairwise_cons.2 ⟨fun s hs => ?_, ih (i + 1)⟩
    exact Nat.le_of_succ_le (within_of_mem_spans hs).start
  | unaryAt line op x ih =>
    refine List.pairwise_cons.2 ⟨fun s hs => ?_, ih (i + 1)⟩
    exact Nat.le_of_succ_le (within_of_mem_spans hs).start
  | binaryAt line x op y ihx ihy =>
    have right : ∀ s ∈ y.spans (i + x.symbols.length + 1), i + x.symbols.length < s.start :=
      fun s hs => (within_of_mem_spans hs).start
    refine List.pairwise_cons.2 ⟨fun s hs => ?_, List.pairwise_append.2 ⟨ihx i, ihy _, fun s hs s' hs' => ?_⟩⟩
    · rcases List.mem_append.1 hs with hs | hs
      · exact (within_of_mem_spans hs).start
      · have := right s hs
        show i ≤ s.start
        omega
    · obtain ⟨-, hpos, hstop⟩ := within_of_mem_spans hs
      have := right s' hs'
      omega

end Tree

/-! ## Derivations of the nodes -/

section Derivations

variable {n : Nonterminal} {ts us tokens post : List Token} {x : Tree} {i : Nat} {s : Span}

/-- **What is derived is on the line of the first token it is derived from.** -/
theorem Derives.line?_eq (h : Derives n ts x) : x.line? = ts.head?.map Token.line := by
  induction h with
  | operand _ ih => exact ih
  | @binary level ts us x y op left _ _ ih =>
    -- the line of the whole is that of the left operand, which has a token
    obtain ⟨t, ht⟩ : ∃ t, ts.head? = some t := Option.ne_none_iff_exists'.1 (List.head?_eq_none_iff.not.2 left.ne_nil)
    rw [ht, Option.map_some] at ih
    rw [Tree.line?, ih, List.head?_append_of_ne_nil _ left.ne_nil, ht]
    rfl
  | plain _ ih => exact ih
  | unary => rfl
  | literal => rfl
  | grouping => rfl

theorem drop_add_of_drop (h : tokens.drop i = us ++ post) : tokens.drop (i + us.length) = post := by
  rw [← List.drop_drop, h, List.drop_left]

theorem Derives.isRead (h : Derives n us x) (hdrop : tokens.drop i = us ++ post) : Span.IsRead tokens ⟨x, i⟩ := by
  refine ⟨n, ?_⟩
  rw [Span.stop, List.drop_take, Nat.add_sub_cancel_left, hdrop, h.length_symbols, List.take_left]
  exact h

/-- **Every node of a derived tree is derived from the tokens of its span.** -/
theorem Derives.isRead_of_mem_spans (h : Derives n ts x) (hdrop : tokens.drop i = ts ++ post) (hs : s ∈ x.spans i) :
    s.IsRead tokens := by
  induction h generalizing i post with
  | operand _ ih => exact ih hdrop hs
  | @binary level ts us x y op left mid right ihx ihy =>
    rcases List.mem_cons.1 hs with rfl | hs
    · exact (Derives.binary left mid right).isRead hdrop
    · have hleft : tokens.drop i = ts ++ (op :: us ++ post) := by rw [hdrop, List.append_assoc]
      rcases List.mem_append.1 hs with hs | hs
      · exact ihx hleft hs
      · have hop : tokens.drop (i + x.symbols.length) = [op] ++ (us ++ post) := by
          rw [left.length_symbols]
          exact drop_add_of_drop hleft
        exact ihy (drop_add_of_drop hop) hs
  | plain _ ih => exact ih hdrop hs
  | @unary op ts x mark h ih =>
    rcases List.mem_cons.1 hs with rfl | hs
    · exact (Derives.unary mark h).isRead hdrop
    · have hoperand : tokens.drop i = [op] ++ (ts ++ post) := hdrop
      exact ih (drop_add_of_drop hoperand) hs
  | literal h =>
    obtain rfl := List.mem_singleton.1 hs
    exact (Derives.literal h).isRead hdrop
  | @grouping l r ts x opening inner closing ih =>
    rcases List.mem_cons.1 hs with rfl | hs
    · exact (Derives.grouping opening inner closing).isRead hdrop
    · have hinner : tokens.drop i = [l] ++ (ts ++ (r :: post)) := by simpa using hdrop
      exact ih (drop_add_of_drop hinner) hs

/-- A node is on the line of the first token of its span. -/
theorem Span.IsRead.line?_eq (h : s.IsRead tokens) (hpos : s.start < s.stop) :
    ∃ t, tokens[s.start]? = some t ∧ s.node.line? = some t.line := by
  obtain ⟨n, h⟩ := h
  have hhead : ((tokens.take s.stop).drop s.start).head? = tokens[s.start]? := by
    rw [List.head?_drop, List.getElem?_take_of_lt hpos]
  obtain ⟨t, ht⟩ := Option.ne_none_iff_exists'.1 fun hnone => h.ne_nil (List.head?_eq_none_iff.1 hnone)
  refine ⟨t, hhead ▸ ht, ?_⟩
  rw [h.line?_eq, ht, Option.map_some]

end Derivations

/-! ## Parsing -/

theorem line_le_of_pairwise {tokens : List Token} (h : tokens.Pairwise fun t u => t.line ≤ u.line) {i j : Nat}
    (hij : i ≤ j) {t u : Token} (ht : tokens[i]? = some t) (hu : tokens[j]? = some u) : t.line ≤ u.line := by
  obtain ⟨hi, rfl⟩ := List.getElem?_eq_some_iff.1 ht
  obtain ⟨hj, rfl⟩ := List.getElem?_eq_some_iff.1 hu
  rcases Nat.eq_or_lt_of_le hij with rfl | hlt
  · exact Int.le_refl _
  · exact List.pairwise_iff_getElem.1 h i j hi hj hlt

/-- **Every node of a tree that was parsed is on the line of the token that starts it.** The nodes have their places among
the tokens that were consumed, the tree itself all of them. Each node is derived from the tokens at its places, and is on
the line of the first of them. They are visited from left to right, and if the tokens are those of a source, a node that
starts later is on no earlier line. -/
theorem Parser.parse_lines {p q : Parser} {x : Tree} (h : p.parse = (.ok x, q)) :
    let spans := x.spans p.cursor
    spans.map Span.node = (x.walk fun _ => true) ∧
    (spans.head? = some ⟨x, p.cursor⟩ ∧ (Span.mk x p.cursor).stop = q.cursor) ∧
    (∀ s ∈ spans, s.Within p.cursor q.cursor ∧ s.IsRead p.tokens ∧
      ∃ t, p.tokens[s.start]? = some t ∧ s.node.line? = some t.line) ∧
    (∃ t, p.tokens[p.cursor]? = some t ∧ x.line? = some t.line) ∧
    (spans.Pairwise fun s s' => s.start ≤ s'.start) ∧
    ∀ src, Token.scan src = .ok p.tokens → ∀ s ∈ spans, ∀ s' ∈ spans, s.start ≤ s'.start →
      ∀ l ∈ s.node.line?, ∀ l' ∈ s'.node.line?, l ≤ l' := by
  intro spans
  obtain ⟨read, after, hrest, -, derives, -⟩ := reads_iff_rest.1 (reads_of_parse h)
  have hcursor := cursor_of_parse h
  have hroot := Tree.head?_spans derives.wellFormed.complete p.cursor
  have hline : ∀ s ∈ spans, s.Within p.cursor q.cursor ∧ s.IsRead p.tokens ∧
      ∃ t, p.tokens[s.start]? = some t ∧ s.node.line? = some t.line := by
    intro s hs
    have hwithin := Tree.within_of_mem_spans hs
    have hread := derives.isRead_of_mem_spans hrest hs
    rw [hcursor]
    exact ⟨hwithin, hread, hread.line?_eq hwithin.nonempty⟩
  refine ⟨x.map_node_spans p.cursor, ⟨hroot, hcursor.symm⟩, hline, ?_, x.pairwise_start_spans p.cursor, ?_⟩
  · exact (hline _ (List.mem_of_mem_head? hroot)).2.2
  · intro src hscan s hs s' hs' hstart l hl l' hl'
    obtain ⟨-, -, t, ht, htline⟩ := hline s hs
    obtain ⟨-, -, t', ht', htline'⟩ := hline s' hs'
    obtain rfl : t.line = l := Option.some.inj (htline.symm.trans hl)
    obtain rfl : t'.line = l' := Option.some.inj (htline'.symm.trans hl')
    exact line_le_of_pairwise (Token.pairwise_line_of_scan hscan) hstart ht ht'

/-- The nodes of a source over three lines: the whole and its left operand start at the parenthesis on the first line, and
the right operand at the minus sign on the third one. -/
theorem Parser.parse_lines_of_three :
    let src := utf8 "(nil\n== true)\n!= - nil"
    let mark (kind : Kind) (lexeme : String) (line : Int) : Token := { kind, lexeme := utf8 lexeme, line }
    let nil := mark .kwNil "nil" 1
    let equal := mark .equalEqual "==" 2
    let true_ := mark .kwTrue "true" 2
    let differ := mark .bangEqual "!=" 3
    let minus := mark .minus "-" 3
    let nil' := mark .kwNil "nil" 3
    let p : Parser := { tokens :=
      [mark .leftParen "(" 1, nil, equal, true_, mark .rightParen ")" 2, differ, minus, nil', .endOfSource 3] }
    let left : Tree := .grouping 1 (.binary (.literal nil) equal (.literal true_))
    let right : Tree := .unary minus (.literal nil')
    let x : Tree := .binary left differ right
    Token.scan src = .ok p.tokens ∧ p.parse = (.ok x, { p with cursor := 8 }) ∧
      (x.spans 0).map Span.start = [0, 0, 1, 1, 3, 6, 7] ∧
      (∀ s ∈ x.spans 0, ∃ t, p.tokens[s.start]? = some t ∧ s.node.line? = some t.line) ∧
      ∀ l ∈ left.line?, ∀ l' ∈ right.line?, l ≤ l' := by
  intro src mark nil equal true_ differ minus nil' p left right x
  have hscan : Token.scan src = .ok p.tokens := rfl
  have h : p.parse = (.ok x, { p with cursor := 8 }) := rfl
  obtain ⟨-, -, hline, -, -, hsource⟩ := Parser.parse_lines h
  have hleft : Span.mk left 0 ∈ x.spans 0 := List.mem_of_getElem? (i := 1) rfl
  have hright : Span.mk right 6 ∈ x.spans 0 := List.mem_of_getElem? (i := 5) rfl
  exact ⟨hscan, h, rfl, fun s hs => (hline s hs).2.2, hsource src hscan _ hleft _ hright (Nat.zero_le 6)⟩

end ExprLang
