import ExprLang.Proofs.Tree.Lines
import ExprLang.Proofs.Tree.Parsing
import ExprLang.Source
import Mathlib.Logic.Function.Iterate

/-!
# Trees written as sources

Every tree that scanned tokens can make up is written down as a source, with parentheses around the operands that are
no literals, and reading the source gives the tree again.

* `Token.Scannable` — tokens that some source has, on whatever line;
* `Tree.Writable` — the trees that are written: complete, without groupings, with the tokens of expressions;
* `Tree.sourceTokens`, `Tree.sourceText` — the tokens in the order of the source, and their lexemes with a space between;
* `Tree.parenthesized` — the tree that is read, with a grouping for each pair of parentheses;
* `Tree.derives_parenthesized` — the grammar derives it from these tokens;
* `Tree.tree_sourceText` — the text is read as that tree, which is evaluated like the one that was written.
-/

namespace ExprLang

open Lexical

namespace Token

/-- The token of some source, on whatever line. -/
def Scannable (t : Token) : Prop := ∃ src ts u, scan src = .ok ts ∧ u ∈ ts ∧ u.withoutLine = t.withoutLine

theorem Scannable.isSpelt {t : Token} (h : t.Scannable) (hk : t.kind ≠ .eof) : t.IsSpelt := by
  obtain ⟨src, ts, u, hscan, hu, e⟩ := h
  have hkind : u.kind = t.kind := congrArg (·.kind) e
  have hlexeme : u.lexeme = t.lexeme := congrArg (·.lexeme) e
  obtain ⟨hl, ht⟩ := isSpelt_of_scan hscan hu (hkind ▸ hk)
  rw [hlexeme] at hl ht
  exact ⟨hl, e ▸ ht⟩

/-- A lexeme is a source by itself. -/
theorem scannable_tokenOf {l : Bytes} (h : Lexeme l) (n : Nat) : (tokenOf n l).Scannable := by
  have hlayout : Layout [l] l := ⟨[], l, .nil, .last, rfl⟩
  obtain ⟨us, hscan, hmap⟩ := scan_layout (List.forall_mem_singleton.2 h) hlayout
  obtain ⟨u, rfl, hu⟩ := List.map_eq_singleton_iff.1 hmap
  exact ⟨l, _, u, hscan, by simp, hu⟩

end Token

namespace Tree

/-! ## Writing -/

/-- Complete trees without groupings, made of scannable literals, unary operators and binary operators. -/
def Writable : Tree → Prop
  | .missing => False
  | .literalAt _ t => t.Scannable ∧ t.kind ∈ Kind.literals
  | .grouping _ _ => False
  | .unaryAt _ op x => (op.Scannable ∧ op.kind ∈ Kind.unaryOperators) ∧ x.Writable
  | .binaryAt _ x op y => x.Writable ∧ (op.Scannable ∧ op.kind ∈ Kind.binaryOperators) ∧ y.Writable

/-- Whether a tree is put in parentheses where it is an operand. -/
def isCompound : Tree → Bool
  | .unaryAt .. | .binaryAt .. => true
  | _ => false

/-- The opening parenthesis. -/
def openParen : Token := { kind := .leftParen, lexeme := utf8 "(", line := 0 }

/-- The closing parenthesis. -/
def closeParen : Token := { kind := .rightParen, lexeme := utf8 ")", line := 0 }

/-- The tokens of an operand, in parentheses if it is compound. -/
def enclose (compound : Bool) (ts : List Token) : List Token := if compound then openParen :: ts ++ [closeParen] else ts

/-- The tokens of the source of a tree. -/
def sourceTokens : Tree → List Token
  | .missing => []
  | .literalAt _ t => [t]
  | .grouping _ x => openParen :: x.sourceTokens ++ [closeParen]
  | .unaryAt _ op x => op :: enclose x.isCompound x.sourceTokens
  | .binaryAt _ x op y => enclose x.isCompound x.sourceTokens ++ op :: enclose y.isCompound y.sourceTokens

/-- The source of a tree: its lexemes, with a space between neighbours. -/
def sourceText (x : Tree) : Bytes := Bytes.joinWith (utf8 " ") (x.sourceTokens.map (·.lexeme))

/-! ## Groupings -/

/-- The tree without its groupings. -/
def ungrouped : Tree → Tree
  | .missing => .missing
  | .literalAt line t => .literalAt line t
  | .grouping _ x => x.ungrouped
  | .unaryAt line op x => .unaryAt line op x.ungrouped
  | .binaryAt line x op y => .binaryAt line x.ungrouped op y.ungrouped

/-- An operand, as a grouping if it is compound. -/
def group (compound : Bool) (x : Tree) : Tree := if compound then .grouping 0 x else x

/-- The tree with a grouping for each operand that is put in parentheses. -/
def parenthesized : Tree → Tree
  | .missing => .missing
  | .literalAt _ t => .literal t
  | .grouping line x => .grouping line x.parenthesized
  | .unaryAt _ op x => .unary op (group x.isCompound x.parenthesized)
  | .binaryAt _ x op y => .binary (group x.isCompound x.parenthesized) op (group y.isCompound y.parenthesized)

theorem ungrouped_group (compound : Bool) (x : Tree) : (group compound x).ungrouped = x.ungrouped := by
  cases compound <;> rfl

/-- The nodes that are read are those that were written, on lines of their own. -/
theorem ungrouped_parenthesized (x : Tree) : x.parenthesized.ungrouped.withoutLines = x.ungrouped.withoutLines := by
  unfold withoutLines
  induction x with
  | missing => rfl
  | literalAt line t => rfl
  | grouping _ x ih => exact ih
  | unaryAt line op x ih => simp only [parenthesized, ungrouped, ungrouped_group, mapLines, ih]
  | binaryAt line x op y ihx ihy => simp only [parenthesized, ungrouped, ungrouped_group, mapLines, ihx, ihy]

theorem ungrouped_mapLines (f : Int → Int) (x : Tree) : (x.mapLines f).ungrouped = x.ungrouped.mapLines f := by
  induction x with
  | missing => rfl
  | literalAt line t => rfl
  | grouping _ x ih => exact ih
  | unaryAt line op x ih => simp only [mapLines, ungrouped, ih]
  | binaryAt line x op y ihx ihy => simp only [mapLines, ungrouped, ihx, ihy]

/-- Parentheses do not matter to the value, nor to the error there is instead. -/
theorem evaluate_ungrouped (x : Tree) : x.ungrouped.evaluate = x.evaluate := by
  induction x with
  | missing => rfl
  | literalAt line t => rfl
  | grouping _ x ih => exact ih
  | unaryAt line op x ih => simp only [ungrouped, evaluate, ih]
  | binaryAt line x op y ihx ihy => simp only [ungrouped, evaluate, ihx, ihy]

namespace Writable

variable {x : Tree}

theorem ungrouped_eq (h : x.Writable) : x.ungrouped = x := by
  induction x with
  | missing => exact h.elim
  | literalAt line t => rfl
  | grouping => exact h.elim
  | unaryAt line op x ih => simp only [ungrouped, ih h.2]
  | binaryAt line x op y ihx ihy => simp only [ungrouped, ihx h.1, ihy h.2.2]

theorem complete (h : x.Writable) : x.Complete := by
  induction x with
  | missing => exact h.elim
  | literalAt line t => exact trivial
  | grouping => exact h.elim
  | unaryAt line op x ih => exact ih h.2
  | binaryAt line x op y ihx ihy => exact ⟨ihx h.1, ihy h.2.2⟩

end Writable

/-! ## Reading -/

/-- An operand that is put in parentheses becomes a primary expression. -/
theorem derives_enclose {x : Tree} {ts : List Token} (h : Derives .expression ts x) :
    Derives .primary (enclose true ts) (group true x) :=
  .grouping (l := openParen) (r := closeParen) rfl h rfl

/-- **The grammar derives the parenthesized tree from the tokens of the source.** As an operand it is a primary
expression, so that no operator next to it can take a part of it away. -/
theorem derives_parenthesized {x : Tree} (h : x.Writable) :
    Derives .expression x.sourceTokens x.parenthesized ∧
      Derives .primary (enclose x.isCompound x.sourceTokens) (group x.isCompound x.parenthesized) := by
  induction x with
  | missing => exact h.elim
  | literalAt line t =>
    have hprimary : Derives .primary [t] (.literal t) := .literal h.2
    exact ⟨hprimary.loosen (by decide), hprimary⟩
  | grouping => exact h.elim
  | unaryAt line op x ih =>
    have hunary : Derives .unary (sourceTokens (.unary op x)) (parenthesized (.unary op x)) :=
      .unary h.1.2 (.plain (ih h.2).2)
    have hexpr : Derives .expression _ _ := hunary.loosen (by decide)
    exact ⟨hexpr, derives_enclose hexpr⟩
  | binaryAt line x op y ihx ihy =>
    obtain ⟨level, hlevel⟩ : ∃ level : Precedence, op.kind ∈ level.operators := by
      cases hk : op.kind.precedence? with
      | none => exact absurd h.2.1.2 (Kind.precedence?_eq_none_iff.1 hk)
      | some level => exact ⟨level, Kind.precedence?_eq_some_iff.1 hk⟩
    have hprimary : ∀ {ts z}, Derives .primary ts z → Derives (.binary level) ts z ∧ Derives level.operand ts z :=
      fun h => ⟨h.loosen (by cases level <;> decide), h.loosen (by cases level <;> decide)⟩
    have hbinary : Derives (.binary level) (sourceTokens (.binary x op y)) (parenthesized (.binary x op y)) :=
      .binary (hprimary (ihx h.1).2).1 hlevel (hprimary (ihy h.2.2).2).2
    have hexpr : Derives .expression _ _ := hbinary.loosen (by cases level <;> decide)
    exact ⟨hexpr, derives_enclose hexpr⟩

theorem isSpelt_paren : openParen.IsSpelt ∧ closeParen.IsSpelt := by
  have hopen : ('('.toUInt8, Kind.leftParen) ∈ punctuators := by decide
  have hclose : (')'.toUInt8, Kind.rightParen) ∈ punctuators := by decide
  exact ⟨⟨.punctuator hopen, (tokenOf_punctuator hopen 0).symm⟩, .punctuator hclose, (tokenOf_punctuator hclose 0).symm⟩

theorem isSpelt_enclose {compound : Bool} {ts : List Token} (h : ∀ t ∈ ts, t.IsSpelt) :
    ∀ t ∈ enclose compound ts, t.IsSpelt := by
  cases compound with
  | false => exact h
  | true =>
    refine List.forall_mem_append.2 ⟨List.forall_mem_cons.2 ⟨isSpelt_paren.1, h⟩, ?_⟩
    exact List.forall_mem_singleton.2 isSpelt_paren.2

theorem isSpelt_of_kind {t : Token} {ks : List Kind} (h : t.Scannable ∧ t.kind ∈ ks) (hks : Kind.eof ∉ ks) : t.IsSpelt :=
  h.1.isSpelt fun hk => hks (hk ▸ h.2)

theorem isSpelt_sourceTokens {x : Tree} (h : x.Writable) : ∀ t ∈ x.sourceTokens, t.IsSpelt := by
  induction x with
  | missing => exact h.elim
  | literalAt line t => exact List.forall_mem_singleton.2 (isSpelt_of_kind h (by decide))
  | grouping => exact h.elim
  | unaryAt line op x ih => exact List.forall_mem_cons.2 ⟨isSpelt_of_kind h.1 (by decide), isSpelt_enclose (ih h.2)⟩
  | binaryAt line x op y ihx ihy =>
    refine List.forall_mem_append.2 ⟨isSpelt_enclose (ihx h.1), List.forall_mem_cons.2 ⟨?_, ?_⟩⟩
    · exact isSpelt_of_kind h.2.1 (by decide)
    · exact isSpelt_enclose (ihy h.2.2)

theorem spaced_joinWith (ls : List Bytes) : Spaced ls (Bytes.joinWith (utf8 " ") ls) := by
  have hspace : Spacing (utf8 " ") := .blank (by decide) .nil
  have hstarts : StartsBlank (utf8 " ") := ⟨' '.toUInt8, rfl, by decide⟩
  match ls with
  | [] => exact .nil
  | [l] =>
    rw [Bytes.joinWith, List.intercalate_singleton]
    exact .last
  | l :: l' :: ls =>
    have hrest := spaced_joinWith (l' :: ls)
    rw [Bytes.joinWith, List.intercalate_cons_cons, List.append_assoc]
    exact .cons hspace hstarts hrest

/-- The source of a tree has the tokens it was written with, up to their lines. -/
theorem scan_sourceText {x : Tree} (h : x.Writable) :
    ∃ us n, Token.scan x.sourceText = .ok (us ++ [Token.endOfSource n]) ∧
      us.map Token.withoutLine = x.sourceTokens.map Token.withoutLine := by
  have hspelt := isSpelt_sourceTokens h
  have hls : ∀ l ∈ x.sourceTokens.map (·.lexeme), Lexeme l := List.forall_mem_map.2 fun t ht => (hspelt t ht).lexeme
  obtain ⟨us, hscan, hmap⟩ := Token.scan_layout hls ⟨[], _, .nil, spaced_joinWith _, rfl⟩
  refine ⟨us, _, hscan, ?_⟩
  rw [hmap, List.map_map]
  exact List.map_congr_left fun t ht => (hspelt t ht).token.symm

/-- The tokens of a derivation are read up to the end of the source. -/
theorem parse_to_end {ts : List Token} {x : Tree} (h : Derives .expression ts x) (n : Int) :
    ({ tokens := ts ++ [Token.endOfSource n] } : Parser).parse =
      (.ok x, { tokens := ts ++ [Token.endOfSource n], cursor := ts.length }) := by
  refine Parser.parse_eq_ok_iff.2 (Parser.reads_iff_rest.2 ⟨ts, [Token.endOfSource n], rfl, ?_, h, ?_⟩)
  · exact (Nat.zero_add _).symm
  · simp [NoOperator, Token.endOfSource, Kind.binaryOperators]

/-- Tokens on other lines are read as the same tree, on other lines. -/
theorem parse_of_derives {us ts : List Token} {x : Tree} {n : Int}
    (hmap : us.map Token.withoutLine = ts.map Token.withoutLine) (hx : Derives .expression ts x) :
    ∃ x', ({ tokens := us ++ [Token.endOfSource n] } : Parser).parse =
        (.ok x', { tokens := us ++ [Token.endOfSource n], cursor := us.length }) ∧
      x'.withoutLines = x.withoutLines := by
  let p : Parser := { tokens := us ++ [Token.endOfSource n] }
  let q : Parser := { tokens := ts ++ [Token.endOfSource n] }
  have hq : q.parse = (.ok x, { q with cursor := ts.length }) := parse_to_end hx n
  have hpq : p.mapLines (fun _ => 0) = q.mapLines fun _ => 0 := by
    have htokens : p.tokens.map Token.withoutLine = q.tokens.map Token.withoutLine := by
      simp only [p, q, List.map_append, hmap]
    exact congrArg (Parser.mk · 0) htokens
  have hparse : (mapParsed (fun _ => 0) p.parse.1, p.parse.2.mapLines fun _ => 0) =
      (mapParsed (fun _ => 0) q.parse.1, q.parse.2.mapLines fun _ => 0) := by
    rw [← Parser.parse_mapLines _ (by simp [p]), ← Parser.parse_mapLines _ (by simp [q]), hpq]
  rw [hq] at hparse
  obtain ⟨hresult, hcursor⟩ := Prod.mk.inj hparse
  cases hp : p.parse with
  | mk result after =>
    rw [hp] at hresult hcursor
    cases result with
    | error e => cases hresult
    | ok x' =>
      have hlen : us.length = ts.length := by simpa using congrArg List.length hmap
      have hafter : after = { p with cursor := us.length } := by
        have htokens : after.tokens = p.tokens := by
          have hmove : p.parse.2.tokens = p.tokens := rfl
          rwa [hp] at hmove
        have hc : after.cursor = ts.length := congrArg Parser.cursor hcursor
        rw [hlen, ← hc, ← htokens]
      exact ⟨x', by rw [hafter], Except.ok.inj hresult⟩

theorem tree_of_parse {src : Bytes} {ts : List Token} {x : Tree} {p : Parser} (hscan : Token.scan src = .ok ts)
    (hparse : ({ tokens := ts } : Parser).parse = (.ok x, p)) : Source.tree src = .ok x := by
  have htokens : Source.tokens src = .ok ts := by rw [Source.tokens, hscan]; rfl
  rw [Source.tree, htokens]
  show (Tree.parse ts).mapError _ = _
  rw [Tree.parse, hparse]
  rfl

/-- **Every tree can be written down and means the same when it is read back.** The source of a writable tree is read to
its end, as a tree that is the same but for groupings and lines, and that is evaluated with the same end. -/
theorem tree_sourceText (x : Tree) (h : x.Writable) :
    ∃ us n x', Token.scan x.sourceText = .ok (us ++ [Token.endOfSource n]) ∧
      ({ tokens := us ++ [Token.endOfSource n] } : Parser).parse =
        (.ok x', { tokens := us ++ [Token.endOfSource n], cursor := us.length }) ∧
      Source.tree x.sourceText = .ok x' ∧ x'.ungrouped.withoutLines = x.withoutLines ∧
      EndsAlike x.evaluate x'.evaluate := by
  obtain ⟨us, n, hscan, hmap⟩ := scan_sourceText h
  obtain ⟨x', hparse, hx'⟩ := parse_of_derives (n := n) hmap (derives_parenthesized h).1
  have hsame : x'.ungrouped.withoutLines = x.withoutLines := by
    calc x'.ungrouped.withoutLines
      _ = x'.withoutLines.ungrouped := (ungrouped_mapLines _ x').symm
      _ = x.parenthesized.withoutLines.ungrouped := by rw [hx']
      _ = x.parenthesized.ungrouped.withoutLines := ungrouped_mapLines _ _
      _ = x.withoutLines := by rw [ungrouped_parenthesized, h.ungrouped_eq]
  refine ⟨us, n, x', hscan, hparse, tree_of_parse hscan hparse, hsame, ?_⟩
  rw [← evaluate_ungrouped x']
  exact evaluate_endsAlike h.complete hsame.symm

/-- The source of `1 - (2 - !"a")`, a tree that keeps its shape when it is read back. -/
theorem tree_sourceText_right_nested :
    let minus := tokenOf 1 (utf8 "-")
    let x : Tree := .binary (.literal (tokenOf 1 (utf8 "1"))) minus
      (.binary (.literal (tokenOf 1 (utf8 "2"))) minus (.unary (tokenOf 1 (utf8 "!")) (.literal (tokenOf 1 (utf8 "\"a\"")))))
    x.Writable ∧ x.sourceText = utf8 "1 - ( 2 - ( ! \"a\" ) )" ∧
      ∃ x', Source.tree (utf8 "1 - ( 2 - ( ! \"a\" ) )") = .ok x' ∧ x'.ungrouped.withoutLines = x.withoutLines := by
  intro minus x
  have hone : Lexeme (utf8 "1") := .integer (by decide) (List.forall_mem_singleton.2 rfl)
  have htwo : Lexeme (utf8 "2") := .integer (by decide) (List.forall_mem_singleton.2 rfl)
  have hstring : Lexeme (utf8 "\"a\"") := @Lexeme.string (utf8 "a") (by decide)
  have hminus : Lexeme (utf8 "-") := @Lexeme.punctuator 45 .minus (by decide)
  have hbang : Lexeme (utf8 "!") := @Lexeme.operator 33 .bang .bangEqual (by decide)
  have hx : x.Writable := by
    refine ⟨⟨Token.scannable_tokenOf hone 1, by decide⟩, ⟨Token.scannable_tokenOf hminus 1, by decide⟩, ?_⟩
    refine ⟨⟨Token.scannable_tokenOf htwo 1, by decide⟩, ⟨Token.scannable_tokenOf hminus 1, by decide⟩, ?_⟩
    exact ⟨⟨Token.scannable_tokenOf hbang 1, by decide⟩, Token.scannable_tokenOf hstring 1, by decide⟩
  have htext : x.sourceText = utf8 "1 - ( 2 - ( ! \"a\" ) )" := by decide
  obtain ⟨-, -, x', -, -, htree, hsame, -⟩ := tree_sourceText x hx
  exact ⟨hx, htext, x', htext ▸ htree, hsame⟩

/-! ## Signs -/

theorem derives_signs {minus t : Token} (hminus : minus.kind = .minus) (ht : t.kind ∈ Kind.literals) (n : Nat) :
    Derives .unary (List.replicate n minus ++ [t]) (Nat.iterate (.unary minus) n (.literal t)) := by
  induction n with
  | zero => exact .plain (.literal ht)
  | succ n ih =>
    rw [Function.iterate_succ_apply']
    exact .unary (by simp [hminus, Kind.unaryOperators]) ih

/-- **Minus signs before a number are read as so many nodes**, one in the other. -/
theorem tree_signs (n : Nat) :
    Source.tree (List.replicate n 45 ++ [49]) =
      .ok (Nat.iterate (.unary (tokenOf 1 (utf8 "-"))) n (.literal (tokenOf 1 (utf8 "1")))) := by
  have hscan := Token.scan_of_consumed (consumed_signs n List.not_mem_nil)
  have hderives : Derives .expression (List.replicate n (tokenOf 1 (utf8 "-")) ++ [tokenOf 1 (utf8 "1")]) _ :=
    (derives_signs rfl (by decide) n).loosen (by decide)
  exact tree_of_parse hscan (parse_to_end hderives _)

end Tree

end ExprLang
