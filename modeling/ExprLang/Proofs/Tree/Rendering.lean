import ExprLang.Proofs.Session.Run
import ExprLang.Proofs.Text.Lines
import ExprLang.Proofs.Tree.Lines
import ExprLang.Proofs.Tree.WellFormed

/-!
# The text form identifies a tree

In the text form of a tree that was parsed, every lexeme can be told from what follows it. A string ends at its closing
quote, whatever looks like a part of a tree inside, and any other lexeme ends at the space or the parenthesis after it.

* `Lexical.EndsAt c l` — before the byte `c`, the end of `l` is seen;
* `Tree.Spelt` — the trees made of the tokens of lexemes, each where the grammar has it, and `Source.spelt_of_tree` — the
  trees of sources are such;
* `Tree.renderOnto_inj` — the text form of a tree determines it up to the lines, and what follows it;
* `Tree.render_identifies` — so trees of sources that look alike have the same tokens and are evaluated alike.
-/

namespace ExprLang

open Bytes (isDigit isWordByte)
open Lexer (quoteByte)

/-! ## Where lexemes end -/

namespace Lexical

/-- The end of `l` is seen where `c` follows: `l` is a string, or holds neither `c` nor a quote. -/
inductive EndsAt (c : UInt8) : Bytes → Prop where
  | string {body : Bytes} (closed : quoteByte ∉ body) : EndsAt c (quoteByte :: (body ++ [quoteByte]))
  | solid {l : Bytes} (noQuote : quoteByte ∉ l) (before : c ∉ l) : EndsAt c l

variable {c : UInt8} {l m r s : Bytes}

/-- What holds no quote does not start like a string. -/
theorem not_string_of_solid (hc : c ≠ quoteByte) (hl : quoteByte ∉ l) : l ++ c :: r ≠ quoteByte :: s := by
  intro e
  cases l with
  | nil => exact hc (List.cons.inj e).1
  | cons b l =>
    obtain ⟨rfl, -⟩ := List.cons.inj e
    exact hl List.mem_cons_self

theorem EndsAt.append_inj (hl : EndsAt c l) (hm : EndsAt c m) (hc : c ≠ quoteByte) (h : l ++ c :: r = m ++ c :: s) :
    l = m ∧ r = s := by
  cases hl with
  | @string body closed =>
    cases hm with
    | @string body' closed' =>
      have hbody : body ++ quoteByte :: c :: r = body' ++ quoteByte :: c :: s := by simpa using h
      obtain ⟨rfl, e⟩ := Bytes.append_cons_inj closed closed' hbody
      exact ⟨rfl, (List.cons.inj e).2⟩
    | solid noQuote => exact absurd h.symm (not_string_of_solid hc noQuote)
  | solid noQuote before =>
    cases hm with
    | string => exact absurd h (not_string_of_solid hc noQuote)
    | solid _ before' => exact Bytes.append_cons_inj before before' h

/-- Blanks are in strings only. -/
theorem Lexeme.endsAt_blank (h : Lexeme l) (hc : c ∈ blanks) : EndsAt c l := by
  rcases h.string_or_solid with ⟨body, closed, rfl⟩ | solid
  · exact .string closed
  · exact .solid (fun hq => (solid _ hq).2 rfl) fun hmem => (solid c hmem).1 hc

/-- The byte that closes a node of the text form. -/
def closingByte : UInt8 := ')'.toUInt8

/-- A closing parenthesis is a lexeme by itself, and in no other one but in strings. -/
theorem Lexeme.endsAt_closing (h : Lexeme l) (hk : kindOf l ≠ .rightParen) : EndsAt closingByte l := by
  rcases h.string_or_solid with ⟨body, closed, rfl⟩ | solid
  · exact .string closed
  have word : ∀ {b : UInt8}, isWordByte b → b ≠ closingByte := by
    rintro _ hb rfl
    exact absurd hb (by decide)
  have digit : ∀ {b : UInt8}, isDigit b → b ≠ closingByte := fun hb => word (by simp [isWordByte, hb])
  have operator : ∀ e ∈ operators, e.1 ≠ closingByte := by decide
  refine .solid (fun hq => (solid _ hq).2 rfl) fun hmem => ?_
  cases h with
  | punctuator =>
    obtain rfl := List.mem_singleton.1 hmem
    exact hk rfl
  | operator hb =>
    obtain rfl := List.mem_singleton.1 hmem
    exact operator _ hb rfl
  | paired hb =>
    rcases List.mem_cons.1 hmem with rfl | hmem
    · exact operator _ hb rfl
    · exact absurd (List.mem_singleton.1 hmem) (by decide)
  | string => exact (solid quoteByte List.mem_cons_self).2 rfl
  | integer _ digits => exact digit (digits _ hmem) rfl
  | decimal _ digits _ fraction =>
    rcases List.mem_append.1 hmem with hmem | hmem
    · exact digit (digits _ hmem) rfl
    · rcases List.mem_cons.1 hmem with e | hmem
      · exact absurd e (by decide)
      · exact digit (fraction _ hmem) rfl
  | word first others =>
    rcases List.mem_cons.1 hmem with rfl | hmem
    · exact absurd first (by decide)
    · exact word (others _ hmem) rfl

end Lexical

open Lexical

/-! ## Trees of spelt tokens -/

namespace Token

variable {t : Token}

theorem IsSpelt.endsAt_space (h : t.IsSpelt) : EndsAt ' '.toUInt8 t.lexeme := h.lexeme.endsAt_blank (by decide)

theorem IsSpelt.endsAt_closing (h : t.IsSpelt) (hk : t.kind ∈ Kind.literals) : EndsAt closingByte t.lexeme := by
  refine h.lexeme.endsAt_closing ?_
  rw [← h.kind_eq]
  intro e
  rw [e] at hk
  exact absurd hk (by decide)

end Token

namespace Tree

/-- The tokens of the tree are those of lexemes, and its literals are of the kinds that literals have. -/
def Spelt : Tree → Prop
  | .missing => False
  | .literalAt _ t => t.IsSpelt ∧ t.kind ∈ Kind.literals
  | .grouping _ x => x.Spelt
  | .unaryAt _ op x => op.IsSpelt ∧ x.Spelt
  | .binaryAt _ x op y => x.Spelt ∧ op.IsSpelt ∧ y.Spelt

theorem WellFormed.spelt {among : List Token} {x : Tree} (h : x.WellFormed among)
    (hamong : ∀ t ∈ among, t.kind ≠ .eof → t.IsSpelt) : x.Spelt := by
  have present : ∀ {ks : List Kind} {t : Token}, Kind.eof ∉ ks → t ∈ among ∧ t.kind ∈ ks → t.IsSpelt := by
    intro ks t hks ht
    exact hamong t ht.1 fun e => hks (e ▸ ht.2)
  induction x with
  | missing => exact h
  | literalAt line t => exact ⟨present (by decide) h, h.2⟩
  | grouping _ x ih => exact ih h
  | unaryAt line op x ih => exact ⟨present (by decide) h.1, ih h.2⟩
  | binaryAt line x op y ihx ihy => exact ⟨ihx h.1, present (by decide) h.2.1, ihy h.2.2⟩

end Tree

theorem Source.spelt_of_tree {src : Bytes} {x : Tree} (h : tree src = .ok x) : x.Spelt := by
  obtain ⟨ts, hscan, hparse⟩ := tree_eq_ok_iff.1 h
  have hread := Parser.reads_of_parse (p := { tokens := ts }) (Prod.ext hparse rfl)
  refine (hread.derives.wellFormed.mono ?_).spelt fun t ht hk => Token.isSpelt_of_scan hscan ht hk
  exact List.Subset.trans (List.drop_subset _ _) (List.take_subset _ _)

/-! ## Reading the text form -/

namespace Tree

/-- The second character of the text form, which tells the shape of the node. -/
def initial : Tree → Char
  | .missing => 'n'
  | .literalAt _ _ => 'L'
  | .grouping .. => 'G'
  | .unaryAt .. => 'U'
  | .binaryAt .. => 'B'

variable {x y : Tree} {r s : Bytes}

theorem getElem?_renderOnto (x : Tree) (r : Bytes) :
    (x.renderOnto r)[1]?.map (fun b => Char.ofNat b.toNat) = some x.initial := by
  cases x <;> rfl

theorem initial_eq_of_renderOnto (h : x.renderOnto r = y.renderOnto s) : x.initial = y.initial := by
  have hsecond := getElem?_renderOnto x r
  rw [h, getElem?_renderOnto y s] at hsecond
  exact (Option.some.inj hsecond).symm

/-- **A text form can be read in one way only**: it determines the tree up to its lines, and what follows it. -/
theorem renderOnto_inj (hx : x.Spelt) (hy : y.Spelt) (h : x.renderOnto r = y.renderOnto s) :
    x.withoutLines = y.withoutLines ∧ r = s := by
  induction x generalizing y r s with
  | missing => exact hx.elim
  | literalAt line t =>
    cases y with
    | literalAt _ u =>
      have hlexeme : t.lexeme ++ closingByte :: r = u.lexeme ++ closingByte :: s := List.append_cancel_left h
      obtain ⟨e, rfl⟩ := (hx.1.endsAt_closing hx.2).append_inj (hy.1.endsAt_closing hy.2) (by decide) hlexeme
      exact ⟨congrArg (literalAt 0) (hx.1.withoutLine_eq hy.1 e), rfl⟩
    | _ => exact absurd (initial_eq_of_renderOnto h) (by simp [initial])
  | grouping _ x ih =>
    cases y with
    | grouping _ y =>
      have hinner := List.append_cancel_left h
      obtain ⟨e, hrest⟩ := ih (y := y) hx hy hinner
      exact ⟨congrArg (grouping 0) e, List.append_cancel_left hrest⟩
    | _ => exact absurd (initial_eq_of_renderOnto h) (by simp [initial])
  | unaryAt line op x ih =>
    cases y with
    | unaryAt _ op' y =>
      have hlexeme := List.append_cancel_left h
      obtain ⟨e, hinner⟩ := hx.1.endsAt_space.append_inj hy.1.endsAt_space (by decide) hlexeme
      obtain ⟨ex, hrest⟩ := ih hx.2 hy.2 hinner
      exact ⟨congrArg₂ (unaryAt 0) (hx.1.withoutLine_eq hy.1 e) ex, List.append_cancel_left hrest⟩
    | _ => exact absurd (initial_eq_of_renderOnto h) (by simp [initial])
  | binaryAt line x op x' ih ih' =>
    cases y with
    | binaryAt _ y op' y' =>
      have hlexeme := List.append_cancel_left h
      obtain ⟨e, hinner⟩ := hx.2.1.endsAt_space.append_inj hy.2.1.endsAt_space (by decide) hlexeme
      obtain ⟨ex, hnext⟩ := ih hx.1 hy.1 hinner
      have hinner' := List.append_cancel_left hnext
      obtain ⟨ex', hrest⟩ := ih' hx.2.2 hy.2.2 hinner'
      refine ⟨?_, List.append_cancel_left hrest⟩
      show binaryAt 0 x.withoutLines op.withoutLine x'.withoutLines =
        binaryAt 0 y.withoutLines op'.withoutLine y'.withoutLines
      rw [ex, ex', hx.2.1.withoutLine_eq hy.2.1 e]
    | _ => exact absurd (initial_eq_of_renderOnto h) (by simp [initial])

end Tree

/-- The report on a tree in the text format is its text form and a line feed. -/
theorem Report.of_tree_text {src : Bytes} {x : Tree} (h : Source.tree src = .ok x) :
    (of .tree .text src).result = .ok [x.render, utf8 "\n"] := by
  obtain ⟨ts, hscan, hparse⟩ := Source.tree_eq_ok_iff.1 h
  rw [of_scan_ok hscan (by decide), ofTokens_tree hparse]
  rfl

/-- **The text form identifies the tree of a source.** Trees of two sources look alike exactly if they are the same up to
the lines, with the same tokens in the same places, and then they are evaluated with the same value or, up to its line,
with the same error. A run that shows a tree writes just its text form, as a whole, and a line feed. -/
theorem Tree.render_identifies {src src' : Bytes} {x y : Tree} (hx : Source.tree src = .ok x)
    (hy : Source.tree src' = .ok y) :
    (x.render = y.render ↔ x.withoutLines = y.withoutLines) ∧
    (x.render = y.render →
      x.evaluate.mapError (Fault.mapLine fun _ => 0) = y.evaluate.mapError (Fault.mapLine fun _ => 0)) ∧
    ∀ (s : Session) (written : Nat), s.mode = .tree → s.format = .text →
      (s.run written src).failure = (s.writeAll written [x.render, utf8 "\n"]).failure ∧
      Effect.writes (s.run written src).effects = (s.writeAll written [x.render, utf8 "\n"]).effects ∧
      (s.Allows (written + (x.render ++ utf8 "\n").length) →
        Effect.writes (s.run written src).effects = [.out x.render, .out (utf8 "\n")]) := by
  have hsame : x.render = y.render → x.withoutLines = y.withoutLines := by
    intro h
    exact (renderOnto_inj (Source.spelt_of_tree hx) (Source.spelt_of_tree hy) h).1
  refine ⟨⟨hsame, ?_⟩, ?_, ?_⟩
  · intro h
    rw [← render_mapLines (fun _ => 0) x, ← render_mapLines (fun _ => 0) y]
    exact congrArg render h
  · intro h
    rw [← evaluate_mapLines, ← evaluate_mapLines]
    exact congrArg evaluate (hsame h)
  · intro s written hmode hformat
    have hresult := Report.of_tree_text hx
    rw [← hmode, ← hformat] at hresult
    obtain ⟨hfailure, -, hwrites⟩ := Session.run_of_ok written hresult
    refine ⟨hfailure, hwrites, fun hallows => ?_⟩
    rw [hwrites, Session.writeAll_of_allows (by simpa using hallows)]
    rfl

/-- A string that reads like the end of a node and another node, on one line and spread over several. -/
theorem Tree.render_identifies_lookalike :
    let src := utf8 "-\"a) (Literal nil\""
    let src' := utf8 "-\n\n\"a) (Literal nil\""
    let minus (line : Int) : Token := { kind := .minus, lexeme := utf8 "-", line }
    let string (line : Int) : Token :=
      { kind := .string, lexeme := utf8 "\"a) (Literal nil\"", line, text := utf8 "a) (Literal nil" }
    let x := Tree.unary (minus 1) (.literal (string 1))
    let y := Tree.unary (minus 1) (.literal (string 3))
    Source.tree src = .ok x ∧ Source.tree src' = .ok y ∧ x ≠ y ∧ x.render = y.render ∧
      x.withoutLines = y.withoutLines ∧
      Effect.writes (({ mode := .tree } : Session).run 0 src').effects = [.out y.render, .out (utf8 "\n")] := by
  intro src src' minus string x y
  have hx : Source.tree src = .ok x := rfl
  have hy : Source.tree src' = .ok y := rfl
  have hsame : x.render = y.render := rfl
  refine ⟨hx, hy, by decide, hsame, (render_identifies hx hy).1.1 hsame, ?_⟩
  obtain ⟨-, -, hwrites⟩ := (render_identifies hy hx).2.2 { mode := .tree } 0 rfl rfl
  exact hwrites (Session.allows_unlimited { mode := .tree } _)

end ExprLang
