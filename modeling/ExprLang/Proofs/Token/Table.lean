import ExprLang.Proofs.Number.Spelling
import ExprLang.Proofs.Session.Run
import ExprLang.Proofs.Text.Lines
import ExprLang.Proofs.Text.Quoting
import ExprLang.Proofs.Token.Layout

/-!
# The token table

The table of the tokens of a source has a row for each of them, and the tokens can be read from it. The columns end at a
space, which is neither in a line number nor in the name of a kind, and a row ends at a line feed, which is in no column.

* `Bytes.padRight_append_inj` — what is in a padded column can be told from the row;
* `Lexical.Lexeme.string_or_named` — a lexeme is a string, or is of another kind that has a name;
* `Token.Listed` — the tokens that scanning gives, and `Token.Listed.eq_of_tableCells` — a row determines its token;
* `Token.lines_table` — a table is split into its rows;
* `Session.run_table` — so what is written in token mode determines the tokens.
-/

namespace ExprLang

open Bytes (lineFeed isDigit)
open Lexer (quoteByte)

/-! ## Columns -/

namespace Bytes

/-- The byte that ends a column. -/
def space : UInt8 := 32

/-- A column ends at a space, whether it is padded or not. -/
theorem padRight_append_space (width : Nat) (a r : Bytes) :
    a.padRight width ++ space :: r = a ++ space :: (List.replicate (width - a.length) space ++ r) := by
  show a ++ List.replicate _ space ++ space :: r = _
  rw [List.append_assoc, List.append_cons, ← List.replicate_succ', List.replicate_succ]
  rfl

/-- What is padded can be told from the row, for any width. -/
theorem padRight_append_inj {width : Nat} {a b r s : Bytes} (ha : space ∉ a) (hb : space ∉ b)
    (h : a.padRight width ++ space :: r = b.padRight width ++ space :: s) : a = b ∧ r = s := by
  rw [padRight_append_space, padRight_append_space] at h
  obtain ⟨rfl, e⟩ := append_cons_inj ha hb h
  exact ⟨rfl, List.append_cancel_left e⟩

theorem notMem_padRight {width : Nat} {a : Bytes} {b : UInt8} (ha : b ∉ a) (hb : b ≠ space) : b ∉ a.padRight width :=
  List.not_mem_append ha fun hmem => hb (List.eq_of_mem_replicate hmem)

/-- A numeral is made of digits, with a minus sign before them at most. -/
theorem mem_ofInt {n : Int} {b : UInt8} (h : b ∈ ofInt n) : b = 45 ∨ isDigit b := by
  cases n with
  | ofNat n => exact .inr ((isWhole_ofNat n).1.2 b h)
  | negSucc n =>
    rcases List.mem_cons.1 h with rfl | h
    · exact .inl rfl
    · exact .inr ((isWhole_ofNat _).1.2 b h)

theorem notMem_ofInt {n : Int} {b : UInt8} (hb : b ≠ 45) (hdigit : isDigit b = false) : b ∉ ofInt n := by
  intro h
  rcases mem_ofInt h with rfl | h
  · exact hb rfl
  · rw [hdigit] at h
    cases h

theorem ofNat_injective {m n : Nat} (h : ofNat m = ofNat n) : m = n := by
  rw [← Decimal.ofDigits_ofNat m, h, Decimal.ofDigits_ofNat]

theorem ofInt_injective {m n : Int} (h : ofInt m = ofInt n) : m = n := by
  have unsigned : ∀ (m : Nat) (s : Bytes), ofNat m ≠ 45 :: s := by
    intro m s e
    have hdigit := (isWhole_ofNat m).1.2 45 (e ▸ List.mem_cons_self)
    exact absurd hdigit (by decide)
  match m, n with
  | .ofNat m, .ofNat n => rw [ofNat_injective h]
  | .ofNat m, .negSucc n => exact absurd h (unsigned m _)
  | .negSucc m, .ofNat n => exact absurd h.symm (unsigned n _)
  | .negSucc m, .negSucc n => rw [Nat.succ.inj (ofNat_injective (List.cons.inj h).2)]

end Bytes

open Bytes (space)

namespace Kind

/-- A name is a column by itself, and only strings have that of strings. -/
theorem label_spec :
    ∀ k ∈ all, space ∉ k.label ∧ lineFeed ∉ k.label ∧ (k.label = Kind.string.label → k = .string) := by
  decide

end Kind

/-! ## Tokens of a source -/

namespace Lexical

/-- A lexeme is a string, or is of another kind that has a name. -/
theorem Lexeme.string_or_named {l : Bytes} (h : Lexeme l) :
    (∃ body, quoteByte ∉ body ∧ l = quoteByte :: (body ++ [quoteByte])) ∨ kindOf l ∈ Kind.all ∧ kindOf l ≠ .string := by
  have number : ∀ {b : UInt8} (m : Bytes), isDigit b → kindOf (b :: m) ∈ Kind.all ∧ kindOf (b :: m) ≠ .string := by
    intro b m hb
    rw [show kindOf (b :: m) = .number from congrArg Token.kind (tokenOf_number hb m 0)]
    decide
  cases h with
  | punctuator hb =>
    have all : ∀ e ∈ punctuators, kindOf [e.1] ∈ Kind.all ∧ kindOf [e.1] ≠ .string := by decide
    exact .inr (all _ hb)
  | operator hb =>
    have all : ∀ e ∈ operators, kindOf [e.1] ∈ Kind.all ∧ kindOf [e.1] ≠ .string := by decide
    exact .inr (all _ hb)
  | paired hb =>
    have all : ∀ e ∈ operators, kindOf [e.1, Lexer.equalsByte] ∈ Kind.all ∧ kindOf [e.1, Lexer.equalsByte] ≠ .string := by
      decide
    exact .inr (all _ hb)
  | @string body hbody => exact .inl ⟨body, hbody, rfl⟩
  | integer nonempty digits =>
    obtain ⟨b, m, rfl⟩ := List.exists_cons_of_ne_nil nonempty
    exact .inr (number m (digits b List.mem_cons_self))
  | decimal nonempty digits =>
    obtain ⟨b, m, rfl⟩ := List.exists_cons_of_ne_nil nonempty
    exact .inr (number _ (digits b List.mem_cons_self))
  | @word b w first =>
    have all : ∀ k ∈ Kind.identifier :: Kind.keywords, k ∈ Kind.all ∧ k ≠ .string := by decide
    rw [show kindOf (b :: w) = Kind.ofWord (b :: w) from congrArg Token.kind (tokenOf_word first w 0)]
    exact .inr (all _ (ofWord_mem (b :: w)))

end Lexical

open Lexical

namespace Token

/-- The token of a lexeme, or the one at the end of a source, on whatever line. -/
def Listed (t : Token) : Prop := t.IsSpelt ∨ t = endOfSource t.line

variable {t u : Token} {src : Bytes} {ts us : List Token}

theorem listed_of_scan (h : scan src = .ok ts) : ∀ t ∈ ts, t.Listed := by
  obtain ⟨us, hus, rfl⟩ := consumed_of_scan h
  exact List.forall_mem_append.2 ⟨fun t ht => .inl (hus.isSpelt t ht), List.forall_mem_singleton.2 (.inr rfl)⟩

/-- What is in the last column: a quoted text, with the lexeme that has this text, or the lexeme, which is on one line. -/
theorem Listed.column_cases (h : t.Listed) :
    t.kind = .string ∧ t.lexemeColumn = Quoted.string t.text ∧ t.lexeme = quoteByte :: (t.text ++ [quoteByte]) ∨
      t.kind ∈ Kind.all ∧ t.kind ≠ .string ∧ t.lexemeColumn = t.lexeme ∧ lineFeed ∉ t.lexeme := by
  rcases h with h | h
  · have hkind := h.kind_eq
    rcases h.lexeme.string_or_named with ⟨body, hbody, e⟩ | ⟨hall, hne⟩
    · left
      have htoken := h.token
      rw [e, tokenOf_string] at htoken
      have hstring : t.kind = .string := congrArg Token.kind htoken
      have htext : t.text = body := congrArg Token.text htoken
      exact ⟨hstring, if_pos hstring, by rw [htext, e]⟩
    · right
      rw [← hkind] at hall hne
      refine ⟨hall, hne, if_neg hne, ?_⟩
      rcases h.lexeme.string_or_solid with ⟨body, hbody, e⟩ | solid
      · rw [hkind, e] at hne
        exact absurd rfl hne
      · exact fun hmem => (solid _ hmem).1 (by decide)
  · right
    have heof : Kind.eof ∈ Kind.all ∧ Kind.eof ≠ .string := by decide
    rw [h]
    exact ⟨heof.1, heof.2, rfl, List.not_mem_nil⟩

theorem Listed.kind_mem (h : t.Listed) : t.kind ∈ Kind.all := by
  rcases h.column_cases with ⟨hstring, -⟩ | ⟨hall, -⟩
  · rw [hstring]
    decide
  · exact hall

theorem Listed.lineFeed_notMem_lexemeColumn (h : t.Listed) : lineFeed ∉ t.lexemeColumn := by
  rcases h.column_cases with ⟨-, e, -⟩ | ⟨-, -, e, hnot⟩
  · rw [e]
    exact Quoted.lineFeed_notMem_string _
  · rwa [e]

/-- The name of the kind and the last column determine the lexeme. -/
theorem Listed.lexeme_eq (ht : t.Listed) (hu : u.Listed) (hkind : t.kind.label = u.kind.label)
    (hcolumn : t.lexemeColumn = u.lexemeColumn) : t.lexeme = u.lexeme := by
  rcases ht.column_cases with ⟨hstring, e, hlexeme⟩ | ⟨hall, hne, e, -⟩
  · rcases hu.column_cases with ⟨-, e', hlexeme'⟩ | ⟨hall', hne', -⟩
    · rw [e, e'] at hcolumn
      rw [hlexeme, hlexeme', Quoted.string_injective hcolumn]
    · rw [hstring] at hkind
      exact absurd ((Kind.label_spec _ hall').2.2 hkind.symm) hne'
  · rcases hu.column_cases with ⟨hstring', -⟩ | ⟨-, -, e', -⟩
    · rw [hstring'] at hkind
      exact absurd ((Kind.label_spec _ hall).2.2 hkind) hne
    · rwa [e, e'] at hcolumn

/-- The lexeme and the line determine the token. -/
theorem Listed.eq_of_lexeme (ht : t.Listed) (hu : u.Listed) (hline : t.line = u.line) (h : t.lexeme = u.lexeme) :
    t = u := by
  have hsame : t.withoutLine = u.withoutLine → t = u := by
    intro e
    cases t
    cases u
    simp_all [withoutLine, mapLine]
  rcases ht with ht | ht
  · rcases hu with hu | hu
    · exact hsame (ht.withoutLine_eq hu h)
    · rw [hu] at h
      exact absurd h ht.lexeme.ne_nil
  · rcases hu with hu | hu
    · rw [ht] at h
      exact absurd h.symm hu.lexeme.ne_nil
    · rw [ht, hu, hline]

/-! ## Rows -/

/-- A row without the line feed at its end. -/
def cells (line kind lexeme : Bytes) : Bytes := line.padRight 6 ++ space :: (kind.padRight 8 ++ space :: lexeme)

/-- The row of a token without the line feed at its end. -/
def tableCells (t : Token) : Bytes := cells (Bytes.ofInt t.line) t.kind.label t.lexemeColumn

/-- The rows of a table without the line feeds at their ends. -/
def tableLines (ts : List Token) : List Bytes :=
  cells (utf8 "LINE") (utf8 "TOKEN") (utf8 "LEXEME") ::
    cells (List.replicate 6 45) (List.replicate 8 45) (List.replicate 12 45) :: ts.map tableCells

theorem row_eq (line kind lexeme : Bytes) : row line kind lexeme = cells line kind lexeme ++ [lineFeed] := by
  unfold row cells
  simp only [List.append_assoc, List.cons_append]
  rfl

theorem table_eq (ts : List Token) : table ts = (tableLines ts).map (· ++ [lineFeed]) := by
  have hrow : tableRow = fun t => t.tableCells ++ [lineFeed] := funext fun t => row_eq _ _ _
  simp only [table, tableLines, row_eq, hrow, List.map_cons, List.map_map, Function.comp_def]

theorem lineFeed_notMem_cells {line kind lexeme : Bytes} (hline : lineFeed ∉ line) (hkind : lineFeed ∉ kind)
    (hlexeme : lineFeed ∉ lexeme) : lineFeed ∉ cells line kind lexeme := by
  have hspace : lineFeed ≠ space := by decide
  refine List.not_mem_append (Bytes.notMem_padRight hline hspace) (List.not_mem_cons_of_ne_of_not_mem hspace ?_)
  exact List.not_mem_append (Bytes.notMem_padRight hkind hspace) (List.not_mem_cons_of_ne_of_not_mem hspace hlexeme)

theorem Listed.lineFeed_notMem_tableCells (h : t.Listed) : lineFeed ∉ t.tableCells :=
  lineFeed_notMem_cells (Bytes.notMem_ofInt (by decide) (by decide)) (Kind.label_spec _ h.kind_mem).2.1
    h.lineFeed_notMem_lexemeColumn

/-- A row determines its token. -/
theorem Listed.eq_of_tableCells (ht : t.Listed) (hu : u.Listed) (h : t.tableCells = u.tableCells) : t = u := by
  have hnumeral : ∀ n : Int, space ∉ Bytes.ofInt n := fun n => Bytes.notMem_ofInt (by decide) (by decide)
  obtain ⟨hline, h⟩ := Bytes.padRight_append_inj (hnumeral _) (hnumeral _) h
  obtain ⟨hkind, hcolumn⟩ :=
    Bytes.padRight_append_inj (Kind.label_spec _ ht.kind_mem).1 (Kind.label_spec _ hu.kind_mem).1 h
  exact ht.eq_of_lexeme hu (Bytes.ofInt_injective hline) (ht.lexeme_eq hu hkind hcolumn)

theorem lineFeed_notMem_tableLines (h : ∀ t ∈ ts, t.Listed) : ∀ l ∈ tableLines ts, lineFeed ∉ l := by
  refine List.forall_mem_cons.2 ⟨by decide, List.forall_mem_cons.2 ⟨by decide, List.forall_mem_map.2 fun t ht => ?_⟩⟩
  exact (h t ht).lineFeed_notMem_tableCells

/-- **A table is split into its rows.** -/
theorem lines_table (h : ∀ t ∈ ts, t.Listed) : Bytes.lines (table ts).flatten = (tableLines ts, []) := by
  rw [table_eq, ← List.flatMap_def, ← List.append_nil (List.flatMap _ _)]
  exact Bytes.lines_join (lineFeed_notMem_tableLines h) List.not_mem_nil

theorem eq_of_map_tableCells (hts : ∀ t ∈ ts, t.Listed) (hus : ∀ u ∈ us, u.Listed)
    (h : ts.map tableCells = us.map tableCells) : ts = us := by
  induction ts generalizing us with
  | nil => exact (List.map_eq_nil_iff.1 h.symm).symm
  | cons t ts ih =>
    obtain ⟨u, us, rfl, hu, hmap⟩ := List.map_eq_cons_iff.1 h.symm
    obtain ⟨ht, hts⟩ := List.forall_mem_cons.1 hts
    obtain ⟨hu', hus⟩ := List.forall_mem_cons.1 hus
    rw [ht.eq_of_tableCells hu' hu.symm, ih hts hus hmap.symm]

/-- **A table determines its tokens.** -/
theorem table_injective (hts : ∀ t ∈ ts, t.Listed) (hus : ∀ u ∈ us, u.Listed)
    (h : (table ts).flatten = (table us).flatten) : ts = us := by
  have hlines := lines_table hts
  rw [h, lines_table hus] at hlines
  have hrows := (Prod.mk.inj hlines).1
  exact (eq_of_map_tableCells hus hts (List.cons.inj (List.cons.inj hrows).2).2).symm

end Token

/-! ## Runs -/

namespace Session

variable {s : Session} {src : Bytes} {ts : List Token}

theorem result_of_tokens (hmode : s.mode = .tokens) (h : Token.scan src = .ok ts) :
    (Report.of s.mode s.format src).result = .ok (Blocks.ofRows Token.tableBlock (Token.table ts)) := by
  rw [hmode]
  exact Report.of_tokens h

/-- In token mode, the table of the tokens is written. -/
theorem stdout_run_tokens (hmode : s.mode = .tokens) (h : Token.scan src = .ok ts) :
    Effect.stdout (s.unlimited.run 0 src).effects = (Token.table ts).flatten := by
  rw [stdout_run_unlimited (result_of_tokens hmode h), Blocks.flatten_ofRows]

/-- **The token table has a row for each token and determines the tokens.** What is written in token mode for a source
that can be scanned is two rows and one for each token, each with a line feed at its end and no other one in it. Where the
same is written for another source, it has the same tokens on the same lines. -/
theorem run_table (hmode : s.mode = .tokens) (h : Token.scan src = .ok ts) :
    let p := s.unlimited.run 0 src
    p.failure = none ∧ Effect.stdout p.effects = (Token.table ts).flatten ∧
    (Token.table ts).length = ts.length + 2 ∧
    (∀ row ∈ Token.table ts, ∃ l, row = l ++ [lineFeed] ∧ lineFeed ∉ l) ∧
    ∀ (s' : Session) (src' : Bytes) (ts' : List Token), s'.mode = .tokens → Token.scan src' = .ok ts' →
      Effect.stdout (s'.unlimited.run 0 src').effects = Effect.stdout p.effects → ts' = ts := by
  intro p
  have hlisted := Token.listed_of_scan h
  refine ⟨(run_unlimited (result_of_tokens hmode h)).1, stdout_run_tokens hmode h, ?_, ?_, ?_⟩
  · simp [Token.table]
  · rw [Token.table_eq]
    intro row hrow
    obtain ⟨l, hl, rfl⟩ := List.mem_map.1 hrow
    exact ⟨l, rfl, Token.lineFeed_notMem_tableLines hlisted l hl⟩
  · intro s' src' ts' hmode' h' hout
    rw [stdout_run_tokens hmode' h', stdout_run_tokens hmode h] at hout
    exact Token.table_injective (Token.listed_of_scan h') hlisted hout

/-- A string over two lines has one row, and the same one where it stands between a blank and a comment. -/
theorem run_table_string :
    let src := utf8 "\"a\nb\""
    let src' := utf8 " \"a\nb\" // c"
    let ts : List Token :=
      [{ kind := .string, lexeme := utf8 "\"a\nb\"", line := 2, text := utf8 "a\nb" }, .endOfSource 2]
    let s : Session := { mode := .tokens }
    Token.scan src = .ok ts ∧ (Token.table ts).length = 4 ∧
      Effect.stdout (s.unlimited.run 0 src').effects = Effect.stdout (s.unlimited.run 0 src).effects ∧
      ∀ ts', Token.scan src' = .ok ts' → ts' = ts := by
  intro src src' ts s
  have h : Token.scan src = .ok ts := rfl
  have h' : Token.scan src' = .ok ts := rfl
  obtain ⟨-, hout, hlength, -, hsame⟩ := run_table (s := s) rfl h
  have heq : Effect.stdout (s.unlimited.run 0 src').effects = Effect.stdout (s.unlimited.run 0 src).effects := by
    rw [hout, stdout_run_tokens rfl h']
  exact ⟨h, hlength, heq, fun ts' hts' => hsame s src' ts' rfl hts' heq⟩

end Session

end ExprLang
