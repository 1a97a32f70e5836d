import ExprLang.Proofs.Token.Scanning

/-!
# Layout

The lexemes of a source may be laid out anew, with other blanks and comments between them.

* `Spacing h` — `h` is blanks and comments, each comment with the line feed that ends it;
* `Spaced ls s`, `Layout ls s` — `s` is the lexemes `ls`, with a spacing that starts with a blank after each of them;
* `Lexeme.munched` — before a blank, a lexeme is the longest one that starts there;
* `Token.scan_layout` — however lexemes are laid out, they are scanned as the same tokens, up to the lines.
-/

namespace ExprLang

/-! ## Tokens on other lines -/

namespace Token

/-- The token with its line changed by `f`. -/
def mapLine (f : Int → Int) (t : Token) : Token := { t with line := f t.line }

/-- The token without its line. -/
def withoutLine (t : Token) : Token := t.mapLine fun _ => 0

end Token

namespace Lexical

open Bytes (lineFeed isDigit isLetter isWordByte)
open Lexer (quoteByte pointByte slashByte equalsByte)

/-! ## Spacings and layouts -/

/-- Blanks and comments. A comment has a line feed at its end. -/
inductive Spacing : Bytes → Prop where
  | nil : Spacing []
  | blank {b : UInt8} {h : Bytes} (hb : b ∈ blanks) (more : Spacing h) : Spacing (b :: h)
  | comment {body h : Bytes} (hbody : lineFeed ∉ body) (more : Spacing h) :
      Spacing (slashByte :: slashByte :: (body ++ lineFeed :: h))

/-- The first byte is a blank. -/
def StartsBlank (h : Bytes) : Prop := ∃ b ∈ h.head?, b ∈ blanks

/-- The lexemes `ls`, a spacing that starts with a blank after each of them. After the last one there may be none. -/
inductive Spaced : List Bytes → Bytes → Prop where
  | nil : Spaced [] []
  | last {l : Bytes} : Spaced [l] l
  | cons {l h s : Bytes} {ls : List Bytes} (spacing : Spacing h) (starts : StartsBlank h) (more : Spaced ls s) :
      Spaced (l :: ls) (l ++ (h ++ s))

/-- A source made of the lexemes `ls`, with any spacing in front. -/
def Layout (ls : List Bytes) (src : Bytes) : Prop := ∃ h s, Spacing h ∧ Spaced ls s ∧ src = h ++ s

theorem Spacing.gap {h : Bytes} (hh : Spacing h) (rest : Bytes) : Gap rest h := by
  induction hh with
  | nil => exact .nil
  | blank hb _ ih => exact .blank hb ih
  | @comment body h hbody _ ih =>
    have hends : EndsLine (lineFeed :: h ++ rest) := by
      intro b hb
      exact (Option.some.inj hb).symm
    exact .comment hbody hends (.blank (by decide) ih)

/-! ## A lexeme before a blank -/

/-- A lexeme that is not a string holds neither blanks nor quotes. -/
theorem Lexeme.string_or_solid {m : Bytes} (h : Lexeme m) :
    (∃ body, quoteByte ∉ body ∧ m = quoteByte :: (body ++ [quoteByte])) ∨ ∀ b ∈ m, b ∉ blanks ∧ b ≠ quoteByte := by
  have hword : ∀ b ∈ quoteByte :: blanks, (!isWordByte b) = true := List.all_eq_true.1 rfl
  have word : ∀ b, isWordByte b = true → b ∉ blanks ∧ b ≠ quoteByte := by
    intro b hb
    have hmem : b ∉ quoteByte :: blanks := fun hmem => by simpa [hb] using hword b hmem
    exact ⟨fun h => hmem (List.mem_cons_of_mem _ h), fun h => hmem (h ▸ List.mem_cons_self)⟩
  have digit : ∀ b, isDigit b = true → b ∉ blanks ∧ b ≠ quoteByte := fun b hb => word b (by simp [isWordByte, hb])
  cases h with
  | @punctuator b k hb =>
    have all : ∀ e ∈ punctuators, e.1 ∉ blanks ∧ e.1 ≠ quoteByte := by decide
    exact .inr (List.forall_mem_singleton.2 (all _ hb))
  | @operator b _ _ hb =>
    have all : ∀ e ∈ operators, e.1 ∉ blanks ∧ e.1 ≠ quoteByte := by decide
    exact .inr (List.forall_mem_singleton.2 (all _ hb))
  | @paired b _ _ hb =>
    have all : ∀ e ∈ operators, e.1 ∉ blanks ∧ e.1 ≠ quoteByte := by decide
    exact .inr (List.forall_mem_cons.2 ⟨all _ hb, List.forall_mem_singleton.2 (by decide)⟩)
  | @string body hbody => exact .inl ⟨body, hbody, rfl⟩
  | integer _ digits => exact .inr fun b hb => digit b (digits b hb)
  | decimal _ digits _ fraction =>
    refine .inr (List.forall_mem_append.2 ⟨fun b hb => digit b (digits b hb), ?_⟩)
    exact List.forall_mem_cons.2 ⟨by decide, fun b hb => digit b (fraction b hb)⟩
  | word first others =>
    refine .inr (List.forall_mem_cons.2 ⟨word _ ?_, fun b hb => word b (others b hb)⟩)
    simp [isWordByte, first]

/-- A lexeme does not go on with a blank after a lexeme. -/
theorem Lexeme.not_append_blank {l m : Bytes} {b : UInt8} (hl : Lexeme l) (hb : b ∈ blanks) : ¬ Lexeme (l ++ b :: m) := by
  intro h
  obtain ⟨c, tail, rfl⟩ := List.exists_cons_of_ne_nil hl.ne_nil
  rcases h.string_or_solid with ⟨body, hbody, e⟩ | solid
  · -- the longer one is a string, so the shorter one is one too, and its closing quote is inside the longer one
    obtain ⟨rfl, e⟩ := List.cons.inj e
    rcases hl.string_or_solid with ⟨body', _, e'⟩ | solid
    · obtain rfl := (List.cons.inj e').2
      have hclose : body' ++ quoteByte :: b :: m = body ++ [quoteByte] := by simpa using e
      have hdrop := congrArg List.dropLast hclose
      rw [List.dropLast_concat, List.dropLast_append_of_ne_nil (by simp)] at hdrop
      exact hbody (by simp [← hdrop])
    · exact (solid quoteByte List.mem_cons_self).2 rfl
  · exact (solid b (by simp)).1 hb

/-- No lexeme goes on after a punctuator. -/
theorem Lexeme.eq_nil_of_punctuator {b : UInt8} {k : Kind} {m : Bytes} (hb : (b, k) ∈ punctuators)
    (h : Lexeme (b :: m)) : m = [] := by
  have all : ∀ e ∈ punctuators, e.1 ≠ quoteByte ∧ isDigit e.1 = false ∧ isLetter e.1 = false ∧
      ∀ o ∈ operators, o.1 ≠ e.1 := by decide
  obtain ⟨hquote, hdigit, hletter, hoperator⟩ := all _ hb
  generalize hl : b :: m = l at h
  cases h with
  | punctuator => exact (List.cons.inj hl).2
  | operator => exact (List.cons.inj hl).2
  | paired ho => exact absurd (List.cons.inj hl).1.symm (hoperator _ ho)
  | string => exact absurd (List.cons.inj hl).1 hquote
  | integer _ digits =>
    have hd : isDigit b = true := digits b (by simp [← hl])
    simp [hdigit] at hd
  | @decimal ds fs nonempty digits =>
    obtain ⟨d, ds, rfl⟩ := List.exists_cons_of_ne_nil nonempty
    obtain rfl : b = d := (List.cons.inj hl).1
    have hd : isDigit b = true := digits b List.mem_cons_self
    simp [hdigit] at hd
  | word first =>
    obtain rfl := (List.cons.inj hl).1
    simp [hletter] at first

theorem slash_mem_punctuators : (slashByte, Kind.slash) ∈ punctuators := by
  decide

/-- **Before a blank, a lexeme is the longest one.** So it is at the end of a source. -/
theorem Lexeme.munched {l rest : Bytes} (h : Lexeme l) (hrest : ∀ b ∈ rest.head?, b ∈ blanks) : Munched l rest := by
  refine ⟨h, fun m hm hprefix => ?_, fun hprefix => ?_⟩
  · -- a longer one would hold the blank
    by_contra hlt
    obtain ⟨tail, rfl⟩ : l <+: m :=
      List.prefix_of_prefix_length_le (List.prefix_append l rest) hprefix (by omega)
    have htail : tail <+: rest := (List.prefix_append_right_inj l).1 hprefix
    cases tail with
    | nil => simp at hlt
    | cons b tail =>
      obtain ⟨more, rfl⟩ := htail
      exact h.not_append_blank (hrest b rfl) hm
  · obtain ⟨c, tail, rfl⟩ := List.exists_cons_of_ne_nil h.ne_nil
    obtain ⟨more, e⟩ := hprefix
    obtain rfl : slashByte = c := (List.cons.inj e).1
    obtain rfl := h.eq_nil_of_punctuator slash_mem_punctuators
    obtain rfl : slashByte :: more = rest := (List.cons.inj e).2
    exact absurd (hrest slashByte rfl) (by decide)

/-- A punctuator is the longest lexeme whatever follows it, unless it starts a comment. -/
theorem munched_punctuator {b : UInt8} {k : Kind} (hb : (b, k) ∈ punctuators) (hslash : b ≠ slashByte) (rest : Bytes) :
    Munched [b] rest := by
  refine ⟨.punctuator hb, fun m hm hprefix => ?_, fun hprefix => ?_⟩
  · obtain ⟨c, tail, rfl⟩ := List.exists_cons_of_ne_nil hm.ne_nil
    obtain ⟨rfl, -⟩ := List.cons_prefix_cons.1 hprefix
    rw [hm.eq_nil_of_punctuator hb]
  · exact hslash (List.cons_prefix_cons.1 hprefix).1.symm

/-! ## Layouts are consumed -/

/-- Lexemes that are laid out are consumed as their tokens. -/
theorem Spaced.consumed {ls : List Bytes} {s : Bytes} (hs : Spaced ls s) (hls : ∀ l ∈ ls, Lexeme l) {h : Bytes}
    (hh : Spacing h) (pre : Bytes) :
    ∃ us, Consumed pre (h ++ s) [] us ∧ us.map Token.withoutLine = ls.map (tokenOf 0) := by
  induction hs generalizing h pre with
  | nil => exact ⟨[], .gap ((List.append_nil h).symm ▸ hh.gap []), rfl⟩
  | @last l =>
    have hl : Munched l ([] ++ []) := (hls l List.mem_cons_self).munched (by simp)
    refine ⟨[tokenOf (endLine (pre ++ (h ++ l))) l], ?_, rfl⟩
    have hconsumed : Consumed pre _ _ _ := .token (hh.gap _) hl (.gap .nil)
    rwa [List.append_nil] at hconsumed
  | @cons l h' s ls spacing starts _ ih =>
    obtain ⟨hl, hls⟩ := List.forall_mem_cons.1 hls
    obtain ⟨us, hus, hmap⟩ := ih hls spacing (pre ++ (h ++ l))
    have hmunched : Munched l (h' ++ s ++ []) := by
      refine hl.munched fun b hb => ?_
      obtain ⟨c, hc, hblank⟩ := starts
      obtain ⟨tail, rfl⟩ := List.head?_eq_some_iff.1 hc
      obtain rfl : c = b := Option.some.inj hb
      exact hblank
    exact ⟨_, .token (hh.gap _) hmunched hus, congrArg (tokenOf 0 l :: ·) hmap⟩

/-- Minus signs before the digit one are consumed one by one. -/
theorem consumed_signs (n : Nat) {pre : Bytes} (h : lineFeed ∉ pre) :
    Consumed pre (List.replicate n 45 ++ [49]) []
      (List.replicate n (tokenOf 1 (utf8 "-")) ++ [tokenOf 1 (utf8 "1")]) := by
  induction n generalizing pre with
  | zero =>
    have hone : Munched (utf8 "1") ([] ++ []) := by
      exact Lexeme.munched (.integer (by decide) (List.forall_mem_singleton.2 rfl)) (by simp)
    have hline : endLine (pre ++ utf8 "1") = 1 := endLine_eq_one (List.not_mem_append h (by decide))
    have hend : Consumed (pre ++ utf8 "1") [] [] [] := .gap .nil
    have hconsumed := Consumed.cons_lexeme hone hend
    rwa [hline] at hconsumed
  | succ n ih =>
    have hsign : lineFeed ∉ pre ++ utf8 "-" := List.not_mem_append h (by decide)
    have hminus : Munched (utf8 "-") (List.replicate n 45 ++ [49] ++ []) :=
      munched_punctuator (k := .minus) (by decide) (by decide) _
    have hconsumed := Consumed.cons_lexeme hminus (ih hsign)
    rwa [endLine_eq_one hsign] at hconsumed

end Lexical

open Lexical

/-! ## Layouts are scanned -/

/-- The token of its lexeme, on whatever line. -/
structure Token.IsSpelt (t : Token) : Prop where
  lexeme : Lexeme t.lexeme
  token : t.withoutLine = tokenOf 0 t.lexeme

theorem Token.IsSpelt.kind_eq {t : Token} (h : t.IsSpelt) : t.kind = kindOf t.lexeme := congrArg Token.kind h.token

/-- A lexeme has one token, up to the line. -/
theorem Token.IsSpelt.withoutLine_eq {t u : Token} (ht : t.IsSpelt) (hu : u.IsSpelt) (h : t.lexeme = u.lexeme) :
    t.withoutLine = u.withoutLine := by
  rw [ht.token, hu.token, h]

theorem Lexical.Consumed.isSpelt {pre p rest : Bytes} {ts : List Token} (h : Consumed pre p rest ts) :
    ∀ t ∈ ts, t.IsSpelt := by
  induction h with
  | gap => simp
  | token _ munched _ ih => exact List.forall_mem_cons.2 ⟨⟨munched.lexeme, rfl⟩, ih⟩

namespace Token

variable {src : Bytes} {ts : List Token}

theorem ne_nil_of_scan (h : scan src = .ok ts) : ts ≠ [] := by
  obtain ⟨us, -, rfl⟩ := consumed_of_scan h
  simp

/-- A scanned token is that of its lexeme, unless it marks the end. -/
theorem isSpelt_of_scan (h : scan src = .ok ts) {t : Token} (ht : t ∈ ts) (hk : t.kind ≠ .eof) : t.IsSpelt := by
  obtain ⟨us, hus, rfl⟩ := consumed_of_scan h
  rcases List.mem_append.1 ht with ht | ht
  · exact hus.isSpelt t ht
  · obtain rfl := List.mem_singleton.1 ht
    exact absurd rfl hk

/-- **However lexemes are laid out, they are scanned as their tokens**, up to the lines. -/
theorem scan_layout {ls : List Bytes} (hls : ∀ l ∈ ls, Lexeme l) (h : Layout ls src) :
    ∃ us, scan src = .ok (us ++ [endOfSource (endLine src)]) ∧ us.map withoutLine = ls.map (tokenOf 0) := by
  obtain ⟨h, s, hh, hs, rfl⟩ := h
  obtain ⟨us, hus, hmap⟩ := hs.consumed hls hh []
  exact ⟨us, scan_of_consumed hus, hmap⟩

/-- A source and any layout of its lexemes have the same tokens, up to the lines. -/
theorem scan_relayout (h : scan src = .ok ts) {src' : Bytes} (hlayout : Layout (ts.dropLast.map (·.lexeme)) src') :
    ∃ ts', scan src' = .ok ts' ∧ ts'.map withoutLine = ts.map withoutLine := by
  obtain ⟨us, hus, rfl⟩ := consumed_of_scan h
  rw [List.dropLast_concat] at hlayout
  have hls : ∀ l ∈ us.map (·.lexeme), Lexeme l := by
    exact List.forall_mem_map.2 fun t ht => (hus.isSpelt t ht).lexeme
  obtain ⟨us', hscan, hmap⟩ := scan_layout hls hlayout
  refine ⟨_, hscan, ?_⟩
  have hus' : us'.map withoutLine = us.map withoutLine := by
    rw [hmap, List.map_map]
    exact List.map_congr_left fun t ht => (hus.isSpelt t ht).token.symm
  rw [List.map_append, List.map_append, hus']
  rfl

end Token

end ExprLang
