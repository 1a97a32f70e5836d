import ExprLang.Proofs.Number.Spelling
import ExprLang.Proofs.Session.Run
import ExprLang.Proofs.Tree.SourceText

/-!
# Displayed values are sources

The display form of a number has no exponent, so it is a lexeme once its sign is left out, and the sign is read as an
operator.

* `Value.IsSpellable` — the values that have a source: Booleans, `nil` and the numbers that are finite;
* `Value.Spells` — a lexeme that stands for a value, and `Value.spells_magnitude` — the magnitude of a number is one;
* `Source.ReadsAs` — a text is read to its end as an expression with a given value;
* `Source.readsAs_lexeme`, `Source.readsAs_negated` — a lexeme alone, and with a minus sign in front;
* `Value.readsAs_display` — the display form of a value is read as that value.
-/

namespace ExprLang

open Lexical

/-! ## Lexemes of values -/

namespace Value

/-- Booleans, `nil`, and the numbers other than the infinities and what is not a number. -/
def IsSpellable : Value → Prop
  | .number x => x.isNaN = false ∧ x.isInf = false
  | .boolean _ | .nil => True
  | .string _ | .absent => False

/-- The lexeme `l` is a literal with the value `v`. -/
structure Spells (v : Value) (l : Bytes) : Prop where
  lexeme : Lexeme l
  value : ∀ line, ofLiteral (tokenOf line l) = .ok v

theorem kind_mem_of_ofLiteral {t : Token} {v : Value} (h : ofLiteral t = .ok v) : t.kind ∈ Kind.literals := by
  rw [← Kind.isLiteral_iff]
  unfold ofLiteral at h
  split at h
  case h_6 => cases h
  all_goals simp [*, Kind.isLiteral]

theorem lexeme_letters {w : Bytes} (hnil : w ≠ []) (hw : w.all Bytes.isLetter = true) : Lexeme w := by
  obtain ⟨b, w, rfl⟩ := List.exists_cons_of_ne_nil hnil
  obtain ⟨hb, hrest⟩ := List.forall_mem_cons.1 (List.all_eq_true.1 hw)
  refine .word hb fun c hc => ?_
  simp [Bytes.isWordByte, hrest c hc]

theorem spells_boolean (b : Bool) : (boolean b).Spells (display (.boolean b)) := by
  cases b with
  | true => exact ⟨lexeme_letters (by decide) rfl, fun _ => rfl⟩
  | false => exact ⟨lexeme_letters (by decide) rfl, fun _ => rfl⟩

theorem spells_nil : nil.Spells (display .nil) := ⟨lexeme_letters (by decide) rfl, fun _ => rfl⟩

theorem lexeme_positional {text : Bytes} {d : Decimal} (h : NumberStyle.Positional text d) : Lexeme text := by
  cases h with
  | whole hw => exact .integer hw.1.1 hw.1.2
  | fraction hw hf => exact .decimal hw.1.1 hw.1.2 hf.1 hf.2

/-- Digits, or digits, a point and digits, are a lexeme of the number they spell. -/
theorem spells_positional {text : Bytes} {d : Decimal} (h : NumberStyle.Positional text d) :
    (number d.toFloat).Spells text := by
  refine ⟨lexeme_positional h, fun line => ?_⟩
  rw [← h.ofLexeme_eq]
  obtain ⟨w, rest, hw, rfl⟩ := h.exists_digits
  rw [Lexer.tokenOf_digits hw.1 hw.2]
  rfl

/-- **A magnitude is displayed as a lexeme for itself.** -/
theorem spells_magnitude {bits : Nat} (h : bits < Binary64.infinity) :
    (number (Binary64.ofMagnitude bits)).Spells (numberStyle.formatMagnitude bits) := by
  obtain ⟨d, hd, hround⟩ := numberStyle.exists_positional_of_isPlain (fun _ => rfl) h
  have hspells := spells_positional hd
  rwa [Decimal.toFloat, hround] at hspells

/-- A finite number is displayed as its magnitude, with a minus sign in front if it is negative. -/
theorem display_number {x : Float} (h : Binary64.magnitude x < Binary64.infinity) :
    display (.number x) =
      (if Binary64.isNegative x then utf8 "-" else []) ++ numberStyle.formatMagnitude (Binary64.magnitude x) := by
  show numberStyle.format x = _
  rw [NumberStyle.format, if_neg (Nat.not_lt.2 h.le), if_neg h.ne]

end Value

/-! ## Reading lexemes -/

/-- A lexeme at the end of a source is read as its token. -/
theorem Lexer.read_lexeme {l : Bytes} (h : Lexeme l) (n : Nat) (toks : List Token) :
    ∃ line : Nat, read ⟨n, toks, .none⟩ l = .ok ⟨line, Token.endOfSource line :: tokenOf line l :: toks, .none⟩ := by
  have hmunched : Munched l [] := h.munched (by simp)
  have hread : read ⟨n, toks, .none⟩ (l ++ []) = _ := read_munched hmunched
  rw [List.append_nil, read_nil] at hread
  exact ⟨_, hread⟩

namespace Source

variable {text l : Bytes} {v : Value}

/-- The text is read to its end as an expression with the value `v`. -/
def ReadsAs (text : Bytes) (v : Value) : Prop :=
  ∃ ts line x, Token.scan text = .ok (ts ++ [Token.endOfSource line]) ∧
    ({ tokens := ts ++ [Token.endOfSource line] } : Parser).parse =
      (.ok x, { tokens := ts ++ [Token.endOfSource line], cursor := ts.length }) ∧
    x.evaluate = .ok v

theorem ReadsAs.value_eq (h : ReadsAs text v) : value text = .ok v := by
  obtain ⟨ts, line, x, hscan, hparse, hvalue⟩ := h
  have htree : tree text = .ok x := tree_eq_ok_iff.2 ⟨_, hscan, by rw [Tree.parse, hparse]⟩
  rw [value, htree]
  show x.evaluate.mapError _ = _
  rw [hvalue]
  rfl

/-- A lexeme of a value is a source for it. -/
theorem readsAs_lexeme (h : v.Spells l) : ReadsAs l v := by
  obtain ⟨line, hread⟩ := Lexer.read_lexeme h.lexeme 1 []
  have hscan : Token.scan l = .ok ([tokenOf line l] ++ [Token.endOfSource line]) := by
    show (Lexer.read ⟨1, [], .none⟩ l).map _ = _
    rw [hread]
    rfl
  have hderives : Derives .primary [tokenOf line l] (.literal (tokenOf line l)) :=
    .literal (Value.kind_mem_of_ofLiteral (h.value line))
  refine ⟨_, line, _, hscan, Tree.parse_to_end (hderives.loosen (by decide)) line, ?_⟩
  rw [Tree.evaluate, h.value]
  rfl

/-- With a minus sign in front, the lexeme of a number is a source for its negation. -/
theorem readsAs_negated {y : Float} (h : (Value.number y).Spells l) : ReadsAs (utf8 "-" ++ l) (.number (-y)) := by
  let minus : Token := { kind := .minus, lexeme := utf8 "-", line := 1 }
  obtain ⟨line, hread⟩ := Lexer.read_lexeme h.lexeme 1 [minus]
  have hscan : Token.scan (utf8 "-" ++ l) = .ok ([minus, tokenOf line l] ++ [Token.endOfSource line]) := by
    show (Lexer.read ⟨1, [], .none⟩ (45 :: l)).map _ = _
    rw [Lexer.read_single (k := .minus) (by decide)]
    show (Lexer.read ⟨1, [minus], .none⟩ l).map _ = _
    rw [hread]
    rfl
  have hderives : Derives .unary [minus, tokenOf line l] (.unary minus (.literal (tokenOf line l))) :=
    .unary (by decide) (.plain (.literal (Value.kind_mem_of_ofLiteral (h.value line))))
  refine ⟨_, line, _, hscan, Tree.parse_to_end (hderives.loosen (by decide)) line, ?_⟩
  rw [Tree.evaluate, Tree.evaluate, h.value]
  rfl

end Source

/-- **The display form of a value is source for that value.** That of a Boolean, of `nil` or of a finite number is read to
its end as an expression with this value again; the sign of a zero is kept, and every bit of a number. -/
theorem Value.readsAs_display (v : Value) (h : v.IsSpellable) :
    Source.ReadsAs v.display v ∧ Source.value v.display = .ok v := by
  have hreads : Source.ReadsAs v.display v := by
    match v with
    | .number x =>
      have hfinite := Binary64.magnitude_lt_infinity h.1 h.2
      have hspells := spells_magnitude hfinite
      have hsigned := Binary64.signed_magnitude hfinite
      rw [display_number hfinite]
      by_cases hneg : Binary64.isNegative x = true
      · rw [if_pos hneg] at hsigned ⊢
        have hread := Source.readsAs_negated hspells
        rwa [hsigned] at hread
      · rw [if_neg hneg] at hsigned ⊢
        rw [hsigned] at hspells
        exact Source.readsAs_lexeme hspells
    | .boolean b => exact Source.readsAs_lexeme (spells_boolean b)
    | .nil => exact Source.readsAs_lexeme spells_nil
  exact ⟨hreads, hreads.value_eq⟩

/-- Negative zero is displayed as `-0`, and read as such. -/
theorem Value.readsAs_display_negative_zero :
    let x : Float := Float.ofBits 0x8000000000000000
    (number x).IsSpellable ∧ (number x).display = utf8 "-0" ∧ Source.ReadsAs (utf8 "-0") (.number x) := by
  intro x
  have h : (number x).IsSpellable := ⟨by decide, by decide⟩
  have hdisplay : (number x).display = utf8 "-0" := by decide
  exact ⟨h, hdisplay, hdisplay ▸ (readsAs_display (.number x) h).1⟩

end ExprLang
