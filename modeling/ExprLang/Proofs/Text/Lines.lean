import ExprLang.Text.Bytes

/-!
# Separators

* `Bytes.append_cons_inj` — what stands before a separator, and what stands after it, can be told from the whole;
* `Bytes.lines_join` — a text is split where its lines were joined, so it determines them.
-/

namespace ExprLang.Bytes

variable {l m last : Bytes}

/-- A text can be cut at the first separator in one way only. -/
theorem append_cons_inj {c : UInt8} {r s : Bytes} (hl : c ∉ l) (hm : c ∉ m) (h : l ++ c :: r = m ++ c :: s) :
    l = m ∧ r = s := by
  rcases List.append_eq_append_iff.1 h with ⟨more, rfl, e⟩ | ⟨more, rfl, e⟩
  · cases more with
    | nil => exact ⟨(List.append_nil l).symm, (List.cons.inj e).2⟩
    | cons d more =>
      obtain ⟨rfl, -⟩ := List.cons.inj e
      exact absurd (List.mem_append_right l List.mem_cons_self) hm
  · cases more with
    | nil => exact ⟨List.append_nil m, (List.cons.inj e).2.symm⟩
    | cons d more =>
      obtain ⟨rfl, -⟩ := List.cons.inj e
      exact absurd (List.mem_append_right m List.mem_cons_self) hl

/-! ## Lines -/

theorem lines_of_notMem (h : lineFeed ∉ last) : lines last = ([], last) := by
  induction last with
  | nil => rfl
  | cons b rest ih =>
    have hb : b ≠ lineFeed := (List.ne_of_not_mem_cons h).symm
    simp only [lines, ih (List.not_mem_of_not_mem_cons h), if_neg hb]

theorem lines_append (h : lineFeed ∉ l) (rest : Bytes) :
    lines (l ++ lineFeed :: rest) = (l :: (lines rest).1, (lines rest).2) := by
  induction l with
  | nil => simp [lines]
  | cons b l ih =>
    have hb : b ≠ lineFeed := (List.ne_of_not_mem_cons h).symm
    simp only [List.cons_append, lines, ih (List.not_mem_of_not_mem_cons h), if_neg hb]

/-- Splitting undoes joining. -/
theorem lines_join {ls : List Bytes} (hls : ∀ l ∈ ls, lineFeed ∉ l) (hlast : lineFeed ∉ last) :
    lines (ls.flatMap (· ++ [lineFeed]) ++ last) = (ls, last) := by
  induction ls with
  | nil => exact lines_of_notMem hlast
  | cons l ls ih =>
    obtain ⟨hl, hls⟩ := List.forall_mem_cons.1 hls
    rw [List.flatMap_cons, List.append_assoc, List.append_assoc, List.singleton_append, lines_append hl, ih hls]

end ExprLang.Bytes
