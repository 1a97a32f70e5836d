import ExprLang.Text.Blocks
import Mathlib.Algebra.Ring.Nat

/-!
# What blocks hold

* `Blocks.flatten_ofRows` — together the blocks hold the rows;
* `Blocks.ofRows_eq_singleton` — rows that fit into one block are written at once.
-/

namespace ExprLang.Blocks

theorem flatten_cut (ns : List Nat) (s : Bytes) : (cut ns s).flatten = s.take ns.sum := by
  induction ns generalizing s with
  | nil => rfl
  | cons n ns ih => simp [cut, ih, List.take_add]

/-- However rows are broken, no byte is lost. -/
theorem sum_lengths {size held : Nat} (ns : List Nat) (h : held ≤ size) :
    (lengths size held ns).sum = held + ns.sum := by
  induction ns generalizing held with
  | nil => by_cases hheld : held = 0 <;> simp [lengths, hheld]
  | cons n ns ih =>
    simp only [lengths, List.sum_cons]
    split
    next hfits =>
      rw [ih hfits]
      omega
    next hfull =>
      split
      next hheld =>
        rw [List.sum_cons, ih (Nat.zero_le size)]
        omega
      next hheld =>
        split
        next hleft =>
          rw [List.sum_cons, ih hleft]
          omega
        next hleft =>
          rw [List.sum_cons, List.sum_cons, ih (Nat.zero_le size)]
          omega

theorem flatten_ofRows (size : Nat) (rows : List Bytes) : (ofRows size rows).flatten = rows.flatten := by
  rw [ofRows, flatten_cut, sum_lengths _ (Nat.zero_le size), Nat.zero_add, ← List.length_flatten, List.take_length]

theorem lengths_of_sum_le {size held : Nat} {ns : List Nat} (hfits : held + ns.sum ≤ size) (hpos : 0 < held + ns.sum) :
    lengths size held ns = [held + ns.sum] := by
  induction ns generalizing held with
  | nil =>
    have hheld : held ≠ 0 := Nat.pos_iff_ne_zero.1 hpos
    simp [lengths, hheld]
  | cons n ns ih =>
    rw [List.sum_cons, ← Nat.add_assoc] at hfits hpos ⊢
    have hn : held + n ≤ size := by omega
    rw [lengths, if_pos hn, ih hfits hpos]

theorem ofRows_eq_singleton {size : Nat} {rows : List Bytes} (h : rows.flatten.length ≤ size)
    (positive : 0 < rows.flatten.length) : ofRows size rows = [rows.flatten] := by
  rw [List.length_flatten] at h positive
  rw [ofRows, lengths_of_sum_le (by omega) (by omega), Nat.zero_add, ← List.length_flatten, cut, cut,
    List.take_length]

end ExprLang.Blocks
