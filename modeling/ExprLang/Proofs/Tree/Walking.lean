import ExprLang.Proofs.Tree.SourceOrder
import Mathlib.Data.Set.Card

/-!
# Walking a tree

Equal nodes may stand at several places of a tree, so nodes are told apart by their addresses, and what walks through a
tree may answer differently at each of them.

* `Tree.nodeAt` — what stands at an address;
* `Tree.operand_induction` — a tree is missing, or a node above its operands;
* `Tree.preorder` — the addresses of all nodes, a node before its operands and the left operand before the right one;
* `Tree.Reached` — the addresses on the way to which no node is refused;
* `Tree.visits_eq_filter` — a walk visits the nodes that are reached, in pre-order;
* `Tree.count_lt_two_pow_depth` — how many nodes a tree of a given depth has room for;
* `Tree.walk_visits` — the nodes visited by a walk, and how many they can be.
-/

namespace ExprLang

/-- The one address comes before the other in pre-order: from the root on, it ends first or goes to an operand further
to the left. -/
def Address.Before (p q : Address) : Prop := List.Lex (· < ·) p.reverse q.reverse

namespace Address

variable {p q q' : Address} {i j : Nat}

theorem not_before_self (p : Address) : ¬ p.Before p := List.lex_irrefl Nat.lt_irrefl _

/-- A node comes before what is below it. -/
theorem before_of_suffix (h : i :: p <:+ q) : p.Before q := by
  obtain ⟨r, rfl⟩ := h
  have hbelow : List.Lex (· < ·) [] (i :: r.reverse) := .nil
  unfold Before
  rw [List.reverse_append, List.reverse_cons, List.append_assoc, ← List.append_nil p.reverse, List.append_assoc]
  exact hbelow.append_left _ _

/-- What is below an operand comes before what is below an operand further to the right. -/
theorem before_of_operands (hij : i < j) (hq : i :: p <:+ q) (hq' : j :: p <:+ q') : q.Before q' := by
  obtain ⟨r, rfl⟩ := hq
  obtain ⟨r', rfl⟩ := hq'
  have hsplit : List.Lex (· < ·) (i :: r.reverse) (j :: r'.reverse) := .rel hij
  unfold Before
  rw [List.reverse_append, List.reverse_append, List.reverse_cons, List.reverse_cons, List.append_assoc,
    List.append_assoc]
  exact hsplit.append_left _ _

end Address

namespace Tree

variable {x root : Tree} {enter : Address → Tree → Bool} {p q : Address} {i : Nat}

/-! ## Addresses -/

/-- The operand with the given number, counted from the left. -/
def operand : Tree → Nat → Tree
  | .grouping _ x, 0 => x
  | .unaryAt _ _ x, 0 => x
  | .binaryAt _ x _ _, 0 => x
  | .binaryAt _ _ _ y, 1 => y
  | _, _ => .missing

/-- What stands at an address, `missing` if nothing does. -/
def nodeAt (x : Tree) : Address → Tree
  | [] => x
  | i :: p => (x.nodeAt p).operand i

/-- A tree is missing, or a node above its operands. -/
@[elab_as_elim]
theorem operand_induction {motive : Tree → Prop} (missing : motive .missing)
    (node : ∀ x, x ≠ .missing → (∀ i, motive (x.operand i)) → motive x) (x : Tree) : motive x := by
  induction x with
  | missing => exact missing
  | literalAt line t => exact node _ (by simp) fun _ => missing
  | grouping line x ih =>
    refine node _ (by simp) fun i => ?_
    match i with
    | 0 => exact ih
    | i + 1 => exact missing
  | unaryAt line op x ih =>
    refine node _ (by simp) fun i => ?_
    match i with
    | 0 => exact ih
    | i + 1 => exact missing
  | binaryAt line x op y ihx ihy =>
    refine node _ (by simp) fun i => ?_
    match i with
    | 0 => exact ihx
    | 1 => exact ihy
    | i + 2 => exact missing

/-- Only the first two operands can be there. -/
theorem operand_add_two (x : Tree) (i : Nat) : x.operand (i + 2) = .missing := by
  cases x <;> rfl

theorem nodeAt_missing (p : Address) : nodeAt .missing p = .missing := by
  induction p with
  | nil => rfl
  | cons i p ih =>
    rw [nodeAt, ih]
    rfl

/-- The last step of an address is the first one from the root. -/
theorem nodeAt_concat (x : Tree) (p : Address) (i : Nat) : x.nodeAt (p ++ [i]) = (x.operand i).nodeAt p := by
  induction p with
  | nil => rfl
  | cons j p ih => rw [List.cons_append, nodeAt, ih, nodeAt]

/-! ## Pre-order -/

/-- The addresses of the nodes of a tree that stands at `p`: that of the root, then those in the operands from left to
right. -/
def addresses (p : Address) : Tree → List Address
  | .missing => []
  | .literalAt _ _ => [p]
  | .grouping _ x => p :: x.addresses (0 :: p)
  | .unaryAt _ _ x => p :: x.addresses (0 :: p)
  | .binaryAt _ x _ y => p :: (x.addresses (0 :: p) ++ y.addresses (1 :: p))

/-- The addresses of the nodes of a tree, in pre-order. -/
def preorder (x : Tree) : List Address := x.addresses []

theorem addresses_node (h : x ≠ .missing) (p : Address) :
    x.addresses p = p :: ((x.operand 0).addresses (0 :: p) ++ (x.operand 1).addresses (1 :: p)) := by
  cases x with
  | missing => exact absurd rfl h
  | _ => simp [addresses, operand]

theorem visits_node (h : x ≠ .missing) (enter : Address → Tree → Bool) (p : Address) :
    x.visits enter p =
      (p, x) ::
        if enter p x then (x.operand 0).visits enter (0 :: p) ++ (x.operand 1).visits enter (1 :: p) else [] := by
  cases x with
  | missing => exact absurd rfl h
  | literalAt line t => simp [visits_literalAt, operand, visits_missing]
  | grouping line x => simp [visits_grouping, operand, visits_missing]
  | unaryAt line op x => simp [visits_unaryAt, operand, visits_missing]
  | binaryAt line x op y => simp [visits_binaryAt, operand]

/-- What has an address in a tree that stands at `p` is below `p`, and a node stands there. -/
theorem mem_addresses_iff : q ∈ x.addresses p ↔ ∃ r, r ++ p = q ∧ x.nodeAt r ≠ .missing := by
  induction x using operand_induction generalizing p with
  | missing => simp [addresses, nodeAt_missing]
  | node x hx ih =>
    rw [addresses_node hx, List.mem_cons, List.mem_append, ih, ih]
    constructor
    · rintro (rfl | ⟨r, rfl, hr⟩ | ⟨r, rfl, hr⟩)
      · exact ⟨[], rfl, hx⟩
      · exact ⟨r ++ [0], List.append_cons r 0 p ▸ rfl, by rwa [nodeAt_concat]⟩
      · exact ⟨r ++ [1], List.append_cons r 1 p ▸ rfl, by rwa [nodeAt_concat]⟩
    · rintro ⟨r, rfl, hr⟩
      rcases List.eq_nil_or_concat' r with rfl | ⟨r, i, rfl⟩
      · exact .inl rfl
      · rw [nodeAt_concat] at hr
        rw [← List.append_cons]
        match i with
        | 0 => exact .inr (.inl ⟨r, rfl, hr⟩)
        | 1 => exact .inr (.inr ⟨r, rfl, hr⟩)
        | i + 2 =>
          rw [operand_add_two, nodeAt_missing] at hr
          exact absurd rfl hr

/-- **The addresses in pre-order are those where a node stands.** -/
theorem mem_preorder_iff : p ∈ x.preorder ↔ x.nodeAt p ≠ .missing := by
  simp [preorder, mem_addresses_iff]

theorem suffix_of_mem_addresses (h : q ∈ x.addresses p) : p <:+ q := by
  obtain ⟨r, hr, -⟩ := mem_addresses_iff.1 h
  exact ⟨r, hr⟩

theorem pairwise_addresses (x : Tree) (p : Address) : (x.addresses p).Pairwise Address.Before := by
  induction x using operand_induction generalizing p with
  | missing => exact .nil
  | node x hx ih =>
    rw [addresses_node hx]
    refine List.pairwise_cons.2 ⟨?_, List.pairwise_append.2 ⟨ih 0 _, ih 1 _, ?_⟩⟩
    · intro q hq
      rcases List.mem_append.1 hq with hq | hq
      · exact Address.before_of_suffix (suffix_of_mem_addresses hq)
      · exact Address.before_of_suffix (suffix_of_mem_addresses hq)
    · intro q hq q' hq'
      exact Address.before_of_operands Nat.zero_lt_one (suffix_of_mem_addresses hq) (suffix_of_mem_addresses hq')

theorem nodup_preorder (x : Tree) : x.preorder.Nodup := by
  refine (x.pairwise_addresses []).imp ?_
  rintro p _ h rfl
  exact p.not_before_self h

/-! ## Walks -/

/-- No node on the way to the address is refused. The node at the address itself does not matter. -/
def Reached (x : Tree) (enter : Address → Tree → Bool) (p : Address) : Prop :=
  ∀ q, q <:+ p → q ≠ p → enter q (x.nodeAt q)

instance (x : Tree) (enter : Address → Tree → Bool) (p : Address) : Decidable (x.Reached enter p) :=
  decidable_of_iff (∀ q ∈ p.tails, q ≠ p → enter q (x.nodeAt q)) (by simp [Reached])

theorem reached_nil : x.Reached enter [] := by
  intro q hsuffix hne
  exact absurd (List.suffix_nil.1 hsuffix) hne

/-- An operand is reached if the node is and is not refused. -/
theorem reached_cons : x.Reached enter (i :: p) ↔ x.Reached enter p ∧ enter p (x.nodeAt p) := by
  constructor
  · intro h
    have hbelow : ∀ q, q <:+ p → enter q (x.nodeAt q) := by
      intro q hq
      apply h q (hq.trans (List.suffix_cons i p))
      rintro rfl
      have hlength := hq.length_le
      rw [List.length_cons] at hlength
      omega
    exact ⟨fun q hq _ => hbelow q hq, hbelow p (List.suffix_refl p)⟩
  · rintro ⟨hp, henter⟩ q hq hne
    rcases List.suffix_cons_iff.1 hq with rfl | hq
    · exact absurd rfl hne
    · by_cases hqp : q = p
      · rwa [hqp]
      · exact hp q hq hqp

theorem Reached.of_suffix (h : x.Reached enter q) (hp : p <:+ q) : x.Reached enter p := by
  intro r hr hne
  apply h r (hr.trans hp)
  rintro rfl
  exact hne (hr.eq_of_length_le hp.length_le)

/-- **A walk through a part of a tree that is reached visits the nodes of it that are reached.** -/
theorem visits_of_reached (hx : root.nodeAt p = x) (hp : root.Reached enter p) :
    x.visits enter p = ((x.addresses p).filter (root.Reached enter ·)).map fun q => (q, root.nodeAt q) := by
  induction x using operand_induction generalizing p with
  | missing => rfl
  | node x hne ih =>
    rw [visits_node hne, addresses_node hne, List.filter_cons, if_pos (decide_eq_true hp), List.map_cons, hx]
    by_cases henter : enter p x
    · -- the operands are reached, and hold what the walk goes on with
      have hoperand : ∀ i, (x.operand i).visits enter (i :: p) =
          (((x.operand i).addresses (i :: p)).filter (root.Reached enter ·)).map fun q => (q, root.nodeAt q) := by
        intro i
        apply ih i
        · rw [nodeAt, hx]
        · rw [reached_cons, hx]
          exact ⟨hp, henter⟩
      rw [if_pos henter, hoperand 0, hoperand 1, List.filter_append, List.map_append]
    · -- nothing below the node is reached
      have hbelow : ∀ i q, q ∈ (x.operand i).addresses (i :: p) → ¬ root.Reached enter q := by
        intro i q hq hreached
        have hfirst := hreached.of_suffix (suffix_of_mem_addresses hq)
        rw [reached_cons, hx] at hfirst
        exact henter hfirst.2
      rw [if_neg henter, List.filter_eq_nil_iff.2, List.map_nil]
      intro q hq
      rw [decide_eq_true_iff]
      rcases List.mem_append.1 hq with hq | hq
      · exact hbelow 0 q hq
      · exact hbelow 1 q hq

/-- **A walk visits the nodes that are reached, in pre-order.** -/
theorem visits_eq_filter (x : Tree) (enter : Address → Tree → Bool) :
    x.visits enter [] = (x.preorder.filter (x.Reached enter ·)).map fun p => (p, x.nodeAt p) :=
  visits_of_reached rfl reached_nil

/-- A walk through `(1) + (1)` that goes into the left grouping only. -/
example :
    let one : Tree := .literal { kind := .number, lexeme := utf8 "1", line := 1 }
    let plus : Token := { kind := .plus, lexeme := utf8 "+", line := 1 }
    let x : Tree := .binary (.grouping 1 one) plus (.grouping 1 one)
    x.preorder = [[], [0], [0, 0], [1], [0, 1]] ∧
      x.visits (fun p _ => p != [1]) [] = [([], x), ([0], .grouping 1 one), ([0, 0], one), ([1], .grouping 1 one)] := by
  decide

/-! ## How many nodes there are -/

theorem length_preorder (x : Tree) : x.preorder.length = x.count := by
  have hall : x.preorder.filter (x.Reached (fun _ _ => true) ·) = x.preorder :=
    List.filter_eq_self.2 fun p _ => decide_eq_true fun _ _ _ => rfl
  rw [count, walk, visits_eq_filter, hall, List.length_map, List.length_map]

/-- A tree has as many nodes as there are addresses where one stands. -/
theorem count_eq_ncard (x : Tree) : x.count = {p | x.nodeAt p ≠ .missing}.ncard := by
  have hset : {p | x.nodeAt p ≠ .missing} = (x.preorder.toFinset : Set Address) := by
    ext p
    simp [mem_preorder_iff]
  rw [hset, Set.ncard_coe_finset, List.toFinset_card_of_nodup x.nodup_preorder, length_preorder]

/-- A level has room for twice as many nodes as the level above it. -/
theorem count_lt_two_pow_depth (x : Tree) : x.count < 2 ^ x.depth := by
  induction x with
  | missing => exact Nat.one_pos
  | literalAt line t => exact Nat.one_lt_two
  | grouping line x ih =>
    rw [count_grouping, depth, pow_succ]
    omega
  | unaryAt line op x ih =>
    rw [count_unaryAt, depth, pow_succ]
    omega
  | binaryAt line x op y ihx ihy =>
    have hx : 2 ^ x.depth ≤ 2 ^ max x.depth y.depth := Nat.pow_le_pow_right (by decide) (Nat.le_max_left _ _)
    have hy : 2 ^ y.depth ≤ 2 ^ max x.depth y.depth := Nat.pow_le_pow_right (by decide) (Nat.le_max_right _ _)
    rw [count_binaryAt, depth, pow_succ]
    omega

/-- **A walk visits exactly the part of a tree that is not pruned**, whatever is answered at each place. The nodes it
visits are those, in pre-order and each of them once, on the way to which no node is refused. So the count is the number
of the nodes of the tree, no walk visits more, and it lies between the depth and what a tree of that depth has room
for. -/
theorem walk_visits (x : Tree) (enter : Address → Tree → Bool) :
    x.preorder.Pairwise Address.Before ∧ (∀ p, p ∈ x.preorder ↔ x.nodeAt p ≠ .missing) ∧
      x.visits enter [] = (x.preorder.filter (x.Reached enter ·)).map (fun p => (p, x.nodeAt p)) ∧
      (∀ keep, x.walk keep = (x.preorder.filter (x.Reached (fun _ => keep) ·)).map x.nodeAt) ∧
      x.count = {p | x.nodeAt p ≠ .missing}.ncard ∧ (x.visits enter []).length ≤ x.count ∧
      x.depth ≤ x.count ∧ x.count ≤ 2 ^ x.depth - 1 := by
  refine ⟨x.pairwise_addresses [], fun _ => mem_preorder_iff, x.visits_eq_filter enter, fun keep => ?_,
    x.count_eq_ncard, ?_, x.depth_le_count, Nat.le_sub_one_of_lt x.count_lt_two_pow_depth⟩
  · rw [walk, visits_eq_filter, List.map_map]
    rfl
  · rw [visits_eq_filter, List.length_map, ← length_preorder]
    exact List.length_filter_le _ _

end Tree

end ExprLang
