import ExprLang.Failure

/-!
# What the exit status of a failure depends on

The exit status is found by searching the chain of a failure four times, and the order of the searches is not that of the
chain. So it depends on which categories occur in the chain, wherever they stand there.

* `Failure.categories` — the categories that occur, and `Failure.exitCode_eq` — the exit status they lead to;
* `Wrap`, `Failure.within` — a failure inside any number of wraps;
* `Failure.mem_categories_within` — what the wraps add to the categories;
* `Failure.exitCode_within` — the exit status is that of the innermost failure, where this one has a category.
-/

namespace ExprLang

namespace Failure

/-! ## Categories -/

/-- The categories that occur in the chain, the outermost first. -/
def categories (f : Failure) : List Category := f.chain.filterMap category?

/-- A search finds a failure of its category wherever one stands in the chain. -/
theorem find?_cases (f : Failure) (c : Category) :
    (∃ g, f.find? c = some g ∧ g.category? = some c ∧ c ∈ f.categories) ∨ (f.find? c = none ∧ c ∉ f.categories) := by
  cases h : f.find? c with
  | some g =>
    have hchain : f.chain.find? (fun g => g.category? == some c) = some g := h
    have hbeq := List.find?_some hchain
    have hg : g.category? = some c := eq_of_beq hbeq
    exact .inl ⟨g, rfl, hg, List.mem_filterMap.2 ⟨g, List.mem_of_find?_eq_some h, hg⟩⟩
  | none =>
    refine .inr ⟨rfl, fun hc => ?_⟩
    obtain ⟨g, hg, hcategory⟩ := List.mem_filterMap.1 hc
    exact List.find?_eq_none.1 h g hg (beq_iff_eq.2 hcategory)

/-- **The exit status by the categories that occur**, in the order of their priority. -/
theorem exitCode_eq (f : Failure) :
    f.exitCode =
      if .scan ∈ f.categories ∨ .parse ∈ f.categories then 65
      else if .runtime ∈ f.categories then 70
      else if .unreadable ∈ f.categories then 66
      else 1 := by
  unfold exitCode decisive?
  -- the first search that finds something decides, and those before it have found nothing
  rcases f.find?_cases .scan with ⟨g, hfound, hg, hscan⟩ | ⟨hnone, hscan⟩
  · simp [hfound, hg, hscan, Category.exitCode]
  rw [hnone]
  rcases f.find?_cases .parse with ⟨g, hfound, hg, hparse⟩ | ⟨hnone, hparse⟩
  · simp [hfound, hg, hparse, Category.exitCode]
  rw [hnone]
  rcases f.find?_cases .runtime with ⟨g, hfound, hg, hruntime⟩ | ⟨hnone, hruntime⟩
  · simp [hfound, hg, hscan, hparse, hruntime, Category.exitCode]
  rw [hnone]
  rcases f.find?_cases .unreadable with ⟨g, hfound, hg, hunreadable⟩ | ⟨hnone, hunreadable⟩
  · simp [hfound, hg, hscan, hparse, hruntime, hunreadable, Category.exitCode]
  · simp [hnone, hscan, hparse, hruntime, hunreadable]

/-- Chains with the same categories lead to the same exit status, in whatever order and number they have them. -/
theorem exitCode_congr {f g : Failure} (h : ∀ c, c ∈ f.categories ↔ c ∈ g.categories) : f.exitCode = g.exitCode := by
  simp only [exitCode_eq, h]

/-- An unreadable script more in the chain matters where nothing else has decided. -/
theorem exitCode_of_unreadable {f g : Failure} (h : ∀ c, c ∈ g.categories ↔ c = .unreadable ∨ c ∈ f.categories) :
    g.exitCode = if f.exitCode = 1 then 66 else f.exitCode := by
  have hscan : .scan ∈ g.categories ↔ .scan ∈ f.categories := by simp [h]
  have hparse : .parse ∈ g.categories ↔ .parse ∈ f.categories := by simp [h]
  have hruntime : .runtime ∈ g.categories ↔ .runtime ∈ f.categories := by simp [h]
  have hunreadable : .unreadable ∈ g.categories := (h _).2 (.inl rfl)
  simp only [exitCode_eq, hscan, hparse, hruntime, if_pos hunreadable]
  by_cases hdata : .scan ∈ f.categories ∨ .parse ∈ f.categories
  · simp [hdata]
  · by_cases hsoftware : .runtime ∈ f.categories
    · simp [hdata, hsoftware]
    · by_cases hinput : .unreadable ∈ f.categories <;> simp [hdata, hsoftware, hinput]

end Failure

/-! ## Wraps -/

/-- What may be put around a failure. -/
inductive Wrap where
  /-- The script at the path could not be read. -/
  | unreadable (path : Bytes)
  /-- A remark in front. -/
  | remark (text : Bytes)
  deriving DecidableEq

namespace Wrap

/-- The failure with the wrap around it. -/
def around : Wrap → Failure → Failure
  | unreadable path, f => .unreadable path f
  | remark text, f => .remarked text f

/-- Whether the wrap is that of an unreadable script. -/
def isUnreadable : Wrap → Bool
  | unreadable _ => true
  | remark _ => false

end Wrap

namespace Failure

/-- The failure inside the wraps, the first of which is the outermost. -/
def within (f : Failure) (wraps : List Wrap) : Failure := wraps.foldr Wrap.around f

/-- One wrap adds the category of unreadable scripts, or none. -/
theorem mem_categories_around (w : Wrap) (f : Failure) (c : Category) :
    c ∈ (w.around f).categories ↔ (c = .unreadable ∧ w.isUnreadable) ∨ c ∈ f.categories := by
  cases w with
  | unreadable path => simp [categories, Wrap.around, chain, category?, Wrap.isUnreadable]
  | remark text => simp [categories, Wrap.around, chain, category?, Wrap.isUnreadable]

/-- **Wraps add no category but that of unreadable scripts.** -/
theorem mem_categories_within (wraps : List Wrap) (f : Failure) (c : Category) :
    c ∈ (f.within wraps).categories ↔ (c = .unreadable ∧ ∃ w ∈ wraps, w.isUnreadable) ∨ c ∈ f.categories := by
  induction wraps with
  | nil => simp [within]
  | cons w wraps ih =>
    have hcons : f.within (w :: wraps) = w.around (f.within wraps) := rfl
    rw [hcons, mem_categories_around, ih, ← or_assoc, ← and_or_left]
    simp

/-- It does not matter at which place of the wraps another one is put. -/
theorem mem_categories_insert (f : Failure) (outer inner : List Wrap) (w : Wrap) (c : Category) :
    c ∈ (f.within (outer ++ w :: inner)).categories ↔
      (c = .unreadable ∧ w.isUnreadable) ∨ c ∈ (f.within (outer ++ inner)).categories := by
  have happend : ∀ wraps, f.within (outer ++ wraps) = (f.within wraps).within outer := fun _ => List.foldr_append
  have hcons : f.within (w :: inner) = w.around (f.within inner) := rfl
  rw [happend, happend, hcons, mem_categories_within, mem_categories_within, mem_categories_around, or_left_comm]

/-- **The exit status depends on what the chain contains, not on how it is wrapped.** Inside any wraps, a lexical error
and a parse error lead to 65 and a run-time error to 70; any other failure leads to 66 if a wrap says that a script could
not be read, and else to 1. So remarks may be added and all wraps permuted, and one more unreadable script turns 1 into
66 and changes nothing else. -/
theorem exitCode_within (wraps : List Wrap) :
    (∀ d, ((scan d).within wraps).exitCode = 65) ∧
      (∀ t m, ((parse t m).within wraps).exitCode = 65) ∧
      (∀ t m, ((runtime t m).within wraps).exitCode = 70) ∧
      (∀ s, ((plain s).within wraps).exitCode = if ∃ w ∈ wraps, w.isUnreadable then 66 else 1) ∧
      (∀ (f : Failure) (permuted : List Wrap), permuted.Perm wraps →
        (f.within permuted).exitCode = (f.within wraps).exitCode) ∧
      ∀ (f : Failure) (outer inner : List Wrap), outer ++ inner = wraps →
        (∀ text, (f.within (outer ++ .remark text :: inner)).exitCode = (f.within wraps).exitCode) ∧
          ∀ path, (f.within (outer ++ .unreadable path :: inner)).exitCode =
            if (f.within wraps).exitCode = 1 then 66 else (f.within wraps).exitCode := by
  have hscan : ∀ d, (scan d).categories = [.scan] := fun _ => rfl
  have hparse : ∀ t m, (parse t m).categories = [.parse] := fun _ _ => rfl
  have hruntime : ∀ t m, (runtime t m).categories = [.runtime] := fun _ _ => rfl
  have hplain : ∀ s, (plain s).categories = [] := fun _ => rfl
  refine ⟨fun d => ?_, fun t m => ?_, fun t m => ?_, fun s => ?_, fun f permuted hperm => ?_, ?_⟩
  · simp [exitCode_eq, mem_categories_within, hscan]
  · simp [exitCode_eq, mem_categories_within, hparse]
  · simp [exitCode_eq, mem_categories_within, hruntime]
  · simp [exitCode_eq, mem_categories_within, hplain]
  · apply exitCode_congr
    intro c
    simp only [mem_categories_within, hperm.mem_iff]
  · rintro f outer inner rfl
    refine ⟨fun text => exitCode_congr fun c => ?_, fun path => exitCode_of_unreadable fun c => ?_⟩
    · simp [mem_categories_insert, Wrap.isUnreadable]
    · simp [mem_categories_insert, Wrap.isUnreadable]

/-- Inside the wrap of an unreadable script a lexical error stays what it is, while a plain failure is no longer one, on
whichever side of a remark the wrap stands. -/
theorem exitCode_within_script :
    let remark : Wrap := .remark (utf8 "run")
    let script : Wrap := .unreadable (utf8 "a.lox")
    let stray : Failure := .scan { line := 3, place := utf8 "at '#'", message := utf8 "Unexpected character." }
    let denied : Failure := .plain (utf8 "denied")
    (stray.within [remark, script]).exitCode = 65 ∧ (denied.within [remark]).exitCode = 1 ∧
      (denied.within [remark, script]).exitCode = 66 ∧ (denied.within [script, remark]).exitCode = 66 := by
  intro remark script stray denied
  obtain ⟨-, -, -, hplain, -, hinsert⟩ := exitCode_within [remark]
  obtain ⟨hscan, -, -, -, hperm, -⟩ := exitCode_within [remark, script]
  have hbefore : (denied.within [remark]).exitCode = 1 := hplain _
  have hafter : (denied.within [remark, script]).exitCode = 66 := by
    have h := (hinsert denied [remark] [] rfl).2 (utf8 "a.lox")
    rwa [hbefore] at h
  exact ⟨hscan _, hbefore, hafter, (hperm denied [script, remark] (.swap ..)).trans hafter⟩

end Failure

end ExprLang
