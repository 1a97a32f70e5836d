import ExprLang.CommandLine.Reading
import Mathlib.Data.List.Basic

/-!
# How a command line is read

* `Reading.Ready` — the next argument may be a flag;
* `Reading.LeadsTo` — reading arguments comes to an end, and to which;
* `Reading.LeadsTo.append`, `Reading.LeadsTo.split` — arguments are read one after the other;
* `Reading.exists_leadsTo` — reading ends if no file leads back to itself.
-/

namespace ExprLang.CommandLine.Reading

variable {files : Files} {r r' : Reading}

/-- The next argument may be a flag. -/
structure Ready (r : Reading) : Prop where
  fault : r.fault = none
  awaiting : r.awaiting = none
  literal : r.literal = false

theorem Ready.add (h : r.Ready) (setting : Setting) : (r.add setting).Ready := ⟨h.fault, h.awaiting, h.literal⟩

theorem Ready.empty : ({} : Reading).Ready := ⟨rfl, rfl, rfl⟩

/-- A reading that may go on after its end is not changed by ending it. -/
theorem finish_of_ready (h : r.finish.Ready) : r.finish = r := by
  have hfault := h.fault
  unfold finish at hfault ⊢
  split at hfault
  · cases hfault
  · rfl

/-! ## Settings are kept -/

theorem latest_takeLong (r : Reading) (name : Bytes) : r.latest <:+ (r.takeLong name).latest := by
  unfold takeLong
  split
  · exact List.suffix_cons _ _
  · exact List.suffix_refl _
  · exact List.suffix_refl _
  · exact List.suffix_refl _

theorem latest_takeFree (r : Reading) (word : Word) : r.latest <:+ (r.takeFree word).latest := by
  cases word with
  | long name => exact r.latest_takeLong name
  | short letter =>
    simp only [takeFree]
    cases Flag.ofLetter? letter with
    | none => exact List.suffix_refl _
    | some s => exact List.suffix_cons _ _
  | plain text => exact List.suffix_cons _ _
  | broken fault => exact List.suffix_refl _

theorem latest_take (r : Reading) (word : Word) : r.latest <:+ (r.take word).latest := by
  unfold take
  cases r.awaiting with
  | none => exact r.latest_takeFree word
  | some c =>
    cases word with
    | plain value => exact List.suffix_cons _ _
    | _ => exact List.suffix_refl _

theorem latest_takeAll (r : Reading) (words : List Word) : r.latest <:+ (r.takeAll words).latest := by
  induction words generalizing r with
  | nil => exact List.suffix_refl _
  | cons word rest ih =>
    unfold takeAll
    split
    · exact List.suffix_refl _
    · exact (r.latest_take word).trans (ih _)

theorem latest_argument (files : Files) (r : Reading) (text : Bytes) :
    r.latest <:+ (r.argument files text).1.latest := by
  unfold argument
  split
  · exact r.latest_take _
  · exact r.latest_take _
  · split
    · exact r.latest_takeAll _
    · split
      · split
        · exact r.latest_take _
        · exact List.suffix_refl _
      · exact r.latest_take _

theorem latest_finish (r : Reading) : r.finish.latest = r.latest := by
  unfold finish
  split
  · rfl
  · rfl

/-! ## Readings that end -/

/-- Reading the arguments from `r` on comes to an end, and to this one. -/
inductive LeadsTo (files : Files) : Reading → List Bytes → Reading → Prop where
  | done (r : Reading) : LeadsTo files r [] r
  | stopped {r : Reading} (h : r.fault.isSome) (texts : List Bytes) : LeadsTo files r texts r
  | step {r r' : Reading} {text : Bytes} {rest : List Bytes} (h : r.fault = none)
      (hrest : LeadsTo files (r.argument files text).1 ((r.argument files text).2 ++ rest) r') :
      LeadsTo files r (text :: rest) r'

theorem leadsTo_of_arguments {texts : List Bytes} (h : arguments files r texts = some r') :
    LeadsTo files r texts r' := by
  refine arguments.partial_correctness files (LeadsTo files) (fun approx ih r texts r' h => ?_) r texts r' h
  cases texts with
  | nil =>
    cases h
    exact .done r
  | cons text rest =>
    simp only at h
    split at h
    next hfault =>
      cases h
      exact .stopped hfault _
    next hfault => exact .step (by simpa using hfault) (ih _ _ _ h)

theorem LeadsTo.arguments_eq {texts : List Bytes} (h : LeadsTo files r texts r') :
    arguments files r texts = some r' := by
  induction h with
  | done r => rw [arguments]
  | stopped hfault texts =>
    cases texts with
    | nil => rw [arguments]
    | cons text rest => rw [arguments, if_pos hfault]
  | step hfault _ ih =>
    rw [arguments, if_neg (by simp [hfault])]
    exact ih

/-- **What reading arguments gives is what it leads to.** -/
theorem arguments_eq_some_iff {texts : List Bytes} : arguments files r texts = some r' ↔ LeadsTo files r texts r' :=
  ⟨leadsTo_of_arguments, LeadsTo.arguments_eq⟩

theorem ofArguments_eq_some_iff {texts : List Bytes} :
    ofArguments files texts = some r ↔ ∃ m, LeadsTo files {} texts m ∧ m.finish = r := by
  simp only [ofArguments, Option.map_eq_some_iff, arguments_eq_some_iff]

namespace LeadsTo

variable {m : Reading} {a b texts : List Bytes}

theorem unique (h : LeadsTo files r texts r') (hm : LeadsTo files r texts m) : r' = m :=
  Option.some.inj (h.arguments_eq.symm.trans hm.arguments_eq)

/-- What has been read stays read, whatever follows. -/
theorem latest (h : LeadsTo files r texts r') : r.latest <:+ r'.latest := by
  induction h with
  | done r => exact List.suffix_refl _
  | stopped hfault texts => exact List.suffix_refl _
  | @step r r' text rest hfault _ ih => exact (latest_argument files r text).trans ih

theorem append (ha : LeadsTo files r a m) (hb : LeadsTo files m b r') : LeadsTo files r (a ++ b) r' := by
  induction ha with
  | done r => exact hb
  | @stopped r hfault texts =>
    cases hb.unique (.stopped hfault b)
    exact .stopped hfault _
  | step hfault _ ih => exact .step hfault (by simpa using ih hb)

theorem split (h : LeadsTo files r (a ++ b) r') : ∃ m, LeadsTo files r a m ∧ LeadsTo files m b r' := by
  -- the arguments of a file stand before those that follow it, so they lengthen `a`
  generalize htexts : a ++ b = texts at h
  induction h generalizing a with
  | done r =>
    obtain ⟨rfl, rfl⟩ := List.append_eq_nil_iff.1 htexts
    exact ⟨r, .done r, .done r⟩
  | @stopped r hfault texts => exact ⟨r, .stopped hfault a, .stopped hfault b⟩
  | @step r r' text rest hfault hrest ih =>
    cases a with
    | nil =>
      cases htexts
      exact ⟨r, .done r, .step hfault hrest⟩
    | cons first a =>
      cases htexts
      obtain ⟨m, ha, hb⟩ := ih (List.append_assoc _ a b)
      exact ⟨m, .step hfault ha, hb⟩

end LeadsTo

/-! ## Files that name files -/

/-- The argument `inner` stands in the file that the argument `outer` names. -/
def Names (files : Files) (inner outer : Bytes) : Prop :=
  ∃ path more, outer = Word.atSign :: path ∧ Word.readArguments files path = .ok more ∧ inner ∈ more

theorem names_of_mem_argument {text inner : Bytes} (h : inner ∈ (r.argument files text).2) :
    Names files inner text := by
  unfold argument at h
  split at h
  · cases h
  · cases h
  · split at h
    · cases h
    · split at h
      next hat =>
        split at h
        · cases h
        next more hread => exact ⟨_, more, by rw [hat], hread, h⟩
      · cases h

theorem exists_leadsTo_of_each {texts : List Bytes} (h : ∀ text ∈ texts, ∀ r, ∃ r', LeadsTo files r [text] r')
    (r : Reading) : ∃ r', LeadsTo files r texts r' := by
  induction texts generalizing r with
  | nil => exact ⟨r, .done r⟩
  | cons text rest ih =>
    obtain ⟨hfirst, hrest⟩ := List.forall_mem_cons.1 h
    obtain ⟨m, hm⟩ := hfirst r
    obtain ⟨r', hr'⟩ := ih hrest m
    exact ⟨r', hm.append hr'⟩

theorem exists_leadsTo_single {text : Bytes} (h : Acc (Names files) text) (r : Reading) :
    ∃ r', LeadsTo files r [text] r' := by
  -- the induction goes from an argument to those in the file that it names
  induction h generalizing r with
  | intro text _ ih =>
    cases hfault : r.fault with
    | some fault => exact ⟨r, .stopped (by rw [hfault]; rfl) _⟩
    | none =>
      have hmore : ∀ inner ∈ (r.argument files text).2, ∀ r, ∃ r', LeadsTo files r [inner] r' :=
        fun inner hinner => ih inner (names_of_mem_argument hinner)
      obtain ⟨r', hr'⟩ := exists_leadsTo_of_each hmore (r.argument files text).1
      exact ⟨r', .step hfault (by rwa [List.append_nil])⟩

/-- **Reading ends if no file leads back to itself.** -/
theorem exists_leadsTo {texts : List Bytes} (h : ∀ text ∈ texts, Acc (Names files) text) (r : Reading) :
    ∃ r', LeadsTo files r texts r' :=
  exists_leadsTo_of_each (fun text htext => exists_leadsTo_single (h text htext)) r

theorem argument_file (hliteral : r.literal = false) {path : Bytes} {more : List Bytes}
    (hread : Word.readArguments files path = .ok more) : r.argument files (Word.atSign :: path) = (r, more) := by
  have hdash : Word.atSign ≠ Word.dash := by decide
  simp only [argument, hliteral, if_neg hdash, if_true, hread]

/-- A file that starts by naming itself is read for ever. -/
theorem not_leadsTo_of_names_itself {path : Bytes} {more rest : List Bytes}
    (hread : Word.readArguments files path = .ok ((Word.atSign :: path) :: more)) (hfault : r.fault = none)
    (hliteral : r.literal = false) : ¬ LeadsTo files r ((Word.atSign :: path) :: rest) r' := by
  intro h
  generalize htexts : (Word.atSign :: path) :: rest = texts at h
  induction h generalizing rest with
  | done r => cases htexts
  | stopped hsome texts => simp [hfault] at hsome
  | step _ _ ih =>
    cases htexts
    rw [argument_file hliteral hread] at ih
    exact ih hfault hliteral rfl

/-! ## Switches -/

/-- A switch is read where a flag may stand. -/
theorem argument_switch (h : r.Ready) (s : Switch) :
    r.argument files (utf8 "--" ++ utf8 (Flag.switch s).name) = (r.add (.switch s true), []) := by
  obtain ⟨latest, awaiting, literal, fault⟩ := r
  obtain ⟨rfl, rfl, rfl⟩ := h
  cases s <;> rfl

/-- **A switch that stands where a flag may stand is read**, whatever follows it. -/
theorem switch_mem_settings {before after : List Bytes} {b : Reading} {s : Switch}
    (hbefore : ofArguments files before = some b) (hready : b.Ready)
    (hall : ofArguments files (before ++ (utf8 "--" ++ utf8 (Flag.switch s).name) :: after) = some r) :
    .switch s true ∈ r.settings := by
  obtain ⟨m, hm, rfl⟩ := ofArguments_eq_some_iff.1 hbefore
  obtain ⟨e, he, rfl⟩ := ofArguments_eq_some_iff.1 hall
  obtain ⟨m', hm', hrest⟩ := he.split
  rw [finish_of_ready hready] at hready
  rw [hm'.unique hm] at hrest
  have hlatest : (m.add (.switch s true)).latest <:+ e.latest := by
    cases hrest with
    | stopped hfault _ => simp [hready.fault] at hfault
    | step _ hrest =>
      rw [argument_switch hready] at hrest
      exact hrest.latest
  rw [settings, List.mem_reverse, latest_finish]
  exact hlatest.mem List.mem_cons_self

end ExprLang.CommandLine.Reading
