import ExprLang.CommandLine.Plan
import ExprLang.Proofs.CommandLine.Reading

/-!
# Version and help

A command line that asks for the version or for help gets it and nothing else: no script is run and no dialogue is held.
Its exit status is that of a success, unless the command line is refused as well.

* `Reading.Announces` — the version or the help is printed;
* `Reading.usageFault?` — why the flags are refused;
* `CommandLine.run_announced` — what a call comes to in the one case, the other or both, if it comes to an end.
-/

namespace ExprLang.CommandLine

/-! ## Announcements -/

/-- Whether a setting is a use of the switch. -/
def Setting.uses (t : Switch) : Setting → Bool
  | .switch s _ => s = t
  | _ => false

namespace Reading

/-- How often a switch was read. -/
def uses (r : Reading) (t : Switch) : Nat := r.settings.countP (Setting.uses t)

/-- How often the help is printed: only if all arguments could be read. -/
def helps (r : Reading) : Nat := if r.fault = none then r.uses .help else 0

/-- The version or the help is printed. -/
def Announces (r : Reading) : Prop := 0 < r.uses .version ∨ 0 < r.helps

instance (r : Reading) : Decidable r.Announces := inferInstanceAs (Decidable (_ ∨ _))

/-- What is printed for the version and for help. -/
def announcements (r : Reading) : List Effect :=
  List.replicate (r.uses .version) (.out versionText) ++ List.replicate r.helps (.out helpText)

/-- Why the flags are refused: they could not all be read, or do not go together. -/
def usageFault? (r : Reading) : Option UsageFault :=
  match r.fault with
  | some fault => some fault
  | none =>
    match Options.ofSettings r.settings with
    | .error fault => some fault
    | .ok _ => none

variable {r : Reading}

theorem announcements_eq_nil_iff : r.announcements = [] ↔ ¬ r.Announces := by
  simp [announcements, Announces]

theorem stdout_announcements (r : Reading) :
    Effect.stdout r.announcements =
      (List.replicate (r.uses .version) versionText ++ List.replicate r.helps helpText).flatten := by
  simp [announcements, Effect.stdout, List.flatMap_replicate]

theorem stdout_announcements_eq_nil_iff : Effect.stdout r.announcements = [] ↔ ¬ r.Announces := by
  have hversion : versionText ≠ [] := by decide
  have hhelp : helpText ≠ [] := by decide
  simp [stdout_announcements, Announces, hversion, hhelp]

theorem messages_announcements (r : Reading) (time : Bytes) : Effect.messages time r.announcements = [] := by
  simp [announcements, Effect.messages, List.flatMap_replicate]

theorem announces_of_version (h : .switch .version true ∈ r.settings) : r.Announces :=
  .inl (List.countP_pos_iff.2 ⟨_, h, rfl⟩)

theorem announces_of_help (h : .switch .help true ∈ r.settings) (hfault : r.fault = none) : r.Announces := by
  have huses : 0 < r.uses .help := List.countP_pos_iff.2 ⟨_, h, rfl⟩
  refine .inr ?_
  rwa [helps, if_pos hfault]

end Reading

/-! ## Plans -/

theorem printed_eq_replicate (t : Switch) (text : Bytes) (settings : List Setting) :
    printed t text settings = List.replicate (settings.countP (Setting.uses t)) (.out text) := by
  induction settings with
  | nil => rfl
  | cons setting rest ih =>
    unfold printed at ih ⊢
    cases setting with
    | switch s on =>
      by_cases hs : s = t
      · simp [Setting.uses, hs, ih, List.replicate_succ]
      · simp [Setting.uses, hs, ih]
    | choice c value => simpa [Setting.uses] using ih
    | script path => simpa [Setting.uses] using ih

namespace Reading

variable {r : Reading}

theorem plan_of_usageFault {fault : UsageFault} (h : r.usageFault? = some fault) :
    r.plan = .stop (r.announcements ++ [complaint fault.message]) usageStatus := by
  unfold usageFault? at h
  unfold plan announcements helps uses
  simp only [printed_eq_replicate]
  cases hfault : r.fault with
  | some f =>
    simp only [hfault, Option.some.injEq] at h
    subst h
    simp
  | none =>
    simp only [hfault] at h
    cases hoptions : Options.ofSettings r.settings with
    | error f =>
      simp only [hoptions, Option.some.injEq] at h
      subst h
      simp
    | ok o => simp only [hoptions, reduceCtorEq] at h

/-- Flags that are not refused are announced, or else put into effect. -/
theorem plan_of_no_usageFault (h : r.usageFault? = none) :
    ∃ o : Options, r.plan = if r.Announces then .stop r.announcements 0 else o.plan := by
  unfold usageFault? at h
  cases hfault : r.fault with
  | some f => simp only [hfault, reduceCtorEq] at h
  | none =>
    simp only [hfault] at h
    cases hoptions : Options.ofSettings r.settings with
    | error f => simp only [hoptions, reduceCtorEq] at h
    | ok o =>
      have hprints : printed .version versionText r.settings ++ printed .help helpText r.settings = r.announcements := by
        rw [announcements, helps, if_pos hfault, printed_eq_replicate, printed_eq_replicate]
        rfl
      refine ⟨o, ?_⟩
      unfold plan
      simp only [hfault, hoptions, hprints, announcements_eq_nil_iff, ite_not]

end Reading

section

variable {files : Files} {arguments : List Bytes} {r : Reading}

theorem run_of_reading (hr : Reading.ofArguments files arguments = some r) (input : Bytes) (readError : Option Bytes) :
    run files arguments input readError = r.plan.carryOut files input readError := by
  rw [run, plan, hr]
  rfl

theorem run_of_no_reading (hr : Reading.ofArguments files arguments = none) (input : Bytes) (readError : Option Bytes) :
    run files arguments input readError = endless := by
  rw [run, plan, hr]
  rfl

theorem run_of_usageFault {fault : UsageFault} (hr : Reading.ofArguments files arguments = some r)
    (h : r.usageFault? = some fault) (input : Bytes) (readError : Option Bytes) :
    run files arguments input readError =
      { effects := r.announcements ++ [complaint fault.message], status := usageStatus } := by
  rw [run_of_reading hr, Reading.plan_of_usageFault h, Plan.carryOut]

/-- A call that announces something does nothing else, except that it complains if the flags are refused. -/
theorem run_of_announces (hr : Reading.ofArguments files arguments = some r) (ha : r.Announces) (input : Bytes)
    (readError : Option Bytes) :
    run files arguments input readError =
      { effects := r.announcements ++ (r.usageFault?.map fun fault => complaint fault.message).toList,
        status := if r.usageFault? = none then 0 else usageStatus } := by
  cases hfault : r.usageFault? with
  | some fault => exact run_of_usageFault hr hfault input readError
  | none =>
    obtain ⟨o, ho⟩ := Reading.plan_of_no_usageFault hfault
    rw [run_of_reading hr, ho, if_pos ha, Plan.carryOut, Option.map_none, Option.toList_none, List.append_nil, if_pos rfl]

end

theorem stdout_complaint (text : Bytes) : Effect.stdout [complaint text] = [] := rfl

theorem messages_complaint (time text : Bytes) :
    Effect.messages time [complaint text] = utf8 "jlox: error: " ++ text ++ utf8 "\n" :=
  List.append_nil _

/-! ## Exit statuses -/

theorem exitCode_ne_usageStatus (f : Failure) : f.exitCode ≠ usageStatus := by
  unfold Failure.exitCode
  cases f.decisive?.bind Failure.category? with
  | none => decide
  | some c => cases c <;> decide

theorem status_ofScript (s : Session) (p : Performance) : (ofScript s p).status ≠ usageStatus := by
  have hstatus : (ofScript s p).status = Failure.exitStatus p.failure := rfl
  rw [hstatus]
  cases p.failure with
  | none => decide
  | some f => exact exitCode_ne_usageStatus f

theorem status_ofDialogue (s : Session) (p : Performance) : (ofDialogue s p).status ≠ usageStatus := by
  have hstatus : (ofDialogue s p).status = if p.failure.isSome then 1 else 0 := rfl
  rw [hstatus]
  cases p.failure.isSome <;> decide

/-- Options that ask for nothing that can be done print nothing. -/
theorem stdout_of_plan_stop {o : Options} {effects : List Effect} {status : Nat} (h : o.plan = .stop effects status) :
    Effect.stdout effects = [] := by
  unfold Options.plan at h
  split at h
  · cases h
    rfl
  · split at h
    · cases h
      rfl
    · split at h
      · cases h
      · cases h

/-- A call that announces nothing prints nothing if it was made in a wrong way. -/
theorem stdout_of_not_announces {files : Files} {arguments : List Bytes} {input : Bytes} {readError : Option Bytes}
    {r : Reading} (hr : Reading.ofArguments files arguments = some r) (h : ¬ r.Announces)
    (hstatus : (run files arguments input readError).status = usageStatus) :
    Effect.stdout (run files arguments input readError).effects = [] := by
  have hsilent := Reading.stdout_announcements_eq_nil_iff.2 h
  cases hfault : r.usageFault? with
  | some fault =>
    rw [run_of_usageFault hr hfault, Effect.stdout_append, hsilent, stdout_complaint]
    rfl
  | none =>
    obtain ⟨o, ho⟩ := Reading.plan_of_no_usageFault hfault
    rw [if_neg h] at ho
    rw [run_of_reading hr, ho] at hstatus ⊢
    cases hplan : o.plan with
    | stop effects status => exact stdout_of_plan_stop hplan
    | script s path =>
      rw [hplan] at hstatus
      exact absurd hstatus (status_ofScript s _)
    | dialogue s =>
      rw [hplan] at hstatus
      exact absurd hstatus (status_ofDialogue s _)

section

variable {files : Files} {arguments : List Bytes} {r : Reading}

/-- Nothing is printed by a call made in a wrong way, exactly if nothing is announced by flags that are refused. -/
theorem stdout_eq_nil_iff (hr : Reading.ofArguments files arguments = some r) (input : Bytes) (readError : Option Bytes) :
    let o := run files arguments input readError
    (o.status = usageStatus → Effect.stdout o.effects = []) ↔ (r.Announces → r.usageFault? = none) := by
  intro o
  by_cases ha : r.Announces
  · have ho := run_of_announces hr ha input readError
    have hprints := Reading.stdout_announcements_eq_nil_iff.not.2 (not_not.2 ha)
    cases hfault : r.usageFault? with
    | none =>
      rw [hfault] at ho
      have hstatus : o.status ≠ usageStatus := by
        simp only [o, ho]
        decide
      exact ⟨fun _ _ => rfl, fun _ h => absurd h hstatus⟩
    | some fault =>
      rw [hfault] at ho
      have hstdout : Effect.stdout o.effects = Effect.stdout r.announcements := by
        simp only [o, ho, Option.map_some, Option.toList_some, Effect.stdout_append, stdout_complaint, List.append_nil]
      have hstatus : o.status = usageStatus := by
        simp only [o, ho, reduceCtorEq, if_false]
      rw [hstdout]
      exact ⟨fun h => absurd (h hstatus) hprints, fun h => absurd (h ha) (by simp)⟩
  · exact ⟨fun _ h => absurd h ha, fun _ hstatus => stdout_of_not_announces hr ha hstatus⟩

theorem announces_of_argument {before after : List Bytes} {b : Reading} (hr : Reading.ofArguments files arguments = some r)
    (hb : Reading.ofArguments files before = some b) (hready : b.Ready) :
    (arguments = before ++ utf8 "--version" :: after → r.Announces) ∧
      (arguments = before ++ utf8 "--help" :: after → r.fault = none → r.Announces) := by
  constructor
  · rintro rfl
    exact Reading.announces_of_version (Reading.switch_mem_settings hb hready hr)
  · rintro rfl hfault
    exact Reading.announces_of_help (Reading.switch_mem_settings hb hready hr) hfault

end

/-- The names of the flags for other forms of the help and for the completion of words in a shell. They are left out
here: a reading stops at one of them as at a flag that does not exist. -/
def Flag.leftOut : List String :=
  ["help-long", "help-man", "completion-bash", "completion-script-bash", "completion-script-zsh"]

/-- The reading has not met a flag that is left out, whether turned on or off. -/
def Reading.MeetsKnown (r : Reading) : Prop :=
  ∀ name ∈ Flag.leftOut, ∀ sign ∈ ["", "no-"], r.fault ≠ some (.unknownLong (utf8 (sign ++ name)))

instance (r : Reading) : Decidable r.MeetsKnown := inferInstanceAs (Decidable (∀ _ ∈ _, ∀ _ ∈ _, _))

/-- **Version and help are all that is done**, in whatever files and on whatever input. A call ends if no argument file
leads back to itself; if it does not end, it does nothing. Where a call that ends uses no flag that is left out, it is a
success that tells nothing else, unless the flags are refused as well: then the exit status says so in spite of what has
been printed, and this is the only way in which a call that was made in a wrong way prints something. The version is
printed wherever it is asked for in a place where a flag may stand, and help too, if all arguments can be read. -/
theorem run_announced (files : Files) (arguments : List Bytes) (input : Bytes) (readError : Option Bytes) :
    let o := run files arguments input readError
    ((∀ text ∈ arguments, Acc (Reading.Names files) text) → ∃ r, Reading.ofArguments files arguments = some r) ∧
    (∀ path more rest, arguments = (Word.atSign :: path) :: rest →
      Word.readArguments files path = .ok ((Word.atSign :: path) :: more) → Reading.ofArguments files arguments = none) ∧
    (Reading.ofArguments files arguments = none → o.ends = false ∧ o.effects = []) ∧
    ∀ r, Reading.ofArguments files arguments = some r → r.MeetsKnown →
      o.ends = true ∧
      (r.Announces →
        (∀ files' input' readError', Reading.ofArguments files' arguments = some r →
          run files' arguments input' readError' = o) ∧
        0 < r.uses .version + r.helps ∧
        Effect.stdout o.effects =
          (List.replicate (r.uses .version) versionText ++ List.replicate r.helps helpText).flatten ∧
        (r.usageFault? = none → o.status = 0 ∧ ∀ time, Effect.messages time o.effects = []) ∧
        ∀ fault, r.usageFault? = some fault → o.status = 64 ∧
          ∀ time, Effect.messages time o.effects = utf8 "jlox: error: " ++ fault.message ++ utf8 "\n") ∧
      ((o.status = 64 → Effect.stdout o.effects = []) ↔ (r.Announces → r.usageFault? = none)) ∧
      ∀ before after b, Reading.ofArguments files before = some b → b.Ready →
        (arguments = before ++ utf8 "--version" :: after → r.Announces) ∧
        (arguments = before ++ utf8 "--help" :: after → r.fault = none → r.Announces) := by
  intro o
  refine ⟨fun hacc => ?_, ?_, fun hr => ?_, fun r hr _ => ⟨?_, fun ha => ?_, stdout_eq_nil_iff hr input readError,
    fun before after b hb hready => announces_of_argument hr hb hready⟩⟩
  · obtain ⟨m, hm⟩ := Reading.exists_leadsTo hacc {}
    exact ⟨m.finish, Reading.ofArguments_eq_some_iff.2 ⟨m, hm, rfl⟩⟩
  · rintro path more rest rfl hread
    rw [Option.eq_none_iff_forall_ne_some]
    intro r hr
    obtain ⟨m, hm, -⟩ := Reading.ofArguments_eq_some_iff.1 hr
    exact Reading.not_leadsTo_of_names_itself hread rfl rfl hm
  · have ho : o = endless := run_of_no_reading hr input readError
    rw [ho]
    exact ⟨rfl, rfl⟩
  · have ho : o = r.plan.carryOut files input readError := run_of_reading hr input readError
    rw [ho]
    exact r.plan.ends_carryOut files input readError
  · have ho : o = _ := run_of_announces hr ha input readError
    rw [ho]
    refine ⟨fun files' input' readError' hr' => run_of_announces hr' ha input' readError', ?_, ?_, fun hfault => ?_,
      fun fault hfault => ?_⟩
    · unfold Reading.Announces at ha
      omega
    · rw [Effect.stdout_append, r.stdout_announcements]
      cases r.usageFault? <;> exact List.append_nil _
    · rw [hfault]
      exact ⟨rfl, fun time => by rw [Option.map_none, Option.toList_none, List.append_nil, r.messages_announcements]⟩
    · rw [hfault]
      refine ⟨rfl, fun time => ?_⟩
      rw [Option.map_some, Option.toList_some, Effect.messages_append, r.messages_announcements, messages_complaint]
      rfl

/-- `a @v -d`, where the file `v` asks for the version: the script is not looked for. -/
theorem run_announced_in_file :
    let files := Files.ofList [(utf8 "v", utf8 "--version\n")]
    let arguments := [utf8 "a", utf8 "@v", utf8 "-d"]
    let o := run files arguments [] none
    (∃ r, Reading.ofArguments files arguments = some r ∧ r.MeetsKnown ∧ r.Announces ∧ r.usageFault? = none) ∧
      o.ends = true ∧ o.status = 0 ∧ Effect.stdout o.effects = utf8 "0.1.0-dev\n" ∧
      ∀ time, Effect.messages time o.effects = [] := by
  intro files arguments o
  have hr : Reading.ofArguments files arguments =
      some { latest := [.switch .debug true, .switch .version true, .script (utf8 "a")] } :=
    Reading.ofArguments_eq_some_iff.2 ⟨_, .step rfl (.step rfl (.step rfl (.step rfl (.done _)))), rfl⟩
  obtain ⟨hends, hannounced, -, -⟩ := (run_announced files arguments [] none).2.2.2 _ hr (by decide)
  obtain ⟨-, -, hstdout, hdone, -⟩ := hannounced (by decide)
  exact ⟨⟨_, hr, by decide, by decide, rfl⟩, hends, (hdone rfl).1, hstdout.trans (by decide), (hdone rfl).2⟩

/-- `--version --bogus` prints the version, is refused all the same, and exits as a call that was made in a wrong way. -/
theorem run_version_unknown_flag :
    let arguments := [utf8 "--version", utf8 "--bogus"]
    let o := run (Files.ofList []) arguments [] none
    (∃ r, Reading.ofArguments (Files.ofList []) arguments = some r ∧ r.Announces) ∧ o.status = 64 ∧
      Effect.stdout o.effects = utf8 "0.1.0-dev\n" ∧
      Effect.stderr o.effects = utf8 "jlox: error: unknown long flag '--bogus'\n" := by
  intro arguments o
  have hr : Reading.ofArguments (Files.ofList []) arguments =
      some { latest := [.switch .version true], fault := some (.unknownLong (utf8 "bogus")) } :=
    Reading.ofArguments_eq_some_iff.2 ⟨_, .step rfl (.step rfl (.done _)), rfl⟩
  have ho : o = _ := run_of_reading hr [] none
  rw [ho]
  exact ⟨⟨_, hr, by decide⟩, rfl, by decide, by decide⟩

end ExprLang.CommandLine
