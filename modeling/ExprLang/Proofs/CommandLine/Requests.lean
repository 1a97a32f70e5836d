import ExprLang.CommandLine.Plan
import ExprLang.Proofs.CommandLine.Reading
import ExprLang.Proofs.Session.Scripts
import Mathlib.Data.List.Pairwise
import Mathlib.Data.List.ReduceOption
import Mathlib.Data.List.Perm.Basic

/-!
# Requests on a command line

A request uses each flag once at most and names one script at most.

* `Request` — what is asked for, with the arguments that ask for it in one order of many;
* `Request.plan_perm` — the order of the arguments does not matter;
* `CommandLine.run_request` — a call does what the session that the request describes does.
-/

namespace ExprLang.CommandLine

/-! ## Requests -/

/-- A word that is neither a flag nor the name of an argument file. -/
structure PlainWord where
  text : Bytes
  noDash : text.head? ≠ some Word.dash
  noAtSign : text.head? ≠ some Word.atSign

/-- How the flag for the debug log is spelt. -/
inductive Spelling where
  | name
  | letter
  deriving DecidableEq, Repr

/-- What one argument asks for. -/
inductive Item where
  | emitTokens
  | emitTree
  | format (format : TreeFormat)
  | logLevel (name : Bytes)
  | debug (spelling : Spelling)
  | script (word : PlainWord)

namespace Item

/-- The argument of an item. -/
def text : Item → Bytes
  | .emitTokens => utf8 "--emit-tokens"
  | .emitTree => utf8 "--emit-ast"
  | .format .text => utf8 "--ast-format=text"
  | .format .json => utf8 "--ast-format=json"
  | .logLevel name => utf8 "--log-level=" ++ name
  | .debug .name => utf8 "--debug"
  | .debug .letter => utf8 "-d"
  | .script word => word.text

/-- The setting that an item is read as. -/
def setting : Item → Setting
  | .emitTokens => .switch .emitTokens true
  | .emitTree => .switch .emitTree true
  | .format .text => .choice .treeFormat (utf8 "text")
  | .format .json => .choice .treeFormat (utf8 "json")
  | .logLevel name => .choice .logLevel name
  | .debug _ => .switch .debug true
  | .script word => .script word.text

/-- The flag that an item uses. -/
def flag? : Item → Option Flag
  | .emitTokens => some (.switch .emitTokens)
  | .emitTree => some (.switch .emitTree)
  | .format _ => some (.choice .treeFormat)
  | .logLevel _ => some (.choice .logLevel)
  | .debug _ => some (.switch .debug)
  | .script _ => none

theorem flag?_setting (i : Item) : i.setting.flag? = i.flag? := by
  cases i with
  | format f => cases f <;> rfl
  | _ => rfl

/-- The items do not use the same flag. -/
def Apart (i j : Item) : Prop := ∀ f, i.flag? = some f → j.flag? ≠ some f

instance : Std.Symm Apart := ⟨fun _ _ h f hj hi => h f hi hj⟩

end Item

/-- What a command line asks for, with each flag once at most and one script at most. -/
structure Request where
  emitTokens : Bool := false
  emitTree : Bool := false
  format : Option TreeFormat := none
  logLevel : Option Bytes := none
  debug : Option Spelling := none
  script : Option PlainWord := none

namespace Request

/-- The items of a request. -/
def items (q : Request) : List Item :=
  [if q.emitTokens then some .emitTokens else none, if q.emitTree then some .emitTree else none, q.format.map .format,
    q.logLevel.map .logLevel, q.debug.map .debug, q.script.map .script].reduceOption

/-- The arguments of a request, in one order of many. -/
def arguments (q : Request) : List Bytes := q.items.map Item.text

end Request

/-! ## Reading -/

variable {files : Files} {r : Reading}

namespace Reading

theorem argument_item (h : r.Ready) (i : Item) : r.argument files i.text = (r.add i.setting, []) := by
  obtain ⟨latest, awaiting, literal, fault⟩ := r
  obtain ⟨rfl, rfl, rfl⟩ := h
  cases i with
  | emitTokens => rfl
  | emitTree => rfl
  | format f => cases f <;> rfl
  | logLevel name => rfl
  | debug spelling => cases spelling <;> rfl
  | script word =>
    obtain ⟨text, noDash, noAtSign⟩ := word
    cases text with
    | nil => rfl
    | cons b rest =>
      have hb : b ≠ Word.dash := fun h => noDash (congrArg some h)
      have hb' : b ≠ Word.atSign := fun h => noAtSign (congrArg some h)
      simp only [Item.text, argument, if_neg hb, if_neg hb']
      rfl

theorem leadsTo_items (h : r.Ready) (items : List Item) :
    LeadsTo files r (items.map Item.text) { r with latest := (items.map Item.setting).reverse ++ r.latest } := by
  induction items generalizing r with
  | nil => exact .done r
  | cons i items ih =>
    refine .step h.fault ?_
    rw [argument_item h, List.map_cons, List.reverse_cons, List.append_assoc]
    exact ih (h.add i.setting)

/-- **Items are read one by one**, each as its setting. -/
theorem ofArguments_items (files : Files) (items : List Item) :
    ofArguments files (items.map Item.text) = some { latest := (items.map Item.setting).reverse } := by
  refine ofArguments_eq_some_iff.2 ⟨_, leadsTo_items .empty items, ?_⟩
  rw [List.append_nil]
  rfl

end Reading

/-! ## Options -/

namespace Options

/-- The options with one more item put into effect. -/
def put (o : Options) : Item → Options
  | .emitTokens => { o with emitTokens := true }
  | .emitTree => { o with emitTree := true }
  | .format f => { o with format := f }
  | .logLevel name => { o with logLevel := name }
  | .debug _ => { o with debug := true }
  | .script _ => o

theorem set_item (o : Options) (i : Item) : o.set i.setting = .ok (o.put i) := by
  cases i with
  | format f => cases f <;> rfl
  | _ => rfl

/-- Items with different flags are put into effect one after the other. -/
theorem setAll_items (o : Options) (seen : List Flag) (items : List Item) (hapart : items.Pairwise Item.Apart)
    (hseen : ∀ i ∈ items, ∀ f, i.flag? = some f → f ∉ seen) :
    o.setAll seen (items.map Item.setting) = .ok (items.foldl put o) := by
  induction items generalizing o seen with
  | nil => rfl
  | cons i items ih =>
    obtain ⟨hi, hitems⟩ := List.forall_mem_cons.1 hseen
    obtain ⟨hfirst, hrest⟩ := List.pairwise_cons.1 hapart
    have hfresh : i.flag?.filter seen.contains = none := by
      cases hflag : i.flag? with
      | none => rfl
      | some f => simpa using hi f hflag
    rw [List.map_cons, setAll, Item.flag?_setting]
    simp only [hfresh, set_item, List.foldl_cons]
    -- a flag of a later item is neither the flag of this one nor one seen before
    refine ih (o.put i) _ hrest fun j hj f hf hmem => ?_
    rcases List.mem_append.1 hmem with hmem | hmem
    · exact hfirst j hj f (Option.mem_toList.1 hmem) hf
    · exact hitems j hj f hf hmem

/-- Items with different flags can be put into effect in any order. -/
theorem put_comm (o : Options) {i j : Item} (h : i.Apart j) : (o.put i).put j = (o.put j).put i := by
  cases i with
  | format f =>
    cases j with
    | format g => exact absurd rfl (h _ rfl)
    | _ => rfl
  | logLevel name =>
    cases j with
    | logLevel name' => exact absurd rfl (h _ rfl)
    | _ => rfl
  | _ => cases j <;> rfl

theorem foldl_put_perm (o : Options) {items items' : List Item} (hperm : items.Perm items')
    (hapart : items'.Pairwise Item.Apart) : items.foldl put o = items'.foldl put o := by
  refine (hperm.symm.foldl_eq' (fun i hi j hj o => ?_) o).symm
  by_cases hij : i = j
  · rw [hij]
  · exact put_comm o (hapart.forall hi hj hij)

end Options

/-! ## Plans -/

theorem printed_items {t : Switch} (h : t = .help ∨ t = .version) (text : Bytes) (items : List Item) :
    printed t text (items.map Item.setting) = [] := by
  unfold printed
  rw [List.filterMap_map, List.filterMap_eq_nil_iff]
  intro i _
  rcases h with rfl | rfl
  · rcases i with _ | _ | ⟨⟨⟩⟩ | _ | _ | _ <;> rfl
  · rcases i with _ | _ | ⟨⟨⟩⟩ | _ | _ | _ <;> rfl

/-- Items with different flags are planned as the options that they make. -/
theorem plan_items (files : Files) {items : List Item} (hapart : items.Pairwise Item.Apart) :
    plan files (items.map Item.text) =
      some (items.foldl Options.put { scripts := (items.map Item.setting).filterMap Setting.script? }).plan := by
  have hoptions : Options.ofSettings (items.map Item.setting) =
      .ok (items.foldl Options.put { scripts := (items.map Item.setting).filterMap Setting.script? }) :=
    Options.setAll_items _ [] items hapart fun _ _ _ _ => List.not_mem_nil
  rw [plan, Reading.ofArguments_items, Option.map_some]
  unfold Reading.plan
  simp only [Reading.settings, List.reverse_reverse, printed_items (.inl rfl),
    printed_items (.inr rfl), hoptions, List.append_nil, if_true]

namespace Request

variable {q : Request}

theorem pairwise_items (q : Request) : q.items.Pairwise Item.Apart := by
  unfold items List.reduceOption
  rw [List.pairwise_filterMap]
  simp +contextual [Item.Apart, Item.flag?]

/-- The options of a request. -/
def options (q : Request) : Options where
  emitTokens := q.emitTokens
  emitTree := q.emitTree
  format := q.format.getD .text
  logLevel := q.logLevel.getD (utf8 "warn")
  debug := q.debug.isSome
  scripts := (q.script.map PlainWord.text).toList

theorem foldl_put_items (q : Request) : q.items.foldl Options.put { scripts := q.options.scripts } = q.options := by
  obtain ⟨emitTokens, emitTree, format, logLevel, debug, script⟩ := q
  cases emitTokens <;> cases emitTree <;> cases format <;> cases logLevel <;> cases debug <;> cases script <;> rfl

theorem filterMap_script?_items (q : Request) :
    (q.items.map Item.setting).filterMap Setting.script? = q.options.scripts := by
  obtain ⟨emitTokens, emitTree, format, logLevel, debug, script⟩ := q
  cases emitTokens <;> cases emitTree <;> rcases format with _ | ⟨⟨⟩⟩ <;> cases logLevel <;> cases debug <;> cases script <;>
    rfl

/-- One script at most is the same script in any order. -/
theorem scripts_perm {items : List Item} (h : items.Perm q.items) :
    (items.map Item.setting).filterMap Setting.script? = q.options.scripts := by
  have hperm := (h.map Item.setting).filterMap Setting.script?
  rw [filterMap_script?_items] at hperm
  have hscripts : q.options.scripts = (q.script.map PlainWord.text).toList := rfl
  rw [hscripts] at hperm ⊢
  cases hscript : q.script with
  | none =>
    rw [hscript] at hperm
    exact hperm.eq_nil
  | some w =>
    rw [hscript] at hperm
    exact List.perm_singleton.1 hperm

theorem exists_items {arguments : List Bytes} (h : arguments.Perm q.arguments) :
    ∃ items : List Item, items.Perm q.items ∧ arguments = items.map Item.text := by
  have hitems : List.Forall₂ (fun text i => text = Item.text i) q.arguments q.items := by
    unfold Request.arguments
    rw [List.forall₂_map_left_iff, List.forall₂_same]
    exact fun _ _ => rfl
  -- the texts are permuted, and the items along with them
  obtain ⟨items, htexts, hperm⟩ := List.perm_comp_forall₂ h hitems
  refine ⟨items, hperm, ?_⟩
  rw [← List.forall₂_map_right_iff, List.forall₂_eq_eq_eq] at htexts
  exact htexts

/-- **The order of the arguments does not matter.** -/
theorem plan_perm {arguments : List Bytes} (h : arguments.Perm q.arguments) (files : Files) :
    plan files arguments = some q.options.plan := by
  obtain ⟨items, hperm, rfl⟩ := exists_items h
  have hapart := (hperm.pairwise_iff fun hij => Std.Symm.symm _ _ hij).2 q.pairwise_items
  rw [plan_items files hapart, scripts_perm hperm, Options.foldl_put_perm _ hperm q.pairwise_items, foldl_put_items]

theorem run_perm {arguments : List Bytes} (h : arguments.Perm q.arguments) (files : Files) (input : Bytes)
    (readError : Option Bytes) :
    run files arguments input readError = q.options.plan.carryOut files input readError := by
  rw [run, plan_perm h]
  rfl

end Request

/-! ## Outcomes -/

namespace Outcome

/-- The outcome of a call that has the session run the file at `path`. -/
structure AfterScript (s : Session) (files : Files) (path : Bytes) (o : Outcome) : Prop where
  level : o.level = s.level
  success : (s.runFile files path).failure = none → o.status = 0 ∧ o.effects = (s.runFile files path).effects
  /-- A failure decides the exit status, and is the only thing that is told apart from the log. -/
  failure : ∀ f, (s.runFile files path).failure = some f →
    o.status = f.exitCode ∧ o.effects = (s.runFile files path).effects ++ [.err (f.message ++ utf8 "\n")] ∧
      Effect.stdout o.effects = [] ∧ ∀ time, (f.message ++ utf8 "\n") <:+ Effect.messages time o.effects
  unreadable : ∀ fault, files.read path = .error fault → o.status = 66
  failed : ∀ src, files.read path = .ok src → ∀ stage ∈ s.mode.stages, ∀ f, stage.Fails src f →
    o.status = if stage = .evaluate then 70 else 65

/-- The outcome of a call that has the session hold a dialogue. Lines that fail do not change the exit status. -/
structure AfterDialogue (s : Session) (input : Bytes) (readError : Option Bytes) (o : Outcome) : Prop where
  level : o.level = s.level
  ended : readError = none → o.status = 0 ∧ o.effects = (s.prompt input readError).effects
  broken : ∀ text, readError = some text →
    o.status = 1 ∧ o.effects = (s.prompt input readError).effects ++ [complaint text]

end Outcome

theorem afterScript_ofScript {s : Session} (hlimit : s.limit = none) (files : Files) (path : Bytes) :
    (ofScript s (s.runFile files path)).AfterScript s files path where
  level := rfl
  success h := by
    unfold ofScript Performance.exitStatus
    rw [h]
    exact ⟨rfl, List.append_nil _⟩
  failure f h := by
    have heffects : (ofScript s (s.runFile files path)).effects =
        (s.runFile files path).effects ++ [.err (f.message ++ utf8 "\n")] := by
      unfold ofScript
      rw [h]
      rfl
    refine ⟨?_, heffects, ?_, fun time => ?_⟩
    · unfold ofScript Performance.exitStatus
      rw [h]
      rfl
    · rw [heffects, Effect.stdout_append, Session.stdout_runFile_of_failure hlimit h]
      rfl
    · rw [heffects, Effect.messages_append]
      exact ⟨Effect.messages time (s.runFile files path).effects, by simp [Effect.messages]⟩
  unreadable fault h := by
    unfold ofScript Performance.exitStatus
    rw [Session.failure_runFile_of_error h]
    rfl
  failed src hread stage hstage f hf := by
    unfold ofScript Performance.exitStatus
    rw [Session.failure_runFile_of_fails hread hstage hf]
    exact hf.exitCode_eq

theorem afterDialogue_ofDialogue {s : Session} (hlimit : s.limit = none) (input : Bytes) (readError : Option Bytes) :
    (ofDialogue s (s.prompt input readError)).AfterDialogue s input readError where
  level := rfl
  ended h := by
    unfold ofDialogue
    rw [Session.failure_prompt hlimit, h]
    exact ⟨rfl, List.append_nil _⟩
  broken text h := by
    unfold ofDialogue
    rw [Session.failure_prompt hlimit, h]
    exact ⟨rfl, rfl⟩

namespace Request

variable {q : Request} {level : Log.Level} {s : Session}

/-- The level of the log that a request names, warnings if it names none; `none` if there is no level of that name. -/
def level? (q : Request) : Option Log.Level :=
  match q.logLevel with
  | none => some .warning
  | some name => Log.Level.ofName? name

/-- The session that a request asks for, where it names the given level. -/
def session (q : Request) (level : Log.Level) : Session where
  mode := if q.emitTokens then .tokens else if q.emitTree then .tree else .evaluate
  format := q.format.getD .text
  level := if q.debug.isSome then .debug else level

theorem session?_options (q : Request) : q.options.session? = q.level?.map q.session := by
  have hlevel : Log.Level.ofName? q.options.logLevel = q.level? := by
    unfold options level?
    cases q.logLevel with
    | none => rfl
    | some name => rfl
  rw [Options.session?, hlevel]
  rfl

theorem plan_options_of_none (h : q.level? = none) :
    q.options.plan = .stop [complaint (Log.Level.unknownName q.options.logLevel)] usageStatus := by
  have hsession : q.options.session? = none := by rw [session?_options, h, Option.map_none]
  have hscripts : q.options.scripts = (q.script.map PlainWord.text).toList := rfl
  unfold Options.plan
  cases hscript : q.script with
  | none => simp only [hscripts, hscript, hsession, Option.map_none, Option.toList_none]
  | some w => simp only [hscripts, hscript, hsession, Option.map_some, Option.toList_some]

theorem plan_options_of_some (h : q.level? = some level) :
    q.options.plan = match q.script with
      | some w => .script (q.session level) w.text
      | none => .dialogue (q.session level) := by
  have hsession : q.options.session? = some (q.session level) := by rw [session?_options, h, Option.map_some]
  have hscripts : q.options.scripts = (q.script.map PlainWord.text).toList := rfl
  unfold Options.plan
  cases hscript : q.script with
  | none => simp only [hscripts, hscript, hsession, Option.map_none, Option.toList_none]
  | some w => simp only [hscripts, hscript, hsession, Option.map_some, Option.toList_some]

/-- The session is set as a request asks for, where it names the given level. The format is free where no tree is
written. -/
structure Describes (q : Request) (level : Log.Level) (s : Session) : Prop where
  mode : s.mode = if q.emitTokens then .tokens else if q.emitTree then .tree else .evaluate
  format : s.mode = .tree → s.format = q.format.getD .text
  level : s.level = if q.debug.isSome then .debug else level
  limit : s.limit = none

theorem Describes.mirrors (h : q.Describes level s) : Session.Mirrors (fun _ => true) s (q.session level) :=
  Session.mirrors_of_format h.mode.symm (fun htree => (h.format htree).symm) h.level.symm h.limit.symm

theorem Describes.ofScript_eq (h : q.Describes level s) (files : Files) (path : Bytes) :
    ofScript (q.session level) ((q.session level).runFile files path) = ofScript s (s.runFile files path) := by
  rw [h.mirrors.runFile, Performance.only_true, ofScript, ofScript, h.level]
  rfl

theorem Describes.ofDialogue_eq (h : q.Describes level s) (input : Bytes) (readError : Option Bytes) :
    ofDialogue (q.session level) ((q.session level).prompt input readError) = ofDialogue s (s.prompt input readError) := by
  rw [h.mirrors.prompt, Performance.only_true, ofDialogue, ofDialogue, h.level]
  rfl

end Request

/-- **A command line does what the session it describes does**, in whatever order its arguments stand. If it names a
level of the log that does not exist, it does nothing but complain, even if it asks for the debug log as well. -/
theorem run_request (q : Request) {arguments : List Bytes} (h : arguments.Perm q.arguments) (files : Files) (input : Bytes)
    (readError : Option Bytes) :
    let o := run files arguments input readError
    o.ends = true ∧ o = run files q.arguments input readError ∧
      (q.level? = none → o.status = 64 ∧ Effect.stdout o.effects = [] ∧
        ∀ files' input' readError', run files' arguments input' readError' = o) ∧
      ∀ level s, q.level? = some level → q.Describes level s →
        (∀ w, q.script = some w → o.AfterScript s files w.text) ∧
        (q.script = none → o.AfterDialogue s input readError) := by
  intro o
  have hrun : o = q.options.plan.carryOut files input readError := Request.run_perm h files input readError
  refine ⟨?_, ?_, fun hlevel => ?_, fun level s hlevel hs => ⟨fun w hw => ?_, fun hscript => ?_⟩⟩
  · rw [hrun]
    exact q.options.plan.ends_carryOut files input readError
  · rw [hrun, Request.run_perm (List.Perm.refl q.arguments)]
  · have ho : ∀ files input readError, run files arguments input readError =
        { effects := [complaint (Log.Level.unknownName q.options.logLevel)], status := usageStatus } := by
      intro files input readError
      rw [Request.run_perm h, Request.plan_options_of_none hlevel, Plan.carryOut]
    simp only [o, ho]
    exact ⟨rfl, rfl, fun _ _ _ => trivial⟩
  · have ho : o = ofScript s (s.runFile files w.text) := by
      simp only [hrun, Request.plan_options_of_some hlevel, hw, Plan.carryOut, hs.ofScript_eq]
    rw [ho]
    exact afterScript_ofScript hs.limit files w.text
  · have ho : o = ofDialogue s (s.prompt input readError) := by
      simp only [hrun, Request.plan_options_of_some hlevel, hscript, Plan.carryOut, hs.ofDialogue_eq]
    rw [ho]
    exact afterDialogue_ofDialogue hs.limit input readError

/-- `a -d --log-level=Error` on a script without the closing parenthesis: the debug log wins over the level that is named,
and the script is refused by the parser. -/
theorem run_request_unclosed :
    let files := Files.ofList [(utf8 "a", utf8 "(nil")]
    let o := run files [utf8 "a", utf8 "-d", utf8 "--log-level=Error"] [] none
    o.status = 65 ∧ Effect.stdout o.effects = [] ∧ o.level = .debug := by
  intro files o
  let w : PlainWord := ⟨utf8 "a", by decide, by decide⟩
  let q : Request := { logLevel := some (utf8 "Error"), debug := some .letter, script := some w }
  let s : Session := { level := .debug }
  have hperm : [utf8 "a", utf8 "-d", utf8 "--log-level=Error"].Perm q.arguments := by decide
  have hs : q.Describes ⟨2⟩ s := ⟨rfl, Mode.noConfusion, rfl, rfl⟩
  have ho : o.AfterScript s files w.text := ((run_request q hperm files [] none).2.2.2 ⟨2⟩ s rfl hs).1 w rfl
  have hread : files.read w.text = .ok (utf8 "(nil") := rfl
  have hstage : Stage.parse ∈ s.mode.stages := by decide
  obtain ⟨f, hf⟩ : ∃ f, Stage.parse.Fails (utf8 "(nil") f := ⟨_, .parse rfl rfl⟩
  have hfailure : (s.runFile files w.text).failure = some f := Session.failure_runFile_of_fails hread hstage hf
  exact ⟨ho.failed _ hread .parse hstage f hf, (ho.failure f hfailure).2.2.1, ho.level⟩

end ExprLang.CommandLine
