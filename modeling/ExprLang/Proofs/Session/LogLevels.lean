import ExprLang.Proofs.Session.Run
import ExprLang.Session.Step
import Mathlib.Data.List.Forall2

/-!
# Runs under different log levels

What goes into the log is decided by the level and decides nothing else. Two sessions that differ in the level do the
same, notes apart; and one that writes no notes does just that.

* `Performance.only` — a performance with some of its effects only;
* `Session.Mirrors keep s q` — `q` does what `s` does, but for notes that `keep` drops;
* `Session.Mirrors.run`, `Session.Mirrors.runFile`, `Session.Mirrors.prompt` — so it is for sources, scripts and dialogues;
* `Session.perform_agrees` — a step of two sessions that differ in the level;
* `Session.performAll_levels` — sequences of steps under any two levels.
-/

namespace ExprLang

/-! ## Parts of a performance -/

namespace Performance

/-- The performance with those effects only that `keep` accepts. -/
def only (keep : Effect → Bool) (p : Performance) : Performance := { p with effects := p.effects.filter keep }

variable {keep : Effect → Bool}

theorem only_after (effects : List Effect) (p : Performance) :
    (p.after effects).only keep = (p.only keep).after (effects.filter keep) := by
  simp only [only, after, List.filter_append]

theorem only_true (p : Performance) : p.only (fun _ => true) = p := by
  simp only [only, List.filter_true]

end Performance

namespace Session

/-- The session `q` reports what `s` reports and has its limit. It notes what `s` notes as far as `keep` lets it pass,
and nothing that is written is dropped. -/
structure Mirrors (keep : Effect → Bool) (s q : Session) : Prop where
  report : ∀ src, Report.of q.mode q.format src = Report.of s.mode s.format src
  limit : q.limit = s.limit
  note : ∀ entries, q.note entries = (s.note entries).filter keep
  out : ∀ text, keep (.out text) = true
  err : ∀ text, keep (.err text) = true

namespace Mirrors

variable {keep : Effect → Bool} {s q : Session}

theorem write? (h : Mirrors keep s q) (written : Nat) (text : Bytes) : q.write? written text = s.write? written text := by
  unfold Session.write?
  rw [h.limit]

theorem writeAll (h : Mirrors keep s q) (written : Nat) (texts : List Bytes) :
    q.writeAll written texts = (s.writeAll written texts).only keep := by
  induction texts generalizing written with
  | nil => rfl
  | cons text texts ih =>
    unfold Session.writeAll
    rw [h.write?]
    cases s.write? written text with
    | none => rfl
    | some written =>
      have hout : [Effect.out text].filter keep = [.out text] := by simp [h.out]
      simp only [ih written, Performance.only_after, hout]

theorem run (h : Mirrors keep s q) (written : Nat) (src : Bytes) :
    q.run written src = (s.run written src).only keep := by
  unfold Session.run
  simp only [h.report src, h.note]
  cases (Report.of s.mode s.format src).result with
  | error f => rfl
  | ok texts => simp only [h.writeAll written texts, Performance.only_after]

theorem runFile (h : Mirrors keep s q) (files : Files) (path : Bytes) :
    q.runFile files path = (s.runFile files path).only keep := by
  unfold Session.runFile
  cases files.read path with
  | error fault => rfl
  | ok src => simp only [h.run, h.note, Performance.only_after]

theorem runLine (h : Mirrors keep s q) (written number : Nat) (line : Bytes) :
    q.runLine written number line = (s.runLine written number line).only keep := by
  unfold Session.runLine
  simp only [h.run, h.note]
  cases hfailure : (s.run written (line.dropTrailing endsLine)).failure with
  | none => simp only [Performance.only, hfailure]
  | some f =>
    have herr : [Effect.err (f.message ++ utf8 "\n")].filter keep = [.err (f.message ++ utf8 "\n")] := by simp [h.err]
    simp only [Performance.only, hfailure, List.filter_append, herr]

theorem runLast (h : Mirrors keep s q) (written number : Nat) (line : Bytes) (readError : Option Bytes) :
    q.runLast written number line readError = (s.runLast written number line readError).only keep := by
  unfold Session.runLast
  cases readError with
  | some text => rfl
  | none =>
    by_cases hblank : Text.allBlank (line.dropTrailing endsLine) = true
    · simp only [if_pos hblank]
      rfl
    · simp only [if_neg hblank, h.runLine]

theorem promptLines (h : Mirrors keep s q) (last : Bytes) (readError : Option Bytes) (written number : Nat)
    (lines : List Bytes) :
    q.promptLines last readError written number lines = (s.promptLines last readError written number lines).only keep := by
  induction lines generalizing written number with
  | nil =>
    unfold Session.promptLines
    rw [h.write?]
    cases s.write? written promptText with
    | none => rfl
    | some written =>
      have hout : [Effect.out promptText].filter keep = [.out promptText] := by simp [h.out]
      simp only [h.runLast, Performance.only_after, hout]
  | cons line lines ih =>
    unfold Session.promptLines
    rw [h.write?]
    cases s.write? written promptText with
    | none => rfl
    | some written =>
      simp only [h.runLine, ih, Performance.only_after, List.filter_cons, h.out, if_true]
      rfl

/-- **A dialogue is mirrored as its lines are.** -/
theorem prompt (h : Mirrors keep s q) (input : Bytes) (readError : Option Bytes) :
    q.prompt input readError = (s.prompt input readError).only keep :=
  h.promptLines _ readError 0 1 _

end Mirrors

/-! ## Levels -/

/-- The sessions have the same settings, the level apart. -/
structure SameButLevel (s s' : Session) : Prop where
  mode : s.mode = s'.mode
  format : s.format = s'.format
  limit : s.limit = s'.limit

variable {s s' q : Session} {files : Files} {step : Step}

theorem note_of_not_writesDebug (h : s.level.writesDebug = false) (entries : List Log.Entry) : s.note entries = [] := by
  simp [note, h]

/-- A session that notes nothing mirrors the writes of every session with the same settings. -/
theorem SameButLevel.mirrors (h : SameButLevel s q) (hlevel : q.level.writesDebug = false) :
    Mirrors Effect.isWrite s q where
  report src := by rw [h.mode, h.format]
  limit := h.limit.symm
  note entries := (note_of_not_writesDebug hlevel entries).trans (writes_note s entries).symm
  out _ := rfl
  err _ := rfl

theorem perform_unknownName {name : Bytes} (h : Log.Level.ofName? name = none) :
    s.perform files (.nameLevel name) = (s, silent (some (.plain (Log.Level.unknownName name)))) := by
  simp only [perform, h]

theorem perform_knownName {name : Bytes} {level : Log.Level} (h : Log.Level.ofName? name = some level) :
    s.perform files (.nameLevel name) = ({ s with level }, silent none) := by
  simp only [perform, h]

/-- **A step does the same at every level**, notes apart. -/
theorem perform_agrees (h : SameButLevel s s') (files : Files) (step : Step) :
    SameButLevel (s.perform files step).1 (s'.perform files step).1 ∧
      (s.perform files step).2.only Effect.isWrite = (s'.perform files step).2.only Effect.isWrite := by
  -- both are mirrored by the session at the lowest level
  let q : Session := { s with level := ⟨0⟩ }
  have hs : Mirrors Effect.isWrite s q := SameButLevel.mirrors ⟨rfl, rfl, rfl⟩ rfl
  have hs' : Mirrors Effect.isWrite s' q := SameButLevel.mirrors ⟨h.mode.symm, h.format.symm, h.limit.symm⟩ rfl
  cases step with
  | setMode mode => exact ⟨⟨rfl, h.format, h.limit⟩, rfl⟩
  | setFormat format => exact ⟨⟨h.mode, rfl, h.limit⟩, rfl⟩
  | setLimit limit => exact ⟨⟨h.mode, h.format, rfl⟩, rfl⟩
  | setLevel level => exact ⟨⟨h.mode, h.format, h.limit⟩, rfl⟩
  | nameLevel name =>
    cases hname : Log.Level.ofName? name with
    | none =>
      rw [perform_unknownName hname, perform_unknownName hname]
      exact ⟨h, rfl⟩
    | some level =>
      rw [perform_knownName hname, perform_knownName hname]
      exact ⟨⟨h.mode, h.format, h.limit⟩, rfl⟩
  | run src => exact ⟨h, (hs.run 0 src).symm.trans (hs'.run 0 src)⟩
  | file path => exact ⟨h, (hs.runFile files path).symm.trans (hs'.runFile files path)⟩
  | prompt input readError => exact ⟨h, (hs.prompt input readError).symm.trans (hs'.prompt input readError)⟩

/-- Below the level of the debug log, a step has no effects but its writes. -/
theorem perform_of_not_writesDebug (h : (s.perform files step).1.level.writesDebug = false) :
    (s.perform files step).2.only Effect.isWrite = (s.perform files step).2 := by
  have hself : s.level.writesDebug = false → Mirrors Effect.isWrite s s := SameButLevel.mirrors ⟨rfl, rfl, rfl⟩
  cases step with
  | run src => exact ((hself h).run 0 src).symm
  | file path => exact ((hself h).runFile files path).symm
  | prompt input readError => exact ((hself h).prompt input readError).symm
  | nameLevel name =>
    cases hname : Log.Level.ofName? name with
    | none =>
      rw [perform_unknownName hname]
      rfl
    | some level =>
      rw [perform_knownName hname]
      rfl
  | _ => rfl

/-! ## Sequences of steps -/

theorem performAll_agrees (h : SameButLevel s s') (files : Files) (steps : List Step) :
    List.Forall₂ (fun r r' => r.2.only Effect.isWrite = r'.2.only Effect.isWrite) (performAll files s steps)
      (performAll files s' steps) := by
  induction steps generalizing s s' with
  | nil => exact .nil
  | cons step steps ih =>
    obtain ⟨hnext, hperformance⟩ := perform_agrees h files step
    exact .cons hperformance (ih hnext)

theorem logged_of_only {p : Performance} (h : p.only Effect.isWrite = p) (time : Bytes) :
    Effect.logged time p.effects = [] := by
  rw [← h]
  refine List.flatMap_eq_nil_iff.2 fun e he => ?_
  cases e with
  | log entry => exact absurd (List.mem_filter.1 he).2 Bool.false_ne_true
  | _ => rfl

theorem exists_perform_of_mem {r : Session × Performance} {steps : List Step} (h : r ∈ performAll files s steps) :
    ∃ t step, r = perform files t step := by
  induction steps generalizing s with
  | nil => cases h
  | cons step steps ih =>
    rcases List.mem_cons.1 h with rfl | h
    · exact ⟨s, step, rfl⟩
    · exact ih h

end Session

/-- Whether a step sets the level. -/
def Step.setsLevel : Step → Bool
  | .setLevel _ | .nameLevel _ => true
  | _ => false

namespace Session

variable {s : Session} {files : Files}

theorem level_perform {step : Step} (h : step.setsLevel = false) : (s.perform files step).1.level = s.level := by
  cases step with
  | setLevel level => cases h
  | nameLevel name => cases h
  | _ => rfl

theorem level_of_mem_performAll {r : Session × Performance} {steps : List Step}
    (hsteps : ∀ step ∈ steps, step.setsLevel = false) (h : r ∈ performAll files s steps) : r.1.level = s.level := by
  induction steps generalizing s with
  | nil => cases h
  | cons step steps ih =>
    obtain ⟨hstep, hsteps⟩ := List.forall_mem_cons.1 hsteps
    rcases List.mem_cons.1 h with rfl | h
    · exact level_perform hstep
    · rw [ih hsteps h, level_perform hstep]

theorem same_of_only {p p' : Performance} (h : p.only Effect.isWrite = p'.only Effect.isWrite) :
    Effect.stdout p.effects = Effect.stdout p'.effects ∧ Effect.stderr p.effects = Effect.stderr p'.effects ∧
      p.failure = p'.failure := by
  have hwrites : Effect.writes p.effects = Effect.writes p'.effects := congrArg Performance.effects h
  have hfailure : (p.only Effect.isWrite).failure = (p'.only Effect.isWrite).failure := by rw [h]
  refine ⟨?_, ?_, hfailure⟩
  · rw [← Effect.stdout_writes, hwrites, Effect.stdout_writes]
  · rw [← Effect.stderr_writes, hwrites, Effect.stderr_writes]

/-- **The log does not influence what a session does.** Under any two levels, the steps of a sequence write the same to
the standard output and to the standard error and end with the same failures; where the level is below that of the debug
log, nothing is logged, and it stays there as long as no step sets it. A name that is no name of a level leaves the level
as it was. -/
theorem performAll_levels (files : Files) (s : Session) (steps : List Step) (l l' : Log.Level) :
    let runs := performAll files { s with level := l } steps
    let runs' := performAll files { s with level := l' } steps
    List.Forall₂ (fun r r' => Effect.stdout r.2.effects = Effect.stdout r'.2.effects ∧
        Effect.stderr r.2.effects = Effect.stderr r'.2.effects ∧ r.2.failure = r'.2.failure) runs runs' ∧
      (∀ r ∈ runs, r.1.level.rank < Log.Level.debug.rank → ∀ time, Effect.logged time r.2.effects = []) ∧
      ((∀ step ∈ steps, step.setsLevel = false) → ∀ r ∈ runs, r.1.level = l) ∧
      ∀ (t : Session) name f, (t.perform files (.nameLevel name)).2.failure = some f →
        (t.perform files (.nameLevel name)).1.level = t.level := by
  intro runs runs'
  refine ⟨?_, fun r hr hlevel => ?_, fun hsteps r hr => level_of_mem_performAll hsteps hr, fun t name f hf => ?_⟩
  · have hsame : SameButLevel { s with level := l } { s with level := l' } := ⟨rfl, rfl, rfl⟩
    exact (performAll_agrees hsame files steps).imp fun _ _ h => same_of_only h
  · obtain ⟨t, step, rfl⟩ := exists_perform_of_mem hr
    have hsilent : (t.perform files step).1.level.writesDebug = false := by simpa [Log.Level.writesDebug] using hlevel
    exact logged_of_only (perform_of_not_writesDebug hsilent)
  · cases hname : Log.Level.ofName? name with
    | none => rw [perform_unknownName hname]
    | some level =>
      rw [perform_knownName hname] at hf
      cases hf

end Session

end ExprLang
