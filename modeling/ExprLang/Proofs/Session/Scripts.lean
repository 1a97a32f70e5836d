import ExprLang.Proofs.Session.Dialogue
import ExprLang.Proofs.Session.LogLevels

/-!
# Scripts and dialogues without a limit

* `Session.mirrors_of_format` — the format of trees makes no difference where no tree is written;
* `Session.failure_runFile_of_fails`, `Stage.Fails.exitCode_eq` — how a script fails, and the exit status for it;
* `Session.stdout_runFile_of_failure` — a script that fails has written nothing;
* `Session.failure_prompt` — a dialogue goes on to the end of its input.
-/

namespace ExprLang

/-- The format of trees matters where trees are reported. -/
theorem Report.of_congr_format {mode : Mode} (h : mode ≠ .tree) (format format' : TreeFormat) (src : Bytes) :
    of mode format src = of mode format' src := by
  cases mode with
  | tree => exact absurd rfl h
  | tokens => rfl
  | evaluate => rfl

theorem Stage.Fails.exitCode_eq {stage : Stage} {src : Bytes} {f : Failure} (h : stage.Fails src f) :
    f.exitCode = if stage = .evaluate then 70 else 65 := by
  obtain ⟨d, hd⟩ := h.exists_diagnostic
  cases h with
  | scan => rfl
  | parse => rfl
  | @evaluate ts x fault =>
    cases fault with
    | missingOperand => cases hd
    | runtime e => rfl

namespace Session

variable {s : Session} {files : Files} {path src : Bytes} {f : Failure}

theorem unlimited_eq (h : s.limit = none) : s.unlimited = s := by
  obtain ⟨mode, format, level, limit⟩ := s
  obtain rfl : limit = none := h
  rfl

/-- Sessions that differ in what makes no difference do the same. -/
theorem mirrors_of_format {q : Session} (hmode : q.mode = s.mode) (hformat : s.mode = .tree → q.format = s.format)
    (hlevel : q.level = s.level) (hlimit : q.limit = s.limit) : Mirrors (fun _ => true) s q where
  report src := by
    by_cases htree : s.mode = .tree
    · rw [hmode, hformat htree]
    · rw [hmode, Report.of_congr_format htree]
  limit := hlimit
  note entries := by rw [List.filter_true, note, note, hlevel]
  out _ := rfl
  err _ := rfl

theorem failure_runFile_of_error {fault : FileFault} (h : files.read path = .error fault) :
    (s.runFile files path).failure = some (.unreadable path (.plain (fault.message path))) := by
  simp only [runFile, h]

theorem failure_runFile_of_fails {stage : Stage} (hread : files.read path = .ok src) (hstage : stage ∈ s.mode.stages)
    (h : stage.Fails src f) : (s.runFile files path).failure = some f := by
  simp only [runFile, hread, Performance.after]
  exact (run_of_fails h hstage).1

/-- Without a limit, a script that fails has written nothing to the standard output. -/
theorem stdout_runFile_of_failure (hlimit : s.limit = none) (h : (s.runFile files path).failure = some f) :
    Effect.stdout (s.runFile files path).effects = [] := by
  cases hread : files.read path with
  | error fault =>
    simp only [runFile, hread]
    rfl
  | ok src =>
    simp only [runFile, hread, Performance.after] at h ⊢
    rw [← unlimited_eq hlimit] at h
    have hwrites : Effect.writes (s.run 0 src).effects = [] := (run_of_failure_unlimited h).2
    rw [Effect.stdout_append, stdout_note, ← Effect.stdout_writes, hwrites]
    rfl

/-- Without a limit, a dialogue goes on to the end of its input. -/
theorem failure_prompt (hlimit : s.limit = none) (input : Bytes) (readError : Option Bytes) :
    (s.prompt input readError).failure = readError.map .plain := by
  have hprompts : ∀ t, s.Prompts t := by
    intro t
    rw [← unlimited_eq hlimit]
    exact allows_unlimited s _
  have hprompt : s.prompt input readError =
      s.promptLines (Bytes.lines input).2 readError ({} : Transcript).out.length 1 (Bytes.lines input).1 := rfl
  rw [hprompt]
  rcases promptLines_cases s _ readError _ {} 1 with ⟨done, rest, -, -, hrefused, -⟩ | ⟨-, -, hfailure, -⟩
  · exact absurd (hprompts _) hrefused
  · exact hfailure

end Session

end ExprLang
