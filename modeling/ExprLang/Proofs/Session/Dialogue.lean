import ExprLang.Proofs.Session.Lines
import ExprLang.Proofs.Text.Blank
import ExprLang.Proofs.Text.Lines
import ExprLang.Proofs.Tree.Description
import ExprLang.Proofs.Tree.SourceText

/-!
# Dialogues

A dialogue asks for lines and runs each of them by itself. Only a prompt that is refused breaks it off.

* `Session.ask`, `Session.askLast` — what is written for a line, and after the last prompt;
* `Session.promptLines_cases` — a dialogue goes on to the end of its input, or up to a prompt that is refused;
* `Session.foldl_ask_of_allows` — within the limit, a dialogue is the runs of its lines, one after the other;
* `Session.prompt_of_allows` — what it writes then;
* `Session.prompt_runs` — what a dialogue returns and writes, for every input and under every limit.
-/

namespace ExprLang

open Bytes (lineFeed)

/-! ## Line ends -/

namespace Bytes

theorem dropTrailing_concat {s : Bytes} {b : UInt8} {p : UInt8 → Bool} (h : p b = false) :
    (s ++ [b]).dropTrailing p = s ++ [b] := by
  simp [dropTrailing, h]

theorem notMem_dropTrailing {l : Bytes} {b : UInt8} (p : UInt8 → Bool) (h : b ∉ l) : b ∉ l.dropTrailing p := by
  intro hmem
  exact h (List.mem_reverse.1 ((List.dropWhile_sublist p).subset (List.mem_reverse.1 hmem)))

end Bytes

/-! ## Transcripts -/

/-- What is written to the standard error about the end of a run. -/
def Failure.reported : Option Failure → Bytes
  | none => []
  | some f => f.message ++ utf8 "\n"

/-- What a dialogue has written so far. -/
structure Transcript where
  out : Bytes := []
  err : Bytes := []
  deriving DecidableEq

namespace Transcript

/-- The transcript with one more prompt. -/
def prompted (t : Transcript) : Transcript := { t with out := t.out ++ Session.promptText }

/-- The transcript with what the effects write. -/
def add (t : Transcript) (effects : List Effect) : Transcript :=
  ⟨t.out ++ Effect.stdout effects, t.err ++ Effect.stderr effects⟩

theorem add_nil (t : Transcript) : t.add [] = t := by
  simp [add, Effect.stdout, Effect.stderr]

theorem add_append (t : Transcript) (a b : List Effect) : t.add (a ++ b) = (t.add a).add b := by
  simp [add]

theorem add_prompt (t : Transcript) : t.add [.out Session.promptText] = t.prompted := by
  simp [add, prompted, Effect.stdout, Effect.stderr]

end Transcript

namespace Session

open Failure (reported)

/-- The run of a line in a session of its own, without a limit. -/
def runAlone (s : Session) (line : Bytes) : Performance := s.unlimited.run 0 (line.dropTrailing endsLine)

/-- The transcript after a prompt and the run of the line that is read at it. A failure of the run is reported. -/
def ask (s : Session) (t : Transcript) (line : Bytes) : Transcript :=
  let p := s.run t.prompted.out.length (line.dropTrailing endsLine)
  ⟨t.prompted.out ++ Effect.stdout p.effects, t.prompted.err ++ reported p.failure⟩

/-- The transcript after the last prompt and the run of what follows the last line feed. That is not run if it is blank
or if reading it failed. -/
def askLast (s : Session) (t : Transcript) (last : Bytes) : Option Bytes → Transcript
  | some _ => t.prompted
  | none => if Text.IsBlank last then t.prompted else s.ask t last

/-- The prompt after the transcript is accepted. -/
def Prompts (s : Session) (t : Transcript) : Prop := s.Allows t.prompted.out.length

/-- The prompts for all lines are accepted. -/
def PromptsAll (s : Session) (t : Transcript) : List Bytes → Prop
  | [] => True
  | line :: rest => s.Prompts t ∧ s.PromptsAll (s.ask t line) rest

variable {s : Session} {t : Transcript}

/-! ## Steps of a dialogue -/

theorem write?_prompt (h : s.Prompts t) : s.write? t.out.length promptText = some t.prompted.out.length := by
  unfold Prompts at h
  rw [Transcript.prompted, List.length_append] at h ⊢
  exact write?_of_allows h

/-- A prompt that is refused ends the dialogue. -/
theorem promptLines_of_not_prompts {last : Bytes} {readError : Option Bytes} {number : Nat} {lines : List Bytes}
    (h : ¬ s.Prompts t) : s.promptLines last readError t.out.length number lines =
      { effects := [], written := t.out.length, failure := some writeRefused } := by
  have hwrite : s.write? t.out.length promptText = none := by
    unfold Prompts at h
    rw [Transcript.prompted, List.length_append] at h
    exact write?_of_not_allows h
  cases lines <;> rw [promptLines, hwrite]

theorem stdout_note (s : Session) (entries : List Log.Entry) : Effect.stdout (s.note entries) = [] := by
  rw [← Effect.stdout_writes, writes_note]
  rfl

theorem stderr_note (s : Session) (entries : List Log.Entry) : Effect.stderr (s.note entries) = [] := by
  rw [← Effect.stderr_writes, writes_note]
  rfl

/-- A line that is run adds to the transcript what its run writes, and a report of its failure. -/
theorem runLine_ask (s : Session) (t : Transcript) (number : Nat) (line : Bytes) :
    let p := s.runLine t.prompted.out.length number line
    t.prompted.add p.effects = s.ask t line ∧ p.written = (s.ask t line).out.length ∧ p.failure = none := by
  obtain ⟨hwritten, hstderr⟩ := written_run s t.prompted.out.length (line.dropTrailing endsLine)
  simp only [runLine, ask, Transcript.add]
  cases hfailure : (s.run t.prompted.out.length (line.dropTrailing endsLine)).failure with
  | none =>
    refine ⟨?_, ?_, hfailure⟩
    · rw [hstderr]
      rfl
    · rw [hwritten, List.length_append]
  | some f =>
    refine ⟨?_, ?_, rfl⟩
    · simp only [Effect.stdout_append, Effect.stderr_append, stdout_note, stderr_note, hstderr]
      simp [Effect.stdout, Effect.stderr, reported]
    · rw [hwritten, List.length_append]

theorem isBlank_of_endsLine (b : UInt8) (h : endsLine b = true) : b < 128 ∧ Text.isBlank (Char.ofNat b.toNat) := by
  rw [endsLine, Bool.or_eq_true, beq_iff_eq, beq_iff_eq] at h
  rcases h with rfl | rfl <;> decide

theorem runLast_askLast (s : Session) (t : Transcript) (number : Nat) (last : Bytes) (readError : Option Bytes) :
    let p := s.runLast t.prompted.out.length number last readError
    t.prompted.add p.effects = s.askLast t last readError ∧ p.failure = readError.map .plain := by
  cases readError with
  | some text => exact ⟨t.prompted.add_nil, rfl⟩
  | none =>
    have hblank : Text.allBlank (last.dropTrailing endsLine) = true ↔ Text.IsBlank last :=
      Text.allBlank_iff.trans (Text.isBlank_dropTrailing isBlank_of_endsLine last)
    by_cases h : Text.IsBlank last
    · simp only [runLast, askLast, if_pos h, if_pos (hblank.2 h)]
      exact ⟨t.prompted.add_nil, rfl⟩
    · obtain ⟨hadd, -, hfailure⟩ := runLine_ask s t number last
      simp only [runLast, askLast, if_neg h, if_neg (hblank.not.2 h)]
      exact ⟨hadd, hfailure⟩

/-- **A dialogue goes on to the end of its input, or up to a prompt that is refused.** -/
theorem promptLines_cases (s : Session) (last : Bytes) (readError : Option Bytes) (lines : List Bytes) (t : Transcript)
    (number : Nat) :
    let p := s.promptLines last readError t.out.length number lines
    (∃ done rest, lines = done ++ rest ∧ s.PromptsAll t done ∧ ¬ s.Prompts (done.foldl s.ask t) ∧
        p.failure = some writeRefused ∧ t.add p.effects = done.foldl s.ask t) ∨
      s.PromptsAll t lines ∧ s.Prompts (lines.foldl s.ask t) ∧ p.failure = readError.map .plain ∧
        t.add p.effects = s.askLast (lines.foldl s.ask t) last readError := by
  -- what has been written before is the length of the output of the transcript
  induction lines generalizing t number with
  | nil =>
    by_cases h : s.Prompts t
    · obtain ⟨hadd, hfailure⟩ := runLast_askLast s t number last readError
      simp only [promptLines, write?_prompt h, Performance.after, Transcript.add_append, Transcript.add_prompt]
      exact .inr ⟨trivial, h, hfailure, hadd⟩
    · rw [promptLines_of_not_prompts h]
      exact .inl ⟨[], [], rfl, trivial, h, rfl, t.add_nil⟩
  | cons line lines ih =>
    by_cases h : s.Prompts t
    · obtain ⟨hadd, hwritten, -⟩ := runLine_ask s t number line
      simp only [promptLines, write?_prompt h, Performance.after, hwritten]
      -- the rest of the dialogue starts from the transcript of this line
      have hstep : ∀ effects, t.add (.out promptText :: (s.runLine t.prompted.out.length number line).effects ++ effects) =
          (s.ask t line).add effects := by
        intro effects
        rw [← List.singleton_append, Transcript.add_append, Transcript.add_append, Transcript.add_prompt, hadd]
      rw [hstep]
      rcases ih (s.ask t line) (number + 1) with ⟨done, rest, rfl, hdone, hnext, hfailure, heffects⟩ | hend
      · exact .inl ⟨line :: done, rest, rfl, ⟨h, hdone⟩, hnext, hfailure, heffects⟩
      · exact .inr ⟨⟨h, hend.1⟩, hend.2⟩
    · rw [promptLines_of_not_prompts h]
      exact .inl ⟨[], line :: lines, rfl, trivial, h, rfl, t.add_nil⟩

theorem prompt_cases (s : Session) {lines : List Bytes} {last : Bytes} (hlines : ∀ l ∈ lines, lineFeed ∉ l)
    (hlast : lineFeed ∉ last) (readError : Option Bytes) :
    let p := s.prompt (lines.flatMap (· ++ [lineFeed]) ++ last) readError
    (∃ done rest, lines = done ++ rest ∧ s.PromptsAll {} done ∧ ¬ s.Prompts (done.foldl s.ask {}) ∧
        p.failure = some writeRefused ∧ Transcript.add {} p.effects = done.foldl s.ask {}) ∨
      s.PromptsAll {} lines ∧ s.Prompts (lines.foldl s.ask {}) ∧ p.failure = readError.map .plain ∧
        Transcript.add {} p.effects = s.askLast (lines.foldl s.ask {}) last readError := by
  intro p
  have hp : p = s.promptLines last readError ({} : Transcript).out.length 1 lines := by
    simp only [p, prompt, Bytes.lines_join hlines hlast]
    rfl
  rw [hp]
  exact promptLines_cases s last readError lines {} 1

/-! ## Lines by themselves -/

/-- Within the limit, a line adds what its run by itself writes and reports. -/
theorem ask_of_allows {line : Bytes}
    (h : s.Allows (t.prompted.out ++ Effect.stdout (s.runAlone line).effects).length) :
    s.ask t line =
      ⟨t.prompted.out ++ Effect.stdout (s.runAlone line).effects, t.err ++ reported (s.runAlone line).failure⟩ := by
  rw [List.length_append] at h
  obtain ⟨hfailure, hwrites⟩ := run_of_allows h
  have hstdout := congrArg Effect.stdout hwrites
  rw [Effect.stdout_writes, Effect.stdout_writes] at hstdout
  simp only [ask, hfailure, hstdout]
  rfl

/-- Past the limit, a line adds a part of what its run by itself writes, and the report that a write was refused. -/
theorem ask_of_not_allows {line : Bytes} (hprompt : s.Prompts t)
    (h : ¬ s.Allows (t.prompted.out ++ Effect.stdout (s.runAlone line).effects).length) :
    (s.runAlone line).failure = none ∧ ∃ part, part <+: Effect.stdout (s.runAlone line).effects ∧
      s.ask t line = ⟨t.prompted.out ++ part, t.err ++ reported (some writeRefused)⟩ := by
  rw [List.length_append] at h
  cases hresult : (Report.of s.mode s.format (line.dropTrailing endsLine)).result with
  | error f =>
    -- such a run writes nothing, and the prompt was within the limit
    rw [← Effect.stdout_writes, runAlone, (run_unlimited_of_error hresult).2] at h
    exact absurd hprompt h
  | ok texts =>
    have hout : Effect.stdout (s.runAlone line).effects = texts.flatten := stdout_run_unlimited hresult
    rw [hout] at h ⊢
    -- the limit is passed by what comes after the prompt, so that is not empty
    have hne : texts ≠ [] := by
      rintro rfl
      exact h hprompt
    obtain ⟨done, text, rest, rfl, hfailure, hwrites⟩ := run_refused hresult hne h
    have hstdout := congrArg Effect.stdout hwrites
    rw [Effect.stdout_writes, Effect.stdout_map_out] at hstdout
    refine ⟨(run_unlimited hresult).1, done.flatten, ?_, ?_⟩
    · rw [List.flatten_append]
      exact List.prefix_append _ _
    · simp only [ask, hfailure, hstdout]
      rfl

theorem foldl_ask_of_allows (t : Transcript) (lines : List Bytes)
    (h : s.Allows (t.out ++ lines.flatMap fun l => promptText ++ Effect.stdout (s.runAlone l).effects).length) :
    lines.foldl s.ask t =
      ⟨t.out ++ lines.flatMap fun l => promptText ++ Effect.stdout (s.runAlone l).effects,
        t.err ++ lines.flatMap fun l => reported (s.runAlone l).failure⟩ := by
  induction lines generalizing t with
  | nil => simp
  | cons line lines ih =>
    rw [List.flatMap_cons, List.append_assoc, ← List.append_assoc t.out, ← List.append_assoc _ _ (List.flatMap _ _)] at h
    have hline : s.ask t line = _ := ask_of_allows (h.mono (by simp [Transcript.prompted]))
    rw [List.foldl_cons, hline, ih _ h]
    simp [Transcript.prompted]

/-- The failure of a line by itself shows a diagnostic on line one, unless the tree is too deep for a document. -/
theorem failure_runAlone {line : Bytes} {f : Failure} (hline : lineFeed ∉ line) (h : (s.runAlone line).failure = some f)
    (hdeep : ¬ Report.TooDeep s.mode s.format (line.dropTrailing endsLine)) :
    ∃ d, f.diagnostic? = some d ∧ f.message = d.render ∧ d.line = 1 := by
  obtain ⟨stage, -, hfails⟩ := (failure_run_unlimited h).resolve_right hdeep
  obtain ⟨d, hd⟩ := hfails.exists_diagnostic
  exact ⟨d, hd, Failure.message_of_diagnostic? hd, hfails.line_eq_one (Bytes.notMem_dropTrailing _ hline) d hd⟩

theorem runAlone_of_tooDeep {line : Bytes} (h : Report.TooDeep s.mode s.format (line.dropTrailing endsLine)) :
    (s.runAlone line).failure = some (.ofDocument .tooDeep) ∧ Effect.stdout (s.runAlone line).effects = [] := by
  obtain ⟨hfailure, hwrites⟩ := run_unlimited_of_error h.result_eq
  refine ⟨hfailure, ?_⟩
  rw [← Effect.stdout_writes, runAlone, hwrites]
  rfl

/-- The transcript of a dialogue in which nothing is refused: a prompt and the output of every line, one more prompt, and
the output of what follows the last line feed, unless that is blank or could not be read to its end. -/
def spoken (s : Session) (lines : List Bytes) (last : Bytes) (readError : Option Bytes) : Transcript where
  out := lines.flatMap (fun l => promptText ++ Effect.stdout (s.runAlone l).effects) ++ promptText ++
    if readError = none ∧ ¬ Text.IsBlank last then Effect.stdout (s.runAlone last).effects else []
  err := lines.flatMap (fun l => reported (s.runAlone l).failure) ++
    if readError = none ∧ ¬ Text.IsBlank last then reported (s.runAlone last).failure else []

variable {lines : List Bytes} {last : Bytes} {readError : Option Bytes}

theorem askLast_of_allows (h : s.Allows (s.spoken lines last readError).out.length) :
    s.askLast ⟨lines.flatMap fun l => promptText ++ Effect.stdout (s.runAlone l).effects,
        lines.flatMap fun l => reported (s.runAlone l).failure⟩ last readError =
      s.spoken lines last readError := by
  cases readError with
  | some text => simp [askLast, spoken, Transcript.prompted]
  | none =>
    unfold spoken at h ⊢
    by_cases hblank : Text.IsBlank last
    · simp [askLast, hblank, Transcript.prompted]
    · simp only [hblank, not_false_eq_true, and_self, if_true] at h ⊢
      rw [askLast, if_neg hblank]
      exact ask_of_allows h

/-- **Within the limit, a dialogue writes what its lines write by themselves.** -/
theorem prompt_of_allows (hlines : ∀ l ∈ lines, lineFeed ∉ l) (hlast : lineFeed ∉ last)
    (h : s.Allows (s.spoken lines last readError).out.length) :
    let p := s.prompt (lines.flatMap (· ++ [lineFeed]) ++ last) readError
    p.failure = readError.map .plain ∧ Effect.stdout p.effects = (s.spoken lines last readError).out ∧
      Effect.stderr p.effects = (s.spoken lines last readError).err := by
  intro p
  -- what is written up to any prompt, and the prompt itself, are a part of the whole, so none is refused
  have hfold : ∀ done rest, lines = done ++ rest → done.foldl s.ask {} =
      ⟨done.flatMap fun l => promptText ++ Effect.stdout (s.runAlone l).effects,
        done.flatMap fun l => reported (s.runAlone l).failure⟩ ∧ s.Prompts (done.foldl s.ask {}) := by
    rintro done rest rfl
    simp only [spoken, List.flatMap_append, List.length_append] at h
    have hdone := foldl_ask_of_allows {} done (h.mono (by simp only [List.length_append, List.length_nil]; omega))
    refine ⟨hdone, ?_⟩
    rw [hdone]
    exact h.mono (by simp only [Transcript.prompted, List.length_append, List.length_nil]; omega)
  rcases prompt_cases s hlines hlast readError with ⟨done, rest, hsplit, -, hrefused, -⟩ | ⟨-, -, hfailure, hadd⟩
  · exact absurd (hfold done rest hsplit).2 hrefused
  · rw [(hfold lines [] (List.append_nil _).symm).1, askLast_of_allows h] at hadd
    exact ⟨hfailure, congrArg Transcript.out hadd, congrArg Transcript.err hadd⟩

/-- **A dialogue is the runs of its lines, one after the other.** Within the limit it writes a prompt and the output of
every line, and reports the failures of the lines in order; what follows the last line feed is run unless it is blank or
could not be read to its end. Every line is run by itself, so its diagnostics are on line one; only where a document is
asked for and the tree is too deep for one, the failure says so and names no line. Past the limit the dialogue ends at
the first prompt that is refused, and nowhere else: of an output that is refused a part is written, and the failure is
reported. -/
theorem prompt_runs (s : Session) (lines : List Bytes) (last : Bytes) (hlines : ∀ l ∈ lines, lineFeed ∉ l)
    (hlast : lineFeed ∉ last) (readError : Option Bytes) :
    let p := s.prompt (lines.flatMap (· ++ [lineFeed]) ++ last) readError
    let out (l : Bytes) := Effect.stdout (s.runAlone l).effects
    let err (l : Bytes) := reported (s.runAlone l).failure
    let onLast (text : Bytes → Bytes) := if readError = none ∧ ¬ Text.IsBlank last then text last else []
    let whole := lines.flatMap (fun l => promptText ++ out l) ++ promptText ++ onLast out
    (s.Allows whole.length → p.failure = readError.map .plain ∧ Effect.stdout p.effects = whole ∧
        Effect.stderr p.effects = lines.flatMap err ++ onLast err) ∧
      (∀ l ∈ lines ++ [last], ∀ f, (s.runAlone l).failure = some f →
        (¬ Report.TooDeep s.mode s.format (l.dropTrailing endsLine) →
          ∃ d, f.diagnostic? = some d ∧ f.message = d.render ∧ d.line = 1) ∧
        (Report.TooDeep s.mode s.format (l.dropTrailing endsLine) →
          f = .ofDocument .tooDeep ∧ f.diagnostic? = none ∧ f.message = utf8 "exceeded max depth")) ∧
      ((∃ done rest, lines = done ++ rest ∧ s.PromptsAll {} done ∧ ¬ s.Prompts (done.foldl s.ask {}) ∧
          p.failure = some writeRefused ∧ Transcript.add {} p.effects = done.foldl s.ask {}) ∨
        s.PromptsAll {} lines ∧ s.Prompts (lines.foldl s.ask {}) ∧ p.failure = readError.map .plain ∧
          Transcript.add {} p.effects = s.askLast (lines.foldl s.ask {}) last readError) ∧
      ∀ t l, s.Prompts t →
        (s.Allows (t.prompted.out ++ out l).length → s.ask t l = ⟨t.prompted.out ++ out l, t.err ++ err l⟩) ∧
        (¬ s.Allows (t.prompted.out ++ out l).length → (s.runAlone l).failure = none ∧ ∃ part, part <+: out l ∧
          s.ask t l = ⟨t.prompted.out ++ part, t.err ++ reported (some writeRefused)⟩) := by
  intro p out err onLast whole
  refine ⟨prompt_of_allows hlines hlast, fun l hl f hf => ⟨?_, fun hdeep => ?_⟩,
    prompt_cases s hlines hlast readError, fun t l hprompt => ⟨ask_of_allows, ask_of_not_allows hprompt⟩⟩
  · refine failure_runAlone ?_ hf
    rcases List.mem_append.1 hl with hl | hl
    · exact hlines l hl
    · rwa [List.mem_singleton.1 hl]
  · rw [(runAlone_of_tooDeep hdeep).1] at hf
    cases hf
    exact ⟨rfl, rfl, rfl⟩

/-- A line with a carriage return at its end, one that fails, and one without a line feed. -/
theorem prompt_runs_two_lines :
    let p := ({} : Session).prompt (utf8 "!nil\r\n-nil\n\"a\"") none
    p.failure = none ∧ Effect.stdout p.effects = utf8 "> true\n> > a\n" ∧
      Effect.stderr p.effects = utf8 "[line 1] Error at '-': Operand must be a number; got nil.\n" := by
  obtain ⟨hfailure, hout, herr⟩ := (prompt_runs {} [utf8 "!nil\r", utf8 "-nil"] (utf8 "\"a\"") (by decide) (by decide)
    none).1 (allows_unlimited {} _)
  exact ⟨hfailure, hout.trans (by decide), herr.trans (by decide)⟩

theorem tooDeep_signs {n : Nat} (h : 10000 ≤ n) :
    Report.TooDeep .tree .json ((List.replicate n 45 ++ [49] : Bytes).dropTrailing endsLine) := by
  rw [Bytes.dropTrailing_concat (by decide)]
  refine ⟨rfl, rfl, _, Tree.tree_signs n, ?_⟩
  rw [Tree.depth_iterate_unary, Tree.depth]
  omega

/-- From ten thousand minus signs before a number on, a line is reported as too deep for a document, without a line. -/
theorem prompt_signs {n : Nat} (h : 10000 ≤ n) :
    let s : Session := { mode := .tree, format := .json }
    let line : Bytes := List.replicate n 45 ++ [49]
    let p := s.prompt (line ++ [lineFeed]) none
    p.failure = none ∧ Effect.stdout p.effects = utf8 "> > " ∧ Effect.stderr p.effects = utf8 "exceeded max depth\n" ∧
      ∃ f, (s.runAlone line).failure = some f ∧ f.diagnostic? = none := by
  intro s line p
  obtain ⟨hfailure, hstdout⟩ := runAlone_of_tooDeep (s := s) (tooDeep_signs h)
  have hspoken : s.spoken [line] [] none = ⟨utf8 "> > ", utf8 "exceeded max depth\n"⟩ := by
    have hblank : Text.IsBlank [] := by decide
    simp only [spoken, List.flatMap_singleton, line, hstdout, hfailure, hblank, not_true_eq_false, and_false, if_false]
    rfl
  have hline : lineFeed ∉ line :=
    List.not_mem_append (fun hmem => absurd (List.eq_of_mem_replicate hmem) (by decide)) (by decide)
  have hallows : s.Allows (s.spoken [line] [] none).out.length := allows_unlimited s _
  have hprompt := prompt_of_allows (List.forall_mem_singleton.2 hline) List.not_mem_nil hallows
  rw [List.flatMap_singleton, List.append_nil, hspoken] at hprompt
  exact ⟨hprompt.1, hprompt.2.1, hprompt.2.2, _, hfailure, rfl⟩

/-- A line of ten thousand minus signs and a number is reported as too deep for a document, without a line. -/
theorem prompt_minus_signs :
    let s : Session := { mode := .tree, format := .json }
    let line : Bytes := List.replicate 10000 45 ++ [49]
    let p := s.prompt (line ++ [lineFeed]) none
    p.failure = none ∧ Effect.stdout p.effects = utf8 "> > " ∧ Effect.stderr p.effects = utf8 "exceeded max depth\n" ∧
      ∃ f, (s.runAlone line).failure = some f ∧ f.diagnostic? = none :=
  prompt_signs (Nat.le_refl 10000)

end Session

end ExprLang
