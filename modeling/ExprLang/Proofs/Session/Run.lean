import ExprLang.Proofs.Text.Blocks
import ExprLang.Session.Basic

/-!
# Runs of a source

A run goes through the stages of its mode and writes its texts at the end, so that a stage that fails leaves nothing
behind. Only a write that is refused can cut the output short.

* `Mode.stages`, `Stage.Fails` — how far a mode goes, and how a stage fails;
* `Report.fails_or_succeeds` — a report is the failure of a stage of its mode, or what the last of them has found;
* `Session.Allows` — how much output is within the limit of a session;
* `Session.writeAll_of_allows`, `Session.writeAll_of_not_allows` — texts are written up to the first that is too long;
* `Session.run_of_allows` — within the limit a run does what it does without one;
* `Session.run_stages` — what a run returns and writes, in every mode and under every limit.
-/

namespace ExprLang

/-! ## Stages -/

/-- The stages of a run, in their order. -/
inductive Stage where
  | scan
  | parse
  | evaluate
  deriving DecidableEq, Repr

/-- The stages that a run in the given mode goes through. -/
def Mode.stages : Mode → List Stage
  | .tokens => [.scan]
  | .tree => [.scan, .parse]
  | .evaluate => [.scan, .parse, .evaluate]

/-- The stage is reached on the source and fails there. -/
inductive Stage.Fails (src : Bytes) : Stage → Failure → Prop where
  | scan {e : LexError} (scanned : Token.scan src = .error e) : Fails src .scan (.ofLex e)
  | parse {ts : List Token} {e : ParseError} (scanned : Token.scan src = .ok ts) (parsed : Tree.parse ts = .error e) :
      Fails src .parse (.ofParse e)
  | evaluate {ts : List Token} {x : Tree} {fault : Fault} (scanned : Token.scan src = .ok ts)
      (parsed : Tree.parse ts = .ok x) (evaluated : x.evaluate = .error fault) : Fails src .evaluate (.ofFault fault)

namespace Source

variable {src : Bytes} {ts : List Token}

theorem tokens_of_error {e : LexError} (h : Token.scan src = .error e) : tokens src = .error (.ofLex e) := by
  rw [tokens, h]
  rfl

theorem tokens_of_ok (h : Token.scan src = .ok ts) : tokens src = .ok ts := by
  rw [tokens, h]
  rfl

theorem treeOfTokens_of_error {e : ParseError} (h : Tree.parse ts = .error e) : treeOfTokens ts = .error (.ofParse e) := by
  rw [treeOfTokens, h]
  rfl

theorem treeOfTokens_of_ok {x : Tree} (h : Tree.parse ts = .ok x) : treeOfTokens ts = .ok x := by
  rw [treeOfTokens, h]
  rfl

theorem tree_eq_ok_iff {x : Tree} : tree src = .ok x ↔ ∃ ts, Token.scan src = .ok ts ∧ Tree.parse ts = .ok x := by
  unfold tree
  cases hscan : Token.scan src with
  | error e => simp [tokens_of_error hscan, bind, Except.bind]
  | ok ts =>
    cases hparse : Tree.parse ts with
    | error e => simp [tokens_of_ok hscan, treeOfTokens_of_error hparse, hparse, bind, Except.bind]
    | ok y => simp [tokens_of_ok hscan, treeOfTokens_of_ok hparse, hparse, bind, Except.bind]

end Source

namespace Report

/-- What the stages of the mode have found, when all of them succeed. -/
inductive Succeeds (format : TreeFormat) (src : Bytes) : Mode → Except Failure (List Bytes) → Prop where
  | tokens {ts : List Token} (scanned : Token.scan src = .ok ts) :
      Succeeds format src .tokens (.ok (Blocks.ofRows Token.tableBlock (Token.table ts)))
  | tree {ts : List Token} {x : Tree} (scanned : Token.scan src = .ok ts) (parsed : Tree.parse ts = .ok x) :
      Succeeds format src .tree (format.texts x)
  | evaluate {ts : List Token} {x : Tree} {v : Value} (scanned : Token.scan src = .ok ts)
      (parsed : Tree.parse ts = .ok x) (evaluated : x.evaluate = .ok v) : Succeeds format src .evaluate (.ok [v.shown])

variable {mode : Mode} {format : TreeFormat} {src : Bytes}

theorem of_scan_error {e : LexError} (h : Token.scan src = .error e) :
    (of mode format src).result = .error (.ofLex e) := by
  simp only [of, Source.tokens_of_error h]

theorem of_scan_ok {ts : List Token} (h : Token.scan src = .ok ts) (hmode : mode ≠ .tokens) :
    (of mode format src).result = (ofTokens mode format ts).result := by
  simp only [of, Source.tokens_of_ok h]
  cases mode with
  | tokens => exact absurd rfl hmode
  | _ => rfl

theorem of_tokens {ts : List Token} (h : Token.scan src = .ok ts) :
    (of .tokens format src).result = .ok (Blocks.ofRows Token.tableBlock (Token.table ts)) := by
  simp only [of, Source.tokens_of_ok h, after]

theorem ofTokens_parse_error {ts : List Token} {e : ParseError} (h : Tree.parse ts = .error e) :
    (ofTokens mode format ts).result = .error (.ofParse e) := by
  simp only [ofTokens, Source.treeOfTokens_of_error h]

theorem ofTokens_tree {ts : List Token} {x : Tree} (h : Tree.parse ts = .ok x) :
    (ofTokens .tree format ts).result = format.texts x := by
  simp only [ofTokens, Source.treeOfTokens_of_ok h, after]

theorem ofTokens_evaluate {ts : List Token} {x : Tree} (h : Tree.parse ts = .ok x) :
    (ofTokens .evaluate format ts).result =
      (x.evaluate.map fun v => [v.shown]).mapError Failure.ofFault := by
  simp only [ofTokens, Source.treeOfTokens_of_ok h, after, ofTree, Source.valueOfTree]
  cases x.evaluate <;> rfl

/-- The failure of a stage is reported in every mode that goes as far. -/
theorem result_of_fails {stage : Stage} {f : Failure} (h : stage.Fails src f) (hstage : stage ∈ mode.stages) :
    (of mode format src).result = .error f := by
  cases h with
  | scan scanned => exact of_scan_error scanned
  | parse scanned parsed =>
    have hmode : mode ≠ .tokens := by rintro rfl; simp [Mode.stages] at hstage
    rw [of_scan_ok scanned hmode, ofTokens_parse_error parsed]
  | evaluate scanned parsed evaluated =>
    obtain rfl : mode = .evaluate := by cases mode <;> simp [Mode.stages] at hstage ⊢
    rw [of_scan_ok scanned (by decide), ofTokens_evaluate parsed, evaluated]
    rfl

/-- **A stage of the mode fails, or all of them succeed.** -/
theorem fails_or_succeeds (mode : Mode) (format : TreeFormat) (src : Bytes) :
    (∃ stage ∈ mode.stages, ∃ f, stage.Fails src f) ∨ Succeeds format src mode (of mode format src).result := by
  cases hscan : Token.scan src with
  | error e => exact .inl ⟨.scan, by cases mode <;> simp [Mode.stages], _, .scan hscan⟩
  | ok ts =>
    by_cases hmode : mode = .tokens
    · subst hmode
      rw [of_tokens hscan]
      exact .inr (.tokens hscan)
    cases hparse : Tree.parse ts with
    | error e => exact .inl ⟨.parse, by cases mode <;> simp_all [Mode.stages], _, .parse hscan hparse⟩
    | ok x =>
      rw [of_scan_ok hscan hmode]
      cases mode with
      | tokens => exact absurd rfl hmode
      | tree =>
        rw [ofTokens_tree hparse]
        exact .inr (.tree hscan hparse)
      | evaluate =>
        rw [ofTokens_evaluate hparse]
        cases hvalue : x.evaluate with
        | error fault => exact .inl ⟨.evaluate, by simp [Mode.stages], _, .evaluate hscan hparse hvalue⟩
        | ok v => exact .inr (.evaluate hscan hparse hvalue)

/-- A document is asked for, and the tree of the source is too deep for one. -/
structure TooDeep (mode : Mode) (format : TreeFormat) (src : Bytes) : Prop where
  asTree : mode = .tree
  asJson : format = .json
  deep : ∃ x, Source.tree src = .ok x ∧ 10000 < x.depth

theorem TooDeep.result_eq (h : TooDeep mode format src) :
    (of mode format src).result = .error (.ofDocument .tooDeep) := by
  obtain ⟨rfl, rfl, x, hx, hdeep⟩ := h
  obtain ⟨ts, scanned, parsed⟩ := Source.tree_eq_ok_iff.1 hx
  rw [of_scan_ok scanned (by decide), ofTokens_tree parsed, TreeFormat.texts, Tree.document_of_too_deep hdeep]

/-- Where all stages succeed, only a document can still fail. -/
theorem Succeeds.tooDeep {f : Failure} (h : Succeeds format src mode (.error f)) : TooDeep mode format src := by
  generalize hresult : Except.error f = result at h
  cases h with
  | tokens => cases hresult
  | evaluate => cases hresult
  | @tree ts x scanned parsed =>
    cases format with
    | text => cases hresult
    | json =>
      refine ⟨rfl, rfl, x, Source.tree_eq_ok_iff.2 ⟨ts, scanned, parsed⟩, Nat.lt_of_not_le fun hdepth => ?_⟩
      rw [TreeFormat.texts, Tree.document_of_depth_le hdepth] at hresult
      cases hresult

end Report

/-- Evaluation mode reports what interpreting the tree shows. -/
theorem Report.of_interpret {format : TreeFormat} {src : Bytes} {x : Tree} (h : Source.tree src = .ok x) :
    (of .evaluate format src).result = (x.interpret.map fun text => [text]).mapError Failure.ofFault := by
  obtain ⟨ts, scanned, parsed⟩ := Source.tree_eq_ok_iff.1 h
  rw [of_scan_ok scanned (by decide), ofTokens_evaluate parsed, Tree.interpret]
  cases x.evaluate <;> rfl

/-! ## Writes -/

namespace Effect

/-- Whether the effect is a write to the standard output or to the standard error. -/
def isWrite : Effect → Bool
  | .log _ => false
  | _ => true

/-- The writes among the effects. -/
def writes (effects : List Effect) : List Effect := effects.filter isWrite

@[simp] theorem writes_append (a b : List Effect) : writes (a ++ b) = writes a ++ writes b := by simp [writes]

theorem writes_map_out (texts : List Bytes) : writes (texts.map .out) = texts.map .out := by
  refine List.filter_eq_self.2 fun e he => ?_
  obtain ⟨text, -, rfl⟩ := List.mem_map.1 he
  rfl

theorem writes_map_log (entries : List Log.Entry) : writes (entries.map .log) = [] := by
  refine List.filter_eq_nil_iff.2 fun e he => ?_
  obtain ⟨entry, -, rfl⟩ := List.mem_map.1 he
  exact Bool.false_ne_true

theorem stdout_writes (effects : List Effect) : stdout (writes effects) = stdout effects := by
  induction effects with
  | nil => rfl
  | cons e effects ih =>
    cases e with
    | out text => exact congrArg (text ++ ·) ih
    | err text => exact ih
    | log entry => exact ih

theorem stderr_writes (effects : List Effect) : stderr (writes effects) = stderr effects := by
  induction effects with
  | nil => rfl
  | cons e effects ih =>
    cases e with
    | out text => exact ih
    | err text => exact congrArg (text ++ ·) ih
    | log entry => exact ih

theorem stdout_map_out (texts : List Bytes) : stdout (texts.map .out) = texts.flatten := by
  induction texts with
  | nil => rfl
  | cons text texts ih => simp_all [stdout]

theorem stderr_map_out (texts : List Bytes) : stderr (texts.map .out) = [] := by
  simp [stderr, List.flatMap_map]

end Effect

namespace Session

/-- The session without its limit. -/
def unlimited (s : Session) : Session := { s with limit := none }

/-- A total of `n` bytes of output is within the limit. -/
def Allows (s : Session) (n : Nat) : Prop := ∀ limit ∈ s.limit, (n : Int) ≤ limit

variable {s : Session} {written : Nat} {src : Bytes} {texts : List Bytes}

theorem allows_unlimited (s : Session) (n : Nat) : s.unlimited.Allows n := by
  intro limit hlimit
  cases hlimit

theorem Allows.mono {m n : Nat} (h : s.Allows n) (hm : m ≤ n) : s.Allows m := by
  intro limit hlimit
  have := h limit hlimit
  omega

theorem write?_of_allows {text : Bytes} (h : s.Allows (written + text.length)) :
    s.write? written text = some (written + text.length) := by
  unfold write?
  cases hlimit : s.limit with
  | none => rfl
  | some limit => exact if_pos (h limit hlimit)

theorem write?_of_not_allows {text : Bytes} (h : ¬ s.Allows (written + text.length)) : s.write? written text = none := by
  unfold write?
  cases hlimit : s.limit with
  | none => exact absurd (fun limit hmem => by simp [hlimit] at hmem) h
  | some limit =>
    refine if_neg fun hle => h fun l hl => ?_
    obtain rfl : limit = l := by simpa [hlimit] using hl
    exact hle

theorem writeAll_of_allows (h : s.Allows (written + texts.flatten.length)) :
    s.writeAll written texts = { effects := texts.map .out, written := written + texts.flatten.length } := by
  induction texts generalizing written with
  | nil => rfl
  | cons text texts ih =>
    rw [List.flatten_cons, List.length_append] at h ⊢
    have hrest : s.writeAll (written + text.length) texts = _ := ih (h.mono (by omega))
    rw [writeAll, write?_of_allows (h.mono (by omega))]
    simp only [hrest, Performance.after, List.map_cons, List.singleton_append, Nat.add_assoc]

/-- Texts that are too long together are written up to the first one that passes the limit. -/
theorem writeAll_of_not_allows (hne : texts ≠ []) (h : ¬ s.Allows (written + texts.flatten.length)) :
    ∃ done text rest, texts = done ++ text :: rest ∧ s.writeAll written texts =
      { effects := done.map .out, written := written + done.flatten.length, failure := some writeRefused } := by
  induction texts generalizing written with
  | nil => exact absurd rfl hne
  | cons text texts ih =>
    by_cases hfirst : s.Allows (written + text.length)
    · have hne' : texts ≠ [] := by
        rintro rfl
        exact h (by simpa using hfirst)
      rw [List.flatten_cons, List.length_append, ← Nat.add_assoc] at h
      obtain ⟨done, refused, rest, rfl, hwrite⟩ := ih hne' h
      refine ⟨text :: done, refused, rest, rfl, ?_⟩
      rw [writeAll, write?_of_allows hfirst]
      simp [hwrite, Performance.after, Nat.add_assoc]
    · refine ⟨[], text, texts, rfl, ?_⟩
      rw [writeAll, write?_of_not_allows hfirst]
      rfl

theorem writes_writeAll (s : Session) (written : Nat) (texts : List Bytes) :
    ∃ done : List Bytes, (s.writeAll written texts).effects = done.map .out ∧
      (s.writeAll written texts).written = written + done.flatten.length := by
  by_cases h : s.Allows (written + texts.flatten.length)
  · rw [writeAll_of_allows h]
    exact ⟨texts, rfl, rfl⟩
  · by_cases hne : texts = []
    · subst hne
      exact ⟨[], rfl, rfl⟩
    · obtain ⟨done, -, -, -, hwrite⟩ := writeAll_of_not_allows hne h
      rw [hwrite]
      exact ⟨done, rfl, rfl⟩

/-! ## Runs -/

theorem writes_note (s : Session) (entries : List Log.Entry) : Effect.writes (s.note entries) = [] := by
  unfold note
  split
  · exact Effect.writes_map_log entries
  · rfl

theorem run_of_error {f : Failure} (written : Nat) (h : (Report.of s.mode s.format src).result = .error f) :
    (s.run written src).failure = some f ∧ (s.run written src).written = written ∧
      Effect.writes (s.run written src).effects = [] := by
  simp only [run, h, writes_note, and_self]

theorem run_of_ok (written : Nat) (h : (Report.of s.mode s.format src).result = .ok texts) :
    (s.run written src).failure = (s.writeAll written texts).failure ∧
      (s.run written src).written = (s.writeAll written texts).written ∧
      Effect.writes (s.run written src).effects = (s.writeAll written texts).effects := by
  obtain ⟨done, heffects, -⟩ := writes_writeAll s written texts
  simp only [run, h, Performance.after, Effect.writes_append, writes_note, heffects, Effect.writes_map_out,
    List.nil_append, and_self]

theorem run_of_fails {stage : Stage} {f : Failure} (h : stage.Fails src f) (hstage : stage ∈ s.mode.stages) :
    (s.run written src).failure = some f ∧ Effect.writes (s.run written src).effects = [] := by
  obtain ⟨hfailure, -, hwrites⟩ := run_of_error written (Report.result_of_fails h hstage)
  exact ⟨hfailure, hwrites⟩

/-- The bytes that are counted are those of the standard output, and nothing goes to the standard error. -/
theorem written_run (s : Session) (written : Nat) (src : Bytes) :
    (s.run written src).written = written + (Effect.stdout (s.run written src).effects).length ∧
      Effect.stderr (s.run written src).effects = [] := by
  rw [← Effect.stdout_writes, ← Effect.stderr_writes]
  cases h : (Report.of s.mode s.format src).result with
  | error f =>
    obtain ⟨-, hwritten, hwrites⟩ := run_of_error written h
    rw [hwritten, hwrites]
    exact ⟨rfl, rfl⟩
  | ok texts =>
    obtain ⟨done, heffects, hdone⟩ := writes_writeAll s written texts
    obtain ⟨-, hwritten, hwrites⟩ := run_of_ok written h
    rw [hwritten, hwrites, heffects, hdone, Effect.stdout_map_out, Effect.stderr_map_out]
    exact ⟨rfl, rfl⟩

/-- Without a limit, all texts of a report are written. -/
theorem run_unlimited (h : (Report.of s.mode s.format src).result = .ok texts) :
    (s.unlimited.run 0 src).failure = none ∧ Effect.writes (s.unlimited.run 0 src).effects = texts.map .out := by
  have hunlimited : (Report.of s.unlimited.mode s.unlimited.format src).result = .ok texts := h
  obtain ⟨hfailure, -, hwrites⟩ := run_of_ok 0 hunlimited
  rw [writeAll_of_allows (allows_unlimited s _)] at hfailure hwrites
  exact ⟨hfailure, hwrites⟩

theorem run_unlimited_of_error {f : Failure} (h : (Report.of s.mode s.format src).result = .error f) :
    (s.unlimited.run 0 src).failure = some f ∧ Effect.writes (s.unlimited.run 0 src).effects = [] := by
  have hunlimited : (Report.of s.unlimited.mode s.unlimited.format src).result = .error f := h
  obtain ⟨hfailure, -, hwrites⟩ := run_of_error 0 hunlimited
  exact ⟨hfailure, hwrites⟩

theorem stdout_run_unlimited (h : (Report.of s.mode s.format src).result = .ok texts) :
    Effect.stdout (s.unlimited.run 0 src).effects = texts.flatten := by
  rw [← Effect.stdout_writes, (run_unlimited h).2, Effect.stdout_map_out]

/-- **Within the limit a run does what it does without one**, whatever has been written before. -/
theorem run_of_allows (h : s.Allows (written + (Effect.stdout (s.unlimited.run 0 src).effects).length)) :
    (s.run written src).failure = (s.unlimited.run 0 src).failure ∧
      Effect.writes (s.run written src).effects = Effect.writes (s.unlimited.run 0 src).effects := by
  cases hresult : (Report.of s.mode s.format src).result with
  | error f =>
    obtain ⟨hfailure, -, hwrites⟩ := run_of_error written hresult
    obtain ⟨hfailure', hwrites'⟩ := run_unlimited_of_error hresult
    exact ⟨hfailure.trans hfailure'.symm, hwrites.trans hwrites'.symm⟩
  | ok texts =>
    rw [stdout_run_unlimited hresult] at h
    obtain ⟨hfailure, -, hwrites⟩ := run_of_ok written hresult
    obtain ⟨hfailure', hwrites'⟩ := run_unlimited hresult
    rw [writeAll_of_allows h] at hfailure hwrites
    exact ⟨hfailure.trans hfailure'.symm, hwrites.trans hwrites'.symm⟩

/-- Past the limit, the texts of a report are written up to the one that is refused. -/
theorem run_refused (hresult : (Report.of s.mode s.format src).result = .ok texts) (hne : texts ≠ [])
    (h : ¬ s.Allows (written + texts.flatten.length)) :
    ∃ done text rest, texts = done ++ text :: rest ∧ (s.run written src).failure = some writeRefused ∧
      Effect.writes (s.run written src).effects = done.map .out := by
  obtain ⟨done, text, rest, htexts, hwrite⟩ := writeAll_of_not_allows hne h
  obtain ⟨hfailure, -, hwrites⟩ := run_of_ok written hresult
  rw [hwrite] at hfailure hwrites
  exact ⟨done, text, rest, htexts, hfailure, hwrites⟩

theorem run_refused_singleton {text : Bytes} (hresult : (Report.of s.mode s.format src).result = .ok [text])
    (h : ¬ s.Allows (written + (Effect.stdout (s.unlimited.run 0 src).effects).length)) :
    (s.run written src).failure = some writeRefused ∧ Effect.writes (s.run written src).effects = [] := by
  rw [stdout_run_unlimited hresult] at h
  obtain ⟨done, refused, rest, htexts, hfailure, hwrites⟩ := run_refused hresult (List.cons_ne_nil _ _) h
  cases done with
  | nil => exact ⟨hfailure, hwrites⟩
  | cons => simp at htexts

theorem ofRows_table {ts : List Token} (h : (Token.table ts).flatten.length ≤ Token.tableBlock) :
    Blocks.ofRows Token.tableBlock (Token.table ts) = [(Token.table ts).flatten] := by
  refine Blocks.ofRows_eq_singleton h ?_
  simp only [Token.table, Token.row, List.flatten_cons, List.length_append]
  have : (utf8 "\n").length = 1 := by decide
  omega

/-- Past the limit a run is refused a write. What it has written before is at most the text form of a tree, as long as
the token table that it may have to write fits into one block. -/
theorem run_of_not_allows (hsuccess : (s.unlimited.run 0 src).failure = none)
    (h : ¬ s.Allows (written + (Effect.stdout (s.unlimited.run 0 src).effects).length))
    (hblock : s.mode = .tokens → (Effect.stdout (s.unlimited.run 0 src).effects).length ≤ Token.tableBlock) :
    (s.run written src).failure = some writeRefused ∧ (Effect.writes (s.run written src).effects = [] ∨
      s.mode = .tree ∧ s.format = .text ∧
        ∃ x, Source.tree src = .ok x ∧ Effect.writes (s.run written src).effects = [.out x.render]) := by
  rcases Report.fails_or_succeeds s.mode s.format src with ⟨stage, hstage, f, hfails⟩ | hsucceeds
  · have hunlimited : stage ∈ s.unlimited.mode.stages := hstage
    rw [(run_of_fails hfails hunlimited).1] at hsuccess
    cases hsuccess
  generalize hresult : (Report.of s.mode s.format src).result = result at hsucceeds
  generalize hmode : s.mode = mode at hsucceeds
  cases hsucceeds with
  | tokens =>
    have hlength := hblock hmode
    rw [stdout_run_unlimited hresult, Blocks.flatten_ofRows] at hlength
    rw [ofRows_table hlength] at hresult
    obtain ⟨hfailure, hwrites⟩ := run_refused_singleton hresult h
    exact ⟨hfailure, .inl hwrites⟩
  | evaluate =>
    obtain ⟨hfailure, hwrites⟩ := run_refused_singleton hresult h
    exact ⟨hfailure, .inl hwrites⟩
  | @tree ts x scanned parsed =>
    cases hformat : s.format with
    | text =>
      have htexts : (Report.of s.mode s.format src).result = .ok [x.render, utf8 "\n"] := by
        rw [hresult, hformat]
        rfl
      rw [stdout_run_unlimited htexts] at h
      obtain ⟨done, refused, rest, hsplit, hfailure, hwrites⟩ := run_refused htexts (List.cons_ne_nil _ _) h
      -- the tree and the line feed after it are two writes, so the first may have been done
      refine ⟨hfailure, ?_⟩
      match done with
      | [] => exact .inl hwrites
      | [text] =>
        obtain rfl : x.render = text := (List.cons.inj hsplit).1
        exact .inr ⟨rfl, rfl, x, Source.tree_eq_ok_iff.2 ⟨ts, scanned, parsed⟩, hwrites⟩
      | _ :: _ :: _ => simp at hsplit
    | json =>
      rw [hformat, TreeFormat.texts] at hresult
      cases hdocument : x.document with
      | ok document =>
        rw [hdocument] at hresult
        obtain ⟨hfailure, hwrites⟩ := run_refused_singleton (hformat ▸ hresult) h
        exact ⟨hfailure, .inl hwrites⟩
      | error fault =>
        -- a tree without a document makes the run fail, limit or not
        rw [hdocument] at hresult
        rw [(run_unlimited_of_error (hformat ▸ hresult)).1] at hsuccess
        cases hsuccess

/-- Without a limit a run fails where a stage fails, or because the tree is too deep for a document. -/
theorem failure_run_unlimited {f : Failure} (h : (s.unlimited.run 0 src).failure = some f) :
    (∃ stage ∈ s.mode.stages, stage.Fails src f) ∨ Report.TooDeep s.mode s.format src := by
  rcases Report.fails_or_succeeds s.mode s.format src with ⟨stage, hstage, g, hfails⟩ | hsucceeds
  · have hunlimited : stage ∈ s.unlimited.mode.stages := hstage
    rw [(run_of_fails hfails hunlimited).1] at h
    obtain rfl := Option.some.inj h
    exact .inl ⟨stage, hstage, hfails⟩
  · cases hresult : (Report.of s.mode s.format src).result with
    | ok texts =>
      rw [(run_unlimited hresult).1] at h
      cases h
    | error g =>
      rw [hresult] at hsucceeds
      exact .inr hsucceeds.tooDeep

/-- A run that fails without a limit fails so under every limit, and writes nothing. -/
theorem run_of_failure_unlimited {f : Failure} (h : (s.unlimited.run 0 src).failure = some f) :
    (s.run written src).failure = some f ∧ Effect.writes (s.run written src).effects = [] := by
  cases hresult : (Report.of s.mode s.format src).result with
  | ok texts =>
    rw [(run_unlimited hresult).1] at h
    cases h
  | error g =>
    rw [(run_unlimited_of_error hresult).1] at h
    obtain rfl := Option.some.inj h
    obtain ⟨hfailure, -, hwrites⟩ := run_of_error written hresult
    exact ⟨hfailure, hwrites⟩

section Evaluation

variable {x : Tree} {text : Bytes}

theorem result_of_interpret (hmode : s.mode = .evaluate) (hx : Source.tree src = .ok x)
    (htext : x.interpret = .ok text) : (Report.of s.mode s.format src).result = .ok [text] := by
  rw [hmode, Report.of_interpret hx, htext]
  rfl

theorem run_of_interpret (hmode : s.mode = .evaluate) (hx : Source.tree src = .ok x) (htext : x.interpret = .ok text)
    (h : s.Allows (written + text.length)) :
    (s.run written src).failure = none ∧ Effect.writes (s.run written src).effects = [.out text] := by
  obtain ⟨hfailure, -, hwrites⟩ := run_of_ok written (result_of_interpret hmode hx htext)
  rw [writeAll_of_allows (by simpa using h)] at hfailure hwrites
  exact ⟨hfailure, hwrites⟩

theorem run_of_interpret_error {fault : Fault} (hmode : s.mode = .evaluate) (hx : Source.tree src = .ok x)
    (hfault : x.interpret = .error fault) : (s.run written src).failure = some (.ofFault fault) := by
  refine (run_of_error _ ?_).1
  rw [hmode, Report.of_interpret hx, hfault]
  rfl

/-- An evaluation that succeeds has gone through all stages, and has written what it shows. -/
theorem interpret_of_run (hmode : s.mode = .evaluate) (h : (s.run written src).failure = none) :
    ∃ ts x text, Token.scan src = .ok ts ∧ Tree.parse ts = .ok x ∧ x.interpret = .ok text ∧
      Effect.writes (s.run written src).effects = [.out text] := by
  rcases Report.fails_or_succeeds s.mode s.format src with ⟨stage, hstage, f, hfails⟩ | hsucceeds
  · rw [(run_of_fails hfails hstage).1] at h
    cases h
  rw [hmode] at hsucceeds
  generalize (Report.of .evaluate s.format src).result = result at hsucceeds
  cases hsucceeds with
  | @evaluate ts x v scanned parsed evaluated =>
    have hx : Source.tree src = .ok x := Source.tree_eq_ok_iff.2 ⟨ts, scanned, parsed⟩
    have htext : x.interpret = .ok v.shown := by rw [Tree.interpret, evaluated]; rfl
    refine ⟨ts, x, v.shown, scanned, parsed, htext, ?_⟩
    by_cases hallows : s.Allows (written + v.shown.length)
    · exact (run_of_interpret hmode hx htext hallows).2
    · have hresult := result_of_interpret hmode hx htext
      obtain ⟨-, -, -, -, hrefused, -⟩ := run_refused hresult (List.cons_ne_nil _ _) (by simpa using hallows)
      rw [hrefused] at h
      cases h

end Evaluation

/-- **Runs fail as a whole, and further modes fail where nearer ones do.** A stage that fails decides the failure of every
run that goes as far, and such a run writes nothing. An evaluation that succeeds has gone through all stages, and has
written what interpreting the tree of the source shows; if that fails, the run fails with it. Within its limit a run does
what it does without one. Past it, a run that would succeed is refused a write and fails for that reason; at most the
text form of a tree has been written before, if the token table fits into one block. -/
theorem run_stages (s : Session) (written : Nat) (src : Bytes) :
    let p := s.run written src
    let whole := s.unlimited.run 0 src
    (∀ stage ∈ s.mode.stages, ∀ f, stage.Fails src f → ∀ (s' : Session) (written' : Nat),
        s.mode.stages <+: s'.mode.stages →
          (s'.run written' src).failure = some f ∧ Effect.writes (s'.run written' src).effects = []) ∧
      (s.mode = .evaluate → p.failure = none → ∃ ts x text, Token.scan src = .ok ts ∧ Tree.parse ts = .ok x ∧
        x.interpret = .ok text ∧ Effect.writes p.effects = [.out text]) ∧
      (s.mode = .evaluate → ∀ x, Source.tree src = .ok x →
        (∀ text, x.interpret = .ok text → s.Allows (written + text.length) →
          p.failure = none ∧ Effect.writes p.effects = [.out text]) ∧
        ∀ fault, x.interpret = .error fault → p.failure = some (.ofFault fault)) ∧
      (∀ f, whole.failure = some f → p.failure = some f ∧ Effect.writes p.effects = []) ∧
      (s.Allows (written + (Effect.stdout whole.effects).length) →
        p.failure = whole.failure ∧ Effect.writes p.effects = Effect.writes whole.effects) ∧
      (whole.failure = none → ¬ s.Allows (written + (Effect.stdout whole.effects).length) →
        (s.mode = .tokens → (Effect.stdout whole.effects).length ≤ Token.tableBlock) →
          p.failure = some writeRefused ∧ (Effect.writes p.effects = [] ∨ s.mode = .tree ∧ s.format = .text ∧
            ∃ x, Source.tree src = .ok x ∧ Effect.writes p.effects = [.out x.render])) := by
  intro p whole
  refine ⟨fun stage hstage f hfails s' written' hfurther => ?_, interpret_of_run, fun hmode x hx => ⟨?_, ?_⟩,
    fun f => run_of_failure_unlimited, run_of_allows, run_of_not_allows⟩
  · exact run_of_fails hfails (hfurther.subset hstage)
  · exact fun text htext hallows => run_of_interpret hmode hx htext hallows
  · exact fun fault hfault => run_of_interpret_error hmode hx hfault

end Session

end ExprLang
