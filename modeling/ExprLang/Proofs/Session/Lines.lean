import ExprLang.Proofs.Session.Run
import ExprLang.Proofs.Tree.Lines
import ExprLang.Proofs.Tree.WellFormed

/-!
# Lines in diagnostics

The line of a diagnostic is the only thing that depends on where the lexemes of a source stand.

* `Failure.diagnostic?` — the diagnostic that a failure shows;
* `Failure.SameButLine` — failures that differ in the line at most;
* `Session.run_relayout` — runs on a source and on another layout of it write the same, and fail alike;
* `Stage.Fails.exists_diagnostic` — a stage that fails shows a diagnostic;
* `Stage.Fails.line_eq_one` — on a source of one line, every diagnostic is on line one.
-/

namespace ExprLang

open Bytes (lineFeed)
open Lexical

/-! ## Failures -/

namespace Failure

/-- The diagnostic that a failure shows, if it is about a place in a source. -/
def diagnostic? : Failure → Option Diagnostic
  | .scan d => some d
  | .parse t message => some ⟨t.line, t.place, message⟩
  | .runtime t message => some ⟨t.line, t.place, message⟩
  | .plain _ | .unreadable .. | .remarked .. => none

/-- Failures of one type and one exit status whose diagnostics have the same place and the same message. Failures that
show no diagnostic are the same. -/
structure SameButLine (f g : Failure) : Prop where
  category : f.category? = g.category?
  exitCode : f.exitCode = g.exitCode
  place : f.diagnostic?.map (·.place) = g.diagnostic?.map (·.place)
  message : f.diagnostic?.map (·.message) = g.diagnostic?.map (·.message)
  other : f.diagnostic? = none → f = g

theorem SameButLine.refl (f : Failure) : f.SameButLine f := ⟨rfl, rfl, rfl, rfl, fun _ => rfl⟩

theorem sameButLine_ofParse {e e' : ParseError} (h : e.mapLine (fun _ => 0) = e'.mapLine fun _ => 0) :
    SameButLine (.ofParse e) (.ofParse e') := by
  have hplace : e.token.place = e'.token.place := congrArg (·.token.place) h
  have hmessage : e.cause.message = e'.cause.message := congrArg (·.cause.message) h
  exact ⟨rfl, rfl, congrArg some hplace, congrArg some hmessage, by simp [ofParse, diagnostic?]⟩

theorem sameButLine_ofFault {e e' : Fault} (h : e.mapLine (fun _ => 0) = e'.mapLine fun _ => 0) :
    SameButLine (.ofFault e) (.ofFault e') := by
  match e, e' with
  | .missingOperand, .missingOperand => exact .refl _
  | .missingOperand, .runtime _ => cases h
  | .runtime _, .missingOperand => cases h
  | .runtime e, .runtime e' =>
    have he : e.mapLine (fun _ => 0) = e'.mapLine fun _ => 0 := Fault.runtime.inj h
    have hplace : e.token.place = e'.token.place := congrArg (·.token.place) he
    have hmessage : e.message = e'.message := by
      rw [← RuntimeError.message_mapLine (fun _ => 0) e, he, RuntimeError.message_mapLine]
    exact ⟨rfl, rfl, congrArg some hplace, congrArg some hmessage, by simp [ofFault, diagnostic?]⟩

end Failure

/-! ## Another layout -/

namespace Tree

theorem parse_congr {ts ts' : List Token} (hne : ts ≠ []) (h : ts'.map Token.withoutLine = ts.map Token.withoutLine) :
    mapParsed (fun _ => 0) (parse ts') = mapParsed (fun _ => 0) (parse ts) := by
  have hne' : ts' ≠ [] := by
    rintro rfl
    exact hne (List.map_eq_nil_iff.1 h.symm)
  rw [← parse_mapLines _ hne, ← parse_mapLines _ hne']
  exact congrArg parse h

end Tree

namespace Report

variable {src src' : Bytes} {ts ts' : List Token} {mode : Mode} {format : TreeFormat}

/-- The text of a tree and of its value do not depend on lines, and what fails fails alike. -/
theorem results_alike (hscan : Token.scan src = .ok ts) (hscan' : Token.scan src' = .ok ts') (hne : ts ≠ [])
    (h : ts'.map Token.withoutLine = ts.map Token.withoutLine)
    (hmode : mode = .evaluate ∨ mode = .tree ∧ format = .text) :
    (∃ texts, (of mode format src).result = .ok texts ∧ (of mode format src').result = .ok texts) ∨
      ∃ f f', (of mode format src).result = .error f ∧ (of mode format src').result = .error f' ∧ f.SameButLine f' := by
  have hnot : mode ≠ .tokens := by
    rintro rfl
    simp at hmode
  rw [of_scan_ok hscan hnot, of_scan_ok hscan' hnot]
  have hparse := Tree.parse_congr hne h
  match hp : Tree.parse ts, hp' : Tree.parse ts' with
  | .error e, .error e' =>
    rw [hp, hp'] at hparse
    rw [ofTokens_parse_error hp, ofTokens_parse_error hp']
    exact .inr ⟨_, _, rfl, rfl, Failure.sameButLine_ofParse (Except.error.inj hparse).symm⟩
  | .error e, .ok x' => rw [hp, hp'] at hparse; cases hparse
  | .ok x, .error e' => rw [hp, hp'] at hparse; cases hparse
  | .ok x, .ok x' =>
    rw [hp, hp'] at hparse
    have hx : x'.withoutLines = x.withoutLines := Except.ok.inj hparse
    rcases hmode with rfl | ⟨rfl, rfl⟩
    · have heval : x'.evaluate.mapError (Fault.mapLine fun _ => 0) = x.evaluate.mapError (Fault.mapLine fun _ => 0) := by
        rw [← Tree.evaluate_mapLines, ← Tree.evaluate_mapLines]
        exact congrArg Tree.evaluate hx
      rw [ofTokens_evaluate hp, ofTokens_evaluate hp']
      match hv : x.evaluate, hv' : x'.evaluate with
      | .ok v, .ok v' =>
        rw [hv, hv'] at heval
        obtain rfl : v' = v := Except.ok.inj heval
        exact .inl ⟨[v'.shown], rfl, rfl⟩
      | .ok v, .error e' => rw [hv, hv'] at heval; cases heval
      | .error e, .ok v' => rw [hv, hv'] at heval; cases heval
      | .error e, .error e' =>
        rw [hv, hv'] at heval
        exact .inr ⟨_, _, rfl, rfl, Failure.sameButLine_ofFault (Except.error.inj heval).symm⟩
    · have hrender : x'.render = x.render := by
        rw [← Tree.render_mapLines (fun _ => 0) x', ← Tree.render_mapLines (fun _ => 0) x]
        exact congrArg Tree.render hx
      rw [ofTokens_tree hp, ofTokens_tree hp', TreeFormat.texts, TreeFormat.texts, hrender]
      exact .inl ⟨_, rfl, rfl⟩

end Report

namespace Session

/-- **Layout does not matter.** If the lexemes of a source are laid out anew, the tokens are the same up to their lines.
Evaluating the source, or showing its tree as text, has the same output, and fails alike if it fails. -/
theorem run_relayout {src src' : Bytes} {ts : List Token} (hscan : Token.scan src = .ok ts)
    (hlayout : Layout (ts.dropLast.map (·.lexeme)) src') :
    (∃ ts', Token.scan src' = .ok ts' ∧ ts'.map Token.withoutLine = ts.map Token.withoutLine) ∧
      ∀ (s : Session) (written : Nat), s.mode = .evaluate ∨ s.mode = .tree ∧ s.format = .text →
        Effect.stdout (s.run written src').effects = Effect.stdout (s.run written src).effects ∧
          Option.Rel Failure.SameButLine (s.run written src).failure (s.run written src').failure := by
  obtain ⟨ts', hscan', hmap⟩ := Token.scan_relayout hscan hlayout
  have hne := Token.ne_nil_of_scan hscan
  refine ⟨⟨ts', hscan', hmap⟩, fun s written hmode => ?_⟩
  rw [← Effect.stdout_writes, ← Effect.stdout_writes (s.run written src).effects]
  rcases Report.results_alike hscan hscan' hne hmap hmode with ⟨texts, h, h'⟩ | ⟨f, f', h, h', hsame⟩
  · obtain ⟨hfailure, -, hwrites⟩ := run_of_ok written h
    obtain ⟨hfailure', -, hwrites'⟩ := run_of_ok written h'
    rw [hfailure, hwrites, hfailure', hwrites']
    refine ⟨rfl, ?_⟩
    cases (s.writeAll written texts).failure with
    | none => exact .none
    | some f => exact .some (.refl f)
  · obtain ⟨hfailure, -, hwrites⟩ := run_of_error written h
    obtain ⟨hfailure', -, hwrites'⟩ := run_of_error written h'
    rw [hfailure, hwrites, hfailure', hwrites']
    exact ⟨rfl, .some hsame⟩

/-- Two comments and some line feeds move the complaint of a minus sign to the third line. -/
theorem run_relayout_comments :
    let p := ({} : Session).run 0 (utf8 "!nil==-\"a\"")
    let p' := ({} : Session).run 0 (utf8 "// c\n! nil\t==\n- // d\n\"a\"")
    (p.failure.bind Failure.diagnostic?).map (·.line) = some 1 ∧
      (p'.failure.bind Failure.diagnostic?).map (·.line) = some 3 ∧
      Effect.stdout p'.effects = Effect.stdout p.effects ∧ Option.Rel Failure.SameButLine p.failure p'.failure := by
  have hlexemes : ∃ ts, Token.scan (utf8 "!nil==-\"a\"") = .ok ts ∧
      ts.dropLast.map (·.lexeme) = [utf8 "!", utf8 "nil", utf8 "==", utf8 "-", utf8 "\"a\""] := ⟨_, rfl, by decide⟩
  obtain ⟨ts, hscan, hls⟩ := hlexemes
  have hlayout : Layout (ts.dropLast.map (·.lexeme)) (utf8 "// c\n! nil\t==\n- // d\n\"a\"") := by
    rw [hls]
    refine ⟨_, _, @Spacing.comment (utf8 " c") [] (by decide) .nil, ?_, rfl⟩
    refine @Spaced.cons _ (utf8 " ") _ _ (.blank (by decide) .nil) ⟨32, rfl, by decide⟩ ?_
    refine @Spaced.cons _ (utf8 "\t") _ _ (.blank (by decide) .nil) ⟨9, rfl, by decide⟩ ?_
    refine @Spaced.cons _ (utf8 "\n") _ _ (.blank (by decide) .nil) ⟨10, rfl, by decide⟩ ?_
    refine @Spaced.cons _ (utf8 " // d\n") _ _ (.blank (by decide) ?_) ⟨32, rfl, by decide⟩ .last
    exact @Spacing.comment (utf8 " d") [] (by decide) .nil
  exact ⟨by decide, by decide, (run_relayout hscan hlayout).2 {} 0 (.inl rfl)⟩

end Session

/-! ## Stages that fail -/

theorem Failure.message_of_diagnostic? {f : Failure} {d : Diagnostic} (h : f.diagnostic? = some d) :
    f.message = d.render := by
  cases f <;> cases h <;> rfl

theorem Tree.complete_of_parse {ts : List Token} {x : Tree} (h : parse ts = .ok x) : x.Complete := by
  unfold parse Parser.parse at h
  rcases hp : parseWith _ [] none _ with ⟨result, after⟩
  rw [hp] at h
  obtain rfl : result = .ok x := h
  obtain ⟨read, -, hx, -⟩ := parseWith_eq_ok_iff.1 hp
  exact hx.wellFormed.complete

theorem Stage.Fails.exists_diagnostic {stage : Stage} {src : Bytes} {f : Failure} (h : stage.Fails src f) :
    ∃ d, f.diagnostic? = some d := by
  cases h with
  | scan => exact ⟨_, rfl⟩
  | parse => exact ⟨_, rfl⟩
  | @evaluate ts x fault scanned parsed evaluated =>
    -- no operand is missing from a tree that was parsed
    have hagrees := x.evaluate_agrees (Tree.complete_of_parse parsed)
    rw [evaluated] at hagrees
    generalize x.typeOf _ = type at hagrees
    cases hagrees
    exact ⟨_, rfl⟩

/-! ## Sources of one line -/

theorem Lexical.Consumed.line_eq_one {pre p rest : Bytes} {ts : List Token} (h : Consumed pre p rest ts)
    (hlf : lineFeed ∉ pre ++ p) : ∀ t ∈ ts, t.line = 1 := by
  induction h with
  | gap => simp
  | @token pre g l p rest ts _ _ _ ih =>
    rw [← List.append_assoc g l p, ← List.append_assoc] at hlf
    have hline : endLine (pre ++ (g ++ l)) = 1 := endLine_eq_one fun hmem => hlf (List.mem_append_left p hmem)
    exact List.forall_mem_cons.2 ⟨congrArg Int.ofNat hline, ih hlf⟩

namespace Token

variable {src : Bytes} {ts : List Token}

theorem line_of_scan (h : scan src = .ok ts) (hsrc : lineFeed ∉ src) : ts.map (mapLine fun _ => 1) = ts := by
  obtain ⟨us, hus, rfl⟩ := consumed_of_scan h
  have hall : ∀ t ∈ us ++ [endOfSource (endLine src)], t.line = 1 := by
    refine List.forall_mem_append.2 ⟨hus.line_eq_one hsrc, List.forall_mem_singleton.2 ?_⟩
    exact congrArg Int.ofNat (endLine_eq_one hsrc)
  have hid : ∀ t : Token, t.line = 1 → t.mapLine (fun _ => 1) = t := by
    rintro ⟨kind, lexeme, line, number, text⟩ rfl
    rfl
  calc _ = (us ++ [endOfSource (endLine src)]).map id := List.map_congr_left fun t ht => hid t (hall t ht)
    _ = _ := List.map_id _

theorem line_of_scan_error {e : LexError} (h : scan src = .error e) (hsrc : lineFeed ∉ src) : e.line = 1 := by
  obtain ⟨p, rest, us, rfl, -, ⟨-, rfl⟩ | ⟨-, c, -, rfl⟩⟩ := consumed_of_scan_error h
  · exact endLine_eq_one hsrc
  · exact endLine_eq_one fun hmem => hsrc (List.mem_append_left _ hmem)

end Token

/-- **On a source of one line, every diagnostic is on line one.** The tokens are, and parsing and evaluation carry their
line along. -/
theorem Stage.Fails.line_eq_one {stage : Stage} {src : Bytes} {f : Failure} (h : stage.Fails src f)
    (hsrc : lineFeed ∉ src) : ∀ d ∈ f.diagnostic?, d.line = 1 := by
  have hparse : ∀ {ts}, Token.scan src = .ok ts → Tree.mapParsed (fun _ => 1) (Tree.parse ts) = Tree.parse ts := by
    intro ts hscan
    rw [← Tree.parse_mapLines _ (Token.ne_nil_of_scan hscan), Token.line_of_scan hscan hsrc]
  intro d hd
  cases h with
  | @scan e scanned =>
    have hline : d.line = e.line := by
      rcases e with ⟨line, _ | _⟩ <;> cases hd <;> rfl
    rw [hline, Token.line_of_scan_error scanned hsrc]
    rfl
  | @parse ts e scanned parsed =>
    have herror := hparse scanned
    rw [parsed] at herror
    have hline : e.token.line = 1 := congrArg (·.token.line) (Except.error.inj herror).symm
    cases hd
    exact hline
  | @evaluate ts x fault scanned parsed evaluated =>
    have hx := hparse scanned
    rw [parsed] at hx
    have hfault := x.evaluate_mapLines fun _ => 1
    rw [Except.ok.inj hx, evaluated] at hfault
    cases fault with
    | missingOperand => cases hd
    | runtime e =>
      have he : e = e.mapLine fun _ => 1 := Fault.runtime.inj (Except.error.inj hfault)
      have hline : e.token.line = 1 := congrArg (·.token.line) he
      cases hd
      exact hline

end ExprLang
