import ExprLang.Proofs.Number.Spelling
import ExprLang.Proofs.Session.Run
import ExprLang.Proofs.Text.Quoting
import ExprLang.Proofs.Token.Layout
import ExprLang.Proofs.Tree.Cursor
import ExprLang.Proofs.Tree.SourceOrder

/-!
# The lines of the debug log

An entry of the log is one line, whatever it has to tell, and a run writes an entry for each stage that it reaches. So the
lines of the log can be counted, and no source can add one.

* `Log.Entry.line` — the line of an entry, and `Log.Entry.lineFeed_notMem_line` — that it is one line;
* `Stage.Notes` — what is noted of a stage, and `Mode.reach` — how many stages a run reaches;
* `Report.notes_entries` — a report has an entry for each stage that is reached, in their order;
* `Session.logged_run` — a run at the level of the debug log writes these entries and no others;
* `Source.count_lt_length` — a tree has fewer nodes than its source has tokens;
* `Session.run_logs_stages` — what is in the log after a run.
-/

namespace ExprLang

open Bytes (lineFeed)

/-! ## Entries -/

namespace Log.Entry

/-- How every line starts that is written at the given time. -/
def opening (time : Bytes) : Bytes := utf8 "time=" ++ Quoted.string time ++ utf8 " level=debug msg=\"[driver]: "

/-- The line of an entry, without the line feed that ends it. -/
def line (time : Bytes) (e : Entry) : Bytes :=
  opening time ++ (utf8 e.message ++ (utf8 "\"" ++ e.fields.flatMap renderField))

/-- The messages of entries. -/
def messages : List String :=
  ["scan failed", "scanned", "parse failed", "parsed", "evaluation failed", "evaluated", "running file", "line failed"]

/-- The names of the details of entries. -/
def names : List String := ["error", "tokens", "depth", "nodes", "type", "value", "path", "input"]

theorem message_mem (e : Entry) : e.message ∈ messages := by
  cases e <;> simp [message, messages]

theorem name_mem (e : Entry) : ∀ field ∈ e.fields, field.1 ∈ names := by
  cases e <;> simp [fields, names]

/-- A message is quoted as it is. -/
theorem quoted_message (e : Entry) : Quoted.string (utf8 "[driver]: " ++ utf8 e.message) =
    utf8 "\"" ++ (utf8 "[driver]: " ++ (utf8 e.message ++ utf8 "\"")) := by
  have all : ∀ m ∈ messages, ("[driver]: ".toList ++ m.toList).all Quoted.isPlain = true := by decide
  have hquoted := Quoted.string_of_isPlain (all _ e.message_mem)
  rw [List.flatMap_append, List.append_assoc, List.append_assoc] at hquoted
  exact hquoted

theorem render_eq (time : Bytes) (e : Entry) : e.render time = e.line time ++ [lineFeed] := by
  have hopening : utf8 " level=debug msg=\"[driver]: " =
      utf8 " level=debug msg=" ++ (utf8 "\"" ++ utf8 "[driver]: ") := rfl
  rw [render, quoted_message, line, opening, hopening]
  simp only [List.append_assoc]
  rfl

/-! ### No entry takes more than one line -/

theorem lineFeed_notMem_renderValue (s : Bytes) : lineFeed ∉ renderValue s := by
  unfold renderValue
  split
  · rename_i hbare
    intro hmem
    exact absurd (List.all_eq_true.1 hbare _ hmem) (by decide)
  · exact Quoted.lineFeed_notMem_string s

theorem lineFeed_notMem_message (e : Entry) : lineFeed ∉ utf8 e.message := by
  have all : ∀ m ∈ messages, lineFeed ∉ utf8 m := by decide
  exact all _ e.message_mem

theorem lineFeed_notMem_fields (e : Entry) : lineFeed ∉ e.fields.flatMap renderField := by
  have all : ∀ name ∈ names, lineFeed ∉ utf8 name := by decide
  intro hmem
  obtain ⟨field, hfield, hmem⟩ := List.mem_flatMap.1 hmem
  have hname := all _ (e.name_mem field hfield)
  refine absurd hmem (List.not_mem_append (List.not_mem_append (List.not_mem_append (by decide) hname) (by decide)) ?_)
  exact lineFeed_notMem_renderValue field.2

/-- **An entry is one line**, whatever bytes there are in what it tells. -/
theorem lineFeed_notMem_line (time : Bytes) (e : Entry) : lineFeed ∉ e.line time := by
  have hopening : lineFeed ∉ opening time :=
    List.not_mem_append (List.not_mem_append (by decide) (Quoted.lineFeed_notMem_string time)) (by decide)
  refine List.not_mem_append hopening (List.not_mem_append e.lineFeed_notMem_message ?_)
  exact List.not_mem_append (by decide) e.lineFeed_notMem_fields

/-! ### Numbers -/

theorem renderValue_ofNat (n : Nat) : renderValue (Bytes.ofNat n) = Bytes.ofNat n := by
  refine if_pos (List.all_eq_true.2 fun b hb => ?_)
  have hdigit := (Bytes.isWhole_ofNat n).1.2 b hb
  simp only [isBare, Bytes.isWordByte, hdigit, Bool.or_true, Bool.true_or]

theorem line_scanned (time : Bytes) (tokens : Nat) :
    (scanned tokens).line time = opening time ++ utf8 "scanned\" tokens=" ++ Bytes.ofNat tokens := by
  have htext : utf8 "scanned\" tokens=" = utf8 "scanned" ++ (utf8 "\"" ++ (utf8 " " ++ utf8 "tokens" ++ utf8 "=")) := rfl
  simp only [line, fields, message, List.flatMap_cons, List.flatMap_nil, renderField, renderValue_ofNat, htext,
    List.append_assoc, List.append_nil]

theorem line_parsed (time : Bytes) (nodes depth : Nat) :
    (parsed nodes depth).line time = opening time ++ utf8 "parsed\" depth=" ++ Bytes.ofNat depth ++ utf8 " nodes=" ++
      Bytes.ofNat nodes := by
  have htext : utf8 "parsed\" depth=" = utf8 "parsed" ++ (utf8 "\"" ++ (utf8 " " ++ utf8 "depth" ++ utf8 "=")) := rfl
  have hnodes : utf8 " nodes=" = utf8 " " ++ utf8 "nodes" ++ utf8 "=" := rfl
  simp only [line, fields, message, List.flatMap_cons, List.flatMap_nil, renderField, renderValue_ofNat, htext, hnodes,
    List.append_assoc, List.append_nil]

end Log.Entry

/-! ## Stages that are reached -/

/-- How many stages a run in the given mode reaches: it ends with the first one that fails, or with the last one of its
mode. -/
def Mode.reach (mode : Mode) (src : Bytes) : Nat :=
  if (Source.tokens src).isOk = false ∨ mode = .tokens then 1
  else if (Source.tree src).isOk = false ∨ mode = .tree then 2
  else 3

/-- What is noted of a stage that is reached: how it has failed, or what it has found. -/
inductive Stage.Notes (src : Bytes) : Stage → Log.Entry → Prop where
  | scanFailed {e : LexError} (scanned : Token.scan src = .error e) : Notes src .scan (.scanFailed (.ofLex e))
  | scanned {ts : List Token} (scanned : Token.scan src = .ok ts) : Notes src .scan (.scanned ts.length)
  | parseFailed {ts : List Token} {e : ParseError} (scanned : Token.scan src = .ok ts)
      (parsed : Tree.parse ts = .error e) : Notes src .parse (.parseFailed (.ofParse e))
  | parsed {ts : List Token} {x : Tree} (scanned : Token.scan src = .ok ts) (parsed : Tree.parse ts = .ok x) :
      Notes src .parse (.parsed x.count x.depth)
  | evaluationFailed {ts : List Token} {x : Tree} {fault : Fault} (scanned : Token.scan src = .ok ts)
      (parsed : Tree.parse ts = .ok x) (evaluated : x.evaluate = .error fault) :
      Notes src .evaluate (.evaluationFailed (.ofFault fault))
  | evaluated {ts : List Token} {x : Tree} {v : Value} (scanned : Token.scan src = .ok ts)
      (parsed : Tree.parse ts = .ok x) (evaluated : x.evaluate = .ok v) : Notes src .evaluate (.evaluated v)

namespace Mode

variable {mode : Mode} {src : Bytes} {ts : List Token}

theorem reach_le (mode : Mode) (src : Bytes) : mode.reach src ≤ 3 := by
  unfold reach
  split
  · decide
  · split <;> decide

theorem reach_of_scan_error {e : LexError} (h : Token.scan src = .error e) : mode.reach src = 1 := by
  refine if_pos (.inl ?_)
  rw [Source.tokens_of_error h]
  rfl

theorem reach_tokens (src : Bytes) : Mode.tokens.reach src = 1 := if_pos (.inr rfl)

theorem reach_of_scan (h : Token.scan src = .ok ts) (hmode : mode ≠ .tokens) :
    mode.reach src = if (Source.tree src).isOk = false ∨ mode = .tree then 2 else 3 := by
  refine if_neg ?_
  rw [Source.tokens_of_ok h, not_or]
  exact ⟨Bool.false_ne_true.symm, hmode⟩

theorem reach_of_parse_error {e : ParseError} (h : Token.scan src = .ok ts) (hparse : Tree.parse ts = .error e)
    (hmode : mode ≠ .tokens) : mode.reach src = 2 := by
  have htree : Source.tree src = .error (.ofParse e) := by
    rw [Source.tree, Source.tokens_of_ok h]
    exact Source.treeOfTokens_of_error hparse
  rw [reach_of_scan h hmode, htree]
  exact if_pos (.inl rfl)

theorem reach_of_parse {x : Tree} (h : Token.scan src = .ok ts) (hparse : Tree.parse ts = .ok x) :
    Mode.tree.reach src = 2 ∧ Mode.evaluate.reach src = 3 := by
  rw [reach_of_scan h (by decide), reach_of_scan h (by decide), Source.tree_eq_ok_iff.2 ⟨ts, h, hparse⟩]
  exact ⟨if_pos (.inr rfl), rfl⟩

end Mode

namespace Report

variable {mode : Mode} {format : TreeFormat} {src : Bytes} {ts : List Token}

theorem entries_of_scan_error {e : LexError} (h : Token.scan src = .error e) :
    (of mode format src).entries = [.scanFailed (.ofLex e)] := by
  simp only [of, Source.tokens_of_error h]

theorem entries_of_tokens (h : Token.scan src = .ok ts) : (of .tokens format src).entries = [.scanned ts.length] := by
  simp only [of, Source.tokens_of_ok h]
  rfl

theorem entries_of_scan (h : Token.scan src = .ok ts) (hmode : mode ≠ .tokens) :
    (of mode format src).entries = .scanned ts.length :: (ofTokens mode format ts).entries := by
  simp only [of, Source.tokens_of_ok h]
  cases mode with
  | tokens => exact absurd rfl hmode
  | _ => rfl

theorem entries_of_parse_error {e : ParseError} (h : Tree.parse ts = .error e) :
    (ofTokens mode format ts).entries = [.parseFailed (.ofParse e)] := by
  simp only [ofTokens, Source.treeOfTokens_of_error h]

theorem entries_of_parse {x : Tree} (format : TreeFormat) (h : Tree.parse ts = .ok x) :
    (ofTokens .tree format ts).entries = [.parsed x.count x.depth] ∧
      (ofTokens .evaluate format ts).entries = .parsed x.count x.depth :: (ofTree x).entries := by
  simp only [ofTokens, Source.treeOfTokens_of_ok h]
  exact ⟨rfl, rfl⟩

/-- **A report has an entry for each stage that is reached**, in their order. -/
theorem notes_entries (mode : Mode) (format : TreeFormat) (src : Bytes) :
    List.Forall₂ (Stage.Notes src) (Mode.evaluate.stages.take (mode.reach src)) (of mode format src).entries := by
  cases hscan : Token.scan src with
  | error e =>
    rw [Mode.reach_of_scan_error hscan, entries_of_scan_error hscan]
    exact .cons (.scanFailed hscan) .nil
  | ok ts =>
    by_cases hmode : mode = .tokens
    · subst hmode
      rw [Mode.reach_tokens, entries_of_tokens hscan]
      exact .cons (.scanned hscan) .nil
    rw [entries_of_scan hscan hmode]
    cases hparse : Tree.parse ts with
    | error e =>
      rw [Mode.reach_of_parse_error hscan hparse hmode, entries_of_parse_error hparse]
      exact .cons (.scanned hscan) (.cons (.parseFailed hscan hparse) .nil)
    | ok x =>
      obtain ⟨hreach, hreach'⟩ := Mode.reach_of_parse hscan hparse
      obtain ⟨hentries, hentries'⟩ := entries_of_parse format hparse
      cases mode with
      | tokens => exact absurd rfl hmode
      | tree =>
        rw [hreach, hentries]
        exact .cons (.scanned hscan) (.cons (.parsed hscan hparse) .nil)
      | evaluate =>
        rw [hreach', hentries']
        refine .cons (.scanned hscan) (.cons (.parsed hscan hparse) ?_)
        unfold ofTree Source.valueOfTree
        cases hvalue : x.evaluate with
        | error fault => exact .cons (.evaluationFailed hscan hparse hvalue) .nil
        | ok v => exact .cons (.evaluated hscan hparse hvalue) .nil

/-- What is noted first of a source that can be parsed. -/
theorem entries_of_parsed {x : Tree} (format : TreeFormat) (hscan : Token.scan src = .ok ts)
    (hparse : Tree.parse ts = .ok x) :
    (of mode format src).entries[0]? = some (.scanned ts.length) ∧
      (mode ≠ .tokens → (of mode format src).entries[1]? = some (.parsed x.count x.depth)) := by
  obtain ⟨htree, hevaluate⟩ := entries_of_parse format hparse
  cases mode with
  | tokens =>
    rw [entries_of_tokens hscan]
    exact ⟨rfl, fun h => absurd rfl h⟩
  | tree =>
    rw [entries_of_scan hscan (by decide), htree]
    exact ⟨rfl, fun _ => rfl⟩
  | evaluate =>
    rw [entries_of_scan hscan (by decide), hevaluate]
    exact ⟨rfl, fun _ => rfl⟩

end Report

/-! ## Nodes and tokens -/

/-- A tree that was parsed has no more nodes than there are tokens before the end. -/
theorem Tree.count_le_endIndex {ts : List Token} {x : Tree} (h : Tree.parse ts = .ok x) :
    x.count ≤ Parser.endIndex ts := by
  let p : Parser := { tokens := ts }
  have hparse : p.parse = (.ok x, p.parse.2) := Prod.ext h rfl
  have hcursor := Parser.cursor_of_parse hparse
  have hend := Parser.endIndex_of_passes (Parser.passes_parse p)
  rw [Tree.length_symbols] at hcursor
  omega

/-- **A tree has fewer nodes than its source has tokens**, as the end is a token too. -/
theorem Source.count_lt_length {src : Bytes} {ts : List Token} {x : Tree} (hscan : Token.scan src = .ok ts)
    (hparse : Tree.parse ts = .ok x) : x.count < ts.length := by
  refine Nat.lt_of_le_of_lt (Tree.count_le_endIndex hparse) ?_
  obtain ⟨us, -, rfl⟩ := Token.consumed_of_scan hscan
  exact List.findIdx_lt_length_of_exists ⟨_, List.mem_append_right us List.mem_cons_self, rfl⟩

/-! ## Runs -/

namespace Effect

theorem logged_map_log (time : Bytes) (entries : List Log.Entry) :
    logged time (entries.map .log) = entries.flatMap (Log.Entry.render time) := by
  rw [logged, List.flatMap_map]

theorem logged_map_out (time : Bytes) (texts : List Bytes) : logged time (texts.map .out) = [] := by
  rw [logged, List.flatMap_map]
  exact List.flatMap_eq_nil_iff.2 fun _ _ => rfl

end Effect

namespace Session

variable {s : Session}

/-- A run at the level of the debug log writes the entries of its report, and no others. -/
theorem logged_run (h : s.level.writesDebug = true) (written : Nat) (src time : Bytes) :
    Effect.logged time (s.run written src).effects =
      (Report.of s.mode s.format src).entries.flatMap (Log.Entry.render time) := by
  have hnote : s.note (Report.of s.mode s.format src).entries = (Report.of s.mode s.format src).entries.map .log :=
    if_pos h
  cases hresult : (Report.of s.mode s.format src).result with
  | error f => simp only [run, hresult, hnote, Effect.logged_map_log]
  | ok texts =>
    obtain ⟨done, heffects, -⟩ := writes_writeAll s written texts
    simp only [run, hresult, hnote, Performance.after, heffects, Effect.logged_append, Effect.logged_map_log,
      Effect.logged_map_out, List.append_nil]

/-- **The log tells the stages that a run has reached, and no source can forge a line of it.** A run at the level of the
debug log writes one line for each stage it reaches, in their order, each with a line feed at its end and none in it, and
each with the same opening. The number of lines is one if scanning fails or in token mode, two if parsing fails or in tree
mode, and three otherwise. If the source is parsed, the lines give the number of its tokens, and that of the nodes and the
depth of its tree, which is at most the number of nodes; and there are fewer nodes than tokens. -/
theorem run_logs_stages (hlevel : s.level.writesDebug = true) (written : Nat) (src time : Bytes) :
    ∃ lines : List Bytes,
      Effect.logged time (s.run written src).effects = lines.flatMap (· ++ [lineFeed]) ∧
      (∀ l ∈ lines, lineFeed ∉ l ∧ Log.Entry.opening time <+: l) ∧
      lines.length = s.mode.reach src ∧
      List.Forall₂ (fun stage l => ∃ e, Stage.Notes src stage e ∧ l = e.line time)
        (Mode.evaluate.stages.take lines.length) lines ∧
      ∀ ts x, Token.scan src = .ok ts → Tree.parse ts = .ok x →
        (x.depth ≤ x.count ∧ x.count < ts.length) ∧
        lines[0]? = some (Log.Entry.opening time ++ utf8 "scanned\" tokens=" ++ Bytes.ofNat ts.length) ∧
        (s.mode ≠ .tokens → lines[1]? = some (Log.Entry.opening time ++ utf8 "parsed\" depth=" ++
          Bytes.ofNat x.depth ++ utf8 " nodes=" ++ Bytes.ofNat x.count)) := by
  have hnotes := Report.notes_entries s.mode s.format src
  have hlength : (Report.of s.mode s.format src).entries.length = s.mode.reach src := by
    rw [← hnotes.length_eq, List.length_take]
    exact Nat.min_eq_left (s.mode.reach_le src)
  refine ⟨(Report.of s.mode s.format src).entries.map (Log.Entry.line time), ?_, ?_, ?_, ?_, fun ts x hscan hparse => ?_⟩
  · rw [logged_run hlevel, List.flatMap_map, funext (Log.Entry.render_eq time)]
  · rw [List.forall_mem_map]
    exact fun e _ => ⟨e.lineFeed_notMem_line time, List.prefix_append _ _⟩
  · rw [List.length_map, hlength]
  · rw [List.length_map, hlength, List.forall₂_map_right_iff]
    exact hnotes.imp fun stage e h => ⟨e, h, rfl⟩
  · obtain ⟨hscanned, hparsed⟩ := Report.entries_of_parsed s.format hscan hparse
    refine ⟨⟨x.depth_le_count, Source.count_lt_length hscan hparse⟩, ?_, fun hmode => ?_⟩
    · rw [List.getElem?_map, hscanned, Option.map_some, Log.Entry.line_scanned]
    · rw [List.getElem?_map, hparsed hmode, Option.map_some, Log.Entry.line_parsed]

/-- A string over two lines, with a forged entry in it, leaves three lines in the log. -/
theorem run_logs_stages_forged :
    let src := utf8 "\"a\ntime=0 level=debug\""
    let s : Session := { level := .debug }
    ∃ lines : List Bytes, Effect.logged (utf8 "T") (s.run 0 src).effects = lines.flatMap (· ++ [lineFeed]) ∧
      lines.length = 3 ∧
      (∀ l ∈ lines, lineFeed ∉ l ∧ utf8 "time=\"T\" level=debug msg=\"[driver]: " <+: l) ∧
      lines[0]? = some (utf8 "time=\"T\" level=debug msg=\"[driver]: scanned\" tokens=2") ∧
      lines[1]? = some (utf8 "time=\"T\" level=debug msg=\"[driver]: parsed\" depth=1 nodes=1") := by
  intro src s
  let t : Token := { kind := .string, lexeme := src, line := 2, text := utf8 "a\ntime=0 level=debug" }
  have hscan : Token.scan src = .ok [t, .endOfSource 2] := rfl
  have hparse : Tree.parse [t, .endOfSource 2] = .ok (.literal t) := rfl
  obtain ⟨lines, hlogged, hlines, hlength, -, hnumbers⟩ := run_logs_stages (s := s) rfl 0 src (utf8 "T")
  obtain ⟨-, hfirst, hsecond⟩ := hnumbers _ _ hscan hparse
  have htwo : Bytes.ofNat [t, .endOfSource 2].length = utf8 "2" := show Bytes.ofNat 2 = utf8 "2" from rfl
  have hone : Bytes.ofNat (Tree.literal t).count = utf8 "1" := show Bytes.ofNat 1 = utf8 "1" from rfl
  have hdepth : Bytes.ofNat (Tree.literal t).depth = utf8 "1" := show Bytes.ofNat 1 = utf8 "1" from rfl
  rw [htwo] at hfirst
  rw [hone, hdepth] at hsecond
  refine ⟨lines, hlogged, ?_, hlines, hfirst, hsecond (by decide)⟩
  rw [hlength]
  exact (Mode.reach_of_parse hscan hparse).2

end Session

end ExprLang
