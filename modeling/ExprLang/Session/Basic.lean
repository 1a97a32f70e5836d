import ExprLang.Files
import ExprLang.Session.Report
import ExprLang.Text.Blank

/-!
# Sessions

A `Session` holds the settings under which sources are run; nothing else is kept from one source to the next.

* `Effect` — something written, or noted in the log;
* `Performance` — what running a source, a script or a dialogue did;
* `Session.run`, `Session.runFile`, `Session.prompt` — the three ways to run sources.
-/

namespace ExprLang

/-- The settings of a session. A write that would bring the output of a step above `limit` bytes is refused. -/
structure Session where
  mode : Mode := .evaluate
  format : TreeFormat := .text
  level : Log.Level := .warning
  limit : Option Int := none
  deriving DecidableEq

/-- Something that a run does to the outside. -/
inductive Effect where
  /-- Writes to the standard output. -/
  | out (text : Bytes)
  /-- Writes to the standard error. -/
  | err (text : Bytes)
  /-- Writes to the debug log. -/
  | log (entry : Log.Entry)
  deriving DecidableEq

namespace Effect

/-- What is written to the standard output. -/
def stdout (effects : List Effect) : Bytes :=
  effects.flatMap fun
    | .out text => text
    | _ => []

@[simp] theorem stdout_append (a b : List Effect) : stdout (a ++ b) = stdout a ++ stdout b := by
  simp [stdout]

/-- What is written to the standard error. -/
def stderr (effects : List Effect) : Bytes :=
  effects.flatMap fun
    | .err text => text
    | _ => []

@[simp] theorem stderr_append (a b : List Effect) : stderr (a ++ b) = stderr a ++ stderr b := by
  simp [stderr]

/-- What is written to the debug log, with the same time for all entries. -/
def logged (time : Bytes) (effects : List Effect) : Bytes :=
  effects.flatMap fun
    | .log entry => entry.render time
    | _ => []

@[simp] theorem logged_append (time : Bytes) (a b : List Effect) :
    logged time (a ++ b) = logged time a ++ logged time b := by
  simp [logged]

/-- What is written to the standard error if the debug log goes there too. -/
def messages (time : Bytes) (effects : List Effect) : Bytes :=
  effects.flatMap fun
    | .out _ => []
    | .err text => text
    | .log entry => entry.render time

@[simp] theorem messages_append (time : Bytes) (a b : List Effect) :
    messages time (a ++ b) = messages time a ++ messages time b := by
  simp [messages]

end Effect

/-- What a part of a session did: its effects in order, the number of bytes of standard output in the step up to its
end, and the failure it ended with. -/
structure Performance where
  effects : List Effect
  written : Nat
  failure : Option Failure := none
  deriving DecidableEq

namespace Performance

/-- The performance with effects put in front. -/
def after (effects : List Effect) (p : Performance) : Performance := { p with effects := effects ++ p.effects }

/-- The exit status of a performance. -/
def exitStatus (p : Performance) : Nat := Failure.exitStatus p.failure

end Performance

namespace Session

/-! ## Writing -/

/-- The failure of a write that is refused. -/
def writeRefused : Failure := .plain (utf8 "write refused")

/-- The number of bytes written after one more text, `none` if it is refused. -/
def write? (s : Session) (written : Nat) (text : Bytes) : Option Nat :=
  match s.limit with
  | none => some (written + text.length)
  | some limit => if (written + text.length : Nat) ≤ limit then some (written + text.length) else none

/-- Writes texts up to the first that is refused. -/
def writeAll (s : Session) (written : Nat) : List Bytes → Performance
  | [] => { effects := [], written }
  | text :: rest =>
    match s.write? written text with
    | none => { effects := [], written, failure := some writeRefused }
    | some written => (s.writeAll written rest).after [.out text]

/-- The entries that the level of the session lets into the log. -/
def note (s : Session) (entries : List Log.Entry) : List Effect :=
  if s.level.writesDebug then entries.map .log else []

/-! ## Sources and scripts -/

/-- Runs a source, after `written` bytes of output. -/
def run (s : Session) (written : Nat) (source : Bytes) : Performance :=
  let report := Report.of s.mode s.format source
  match report.result with
  | .error f => { effects := s.note report.entries, written, failure := some f }
  | .ok texts => (s.writeAll written texts).after (s.note report.entries)

/-- Runs the contents of a file. -/
def runFile (s : Session) (files : Files) (path : Bytes) : Performance :=
  match files.read path with
  | .error fault => { effects := [], written := 0, failure := some (.unreadable path (.plain (fault.message path))) }
  | .ok source => (s.run 0 source).after (s.note [.runningFile path])

/-! ## Dialogues -/

/-- The text that asks for a line. -/
def promptText : Bytes := utf8 "> "

/-- Whether a byte belongs to the end of a line. -/
def endsLine (b : UInt8) : Bool := b == Bytes.lineFeed || b == 13

/-- Runs the line with the given number, after `written` bytes of output. A failure is reported and ends nothing. -/
def runLine (s : Session) (written number : Nat) (line : Bytes) : Performance :=
  let p := s.run written (line.dropTrailing endsLine)
  match p.failure with
  | none => p
  | some f =>
    { effects := p.effects ++ s.note [.lineFailed number f] ++ [.err (f.message ++ utf8 "\n")], written := p.written }

/-- Runs what follows the last line feed, unless it is blank. If reading broke off there, it is not run. -/
def runLast (s : Session) (written number : Nat) (line : Bytes) (readError : Option Bytes) : Performance :=
  match readError with
  | some text => { effects := [], written, failure := some (.plain text) }
  | none =>
    if Text.allBlank (line.dropTrailing endsLine) then { effects := [], written } else s.runLine written number line

/-- Asks for lines and runs each of them; `last` is what follows the last line feed. -/
def promptLines (s : Session) (last : Bytes) (readError : Option Bytes) (written number : Nat) :
    List Bytes → Performance
  | [] =>
    match s.write? written promptText with
    | none => { effects := [], written, failure := some writeRefused }
    | some written => (s.runLast written number last readError).after [.out promptText]
  | line :: rest =>
    match s.write? written promptText with
    | none => { effects := [], written, failure := some writeRefused }
    | some written =>
      let p := s.runLine written number line
      (s.promptLines last readError p.written (number + 1) rest).after (.out promptText :: p.effects)

/-- Runs a dialogue on the given input. It ends with the input, or with `readError` if reading fails after it. -/
def prompt (s : Session) (input : Bytes) (readError : Option Bytes) : Performance :=
  match Bytes.lines input with
  | (lines, last) => s.promptLines last readError 0 1 lines

end Session

end ExprLang
