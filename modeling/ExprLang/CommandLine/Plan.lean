import ExprLang.CommandLine.Options
import ExprLang.Session.Basic

/-!
# Plans for a command line

`CommandLine.plan` decides what a command line asks for: to stop with a message, to run a script or to start a dialogue.
`CommandLine.run` carries the plan out on given files and input. Where reading the command line does not come to an end,
there is no plan, and the outcome of the call says so.
-/

namespace ExprLang.CommandLine

/-! ## Texts -/

/-- The version of the program. -/
def versionText : Bytes := utf8 "0.1.0-dev\n"

/-- The lines of the help text. -/
def helpLines : List String :=
  ["usage: jlox [<flags>] [<script>...]",
   "",
   "Evaluate lox expressions.",
   "",
   "Flags:",
   "      --help              Show context-sensitive help (also try --help-long and",
   "                          --help-man).",
   "      --version           Show application version.",
   "      --emit-tokens       Print the token stream instead of evaluating.",
   "      --emit-ast          Print the syntax tree instead of evaluating.",
   "      --ast-format=text   Syntax tree format for --emit-ast: text, json.",
   "      --log-level=\"warn\"  Log level: panic, fatal, error, warn, info, debug.",
   "  -d, --debug             Same as --log-level=debug.",
   "",
   "Args:",
   "  [<script>]  Script to run; omit for interactive mode.",
   ""]

/-- The help text. -/
def helpText : Bytes := helpLines.flatMap fun line => utf8 line ++ utf8 "\n"

/-- A complaint of the program about its use. -/
def complaint (text : Bytes) : Effect := .err (utf8 "jlox: error: " ++ text ++ utf8 "\n")

/-- The exit status of a program that was called in a wrong way. -/
def usageStatus : Nat := 64

/-! ## Plans -/

/-- What a command line asks for. -/
inductive Plan where
  /-- To do no more than this, and to exit with the given status. -/
  | stop (effects : List Effect) (status : Nat)
  | script (session : Session) (path : Bytes)
  | dialogue (session : Session)

/-- The effects of the uses of a switch that prints a text. -/
def printed (s : Switch) (text : Bytes) (settings : List Setting) : List Effect :=
  settings.filterMap fun
    | .switch t _ => if t = s then some (.out text) else none
    | _ => none

/-- The session that the options describe, `none` if their log level has no such name. -/
def Options.session? (o : Options) : Option Session :=
  (Log.Level.ofName? o.logLevel).map fun level =>
    { mode := o.mode, format := o.format, level := if o.debug then .debug else level }

/-- What the options ask for. -/
def Options.plan (o : Options) : Plan :=
  match o.scripts with
  | _ :: _ :: _ => .stop [.err (utf8 "Usage: jlox [script]\n")] usageStatus
  | scripts =>
    match o.session? with
    | none => .stop [complaint (Log.Level.unknownName o.logLevel)] usageStatus
    | some session =>
      match scripts with
      | path :: _ => .script session path
      | [] => .dialogue session

/-- What a command line that was read so asks for. The version is printed even if the words cannot all be read, and the
help even if the settings do not go together. -/
def Reading.plan (r : Reading) : Plan :=
  let versions := printed .version versionText r.settings
  match r.fault with
  | some fault => .stop (versions ++ [complaint fault.message]) usageStatus
  | none =>
    let prints := versions ++ printed .help helpText r.settings
    match Options.ofSettings r.settings with
    | .error fault => .stop (prints ++ [complaint fault.message]) usageStatus
    | .ok options => if prints = [] then options.plan else .stop prints 0

/-- What a command line asks for, if reading it comes to an end. -/
def plan (files : Files) (arguments : List Bytes) : Option Plan :=
  (Reading.ofArguments files arguments).map Reading.plan

/-! ## Running -/

/-- What a call of the program did: its effects in order, its exit status and the log level at the end. -/
structure Outcome where
  effects : List Effect
  status : Nat
  level : Log.Level := .warning
  /-- Whether the call ends. If it does not, it has no exit status, whatever `status` holds. -/
  ends : Bool := true

/-- The outcome of running a script: a failure is reported and decides the exit status. -/
def ofScript (session : Session) (p : Performance) : Outcome :=
  { effects := p.effects ++ (p.failure.map fun f => Effect.err (f.message ++ utf8 "\n")).toList,
    status := p.exitStatus, level := session.level }

/-- The outcome of a dialogue: only a failure to read or to ask ends it early. -/
def ofDialogue (session : Session) (p : Performance) : Outcome :=
  { effects := p.effects ++ (p.failure.map fun f => complaint f.message).toList,
    status := if p.failure.isSome then 1 else 0, level := session.level }

/-- The outcome of a call that reads its arguments for ever. -/
def endless : Outcome := { effects := [], status := 0, ends := false }

/-- Carries a plan out on the given files and input; reading fails after the input with `readError`, if there is one. -/
def Plan.carryOut (files : Files) (input : Bytes) (readError : Option Bytes) : Plan → Outcome
  | .stop effects status => { effects, status }
  | .script session path => ofScript session (session.runFile files path)
  | .dialogue session => ofDialogue session (session.prompt input readError)

theorem Plan.ends_carryOut (p : Plan) (files : Files) (input : Bytes) (readError : Option Bytes) :
    (p.carryOut files input readError).ends = true := by
  cases p <;> rfl

/-- A call of the program with the given arguments. -/
def run (files : Files) (arguments : List Bytes) (input : Bytes) (readError : Option Bytes) : Outcome :=
  ((plan files arguments).map (Plan.carryOut files input readError)).getD endless

end ExprLang.CommandLine
