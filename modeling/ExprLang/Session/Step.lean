import ExprLang.Session.Basic

/-!
# Steps of a session

A session is a sequence of steps, which change its settings or run something under them; `Session.perform` does one.
-/

namespace ExprLang

/-- A step of a session. -/
inductive Step where
  | setMode (mode : Mode)
  | setFormat (format : TreeFormat)
  | setLimit (limit : Option Int)
  | setLevel (level : Log.Level)
  /-- Sets the level by its name. -/
  | nameLevel (name : Bytes)
  | run (source : Bytes)
  | file (path : Bytes)
  | prompt (input : Bytes) (readError : Option Bytes)

namespace Session

/-- A step that has no effects, with the failure it ended with. -/
def silent (failure : Option Failure) : Performance := { effects := [], written := 0, failure }

/-- The session after a step, and what the step did. -/
def perform (files : Files) (s : Session) : Step → Session × Performance
  | .setMode mode => ({ s with mode }, silent none)
  | .setFormat format => ({ s with format }, silent none)
  | .setLimit limit => ({ s with limit }, silent none)
  | .setLevel level => ({ s with level }, silent none)
  | .nameLevel name =>
    match Log.Level.ofName? name with
    | some level => ({ s with level }, silent none)
    | none => (s, silent (some (.plain (Log.Level.unknownName name))))
  | .run source => (s, s.run 0 source)
  | .file path => (s, s.runFile files path)
  | .prompt input readError => (s, s.prompt input readError)

/-- The performances of a sequence of steps, each with the session after it. -/
def performAll (files : Files) (s : Session) : List Step → List (Session × Performance)
  | [] => []
  | step :: rest =>
    let next := s.perform files step
    next :: performAll files next.1 rest

end Session

end ExprLang
