import Std.Time.DateTime
import Std.Time.Format
import ExprLang.CommandLine.Plan

/-!
# The program

Reads files and the standard input, and carries out what `CommandLine.plan` decides. Lines are read byte by byte, so
that a dialogue goes on as soon as a line is complete, whatever bytes it holds.
-/

namespace ExprLang.Main

/-- The time for the log. -/
def now : IO Bytes := do
  let t ← Std.Time.Timestamp.now
  let date := Std.Time.PlainDateTime.ofWallTime (t.toWallTime Std.Time.TimeZone.Offset.zero)
  return utf8 (date.format "uuuu-MM-dd'T'HH:mm:ss" ++ "Z")

/-- Writes a byte string to a stream at once. -/
def writeTo (stream : IO.FS.Stream) (text : Bytes) : IO Unit := do
  stream.write text.toByteArray
  stream.flush

/-- Carries out effects in order. -/
def emit (effects : List Effect) : IO Unit := do
  for effect in effects do
    match effect with
    | .out text => writeTo (← IO.getStdout) text
    | .err text => writeTo (← IO.getStderr) text
    | .log entry => writeTo (← IO.getStderr) (entry.render (← now))

/-! ## Files -/

/-- Why a file could not be opened. -/
def openFault : IO.Error → FileFault
  | .inappropriateType .. => .notDirectory
  | .permissionDenied .. => .denied
  | .invalidArgument .. => .invalidName
  | _ => .notFound

/-- Reads a file. -/
def readPath (path : Bytes) : IO (Except FileFault Bytes) := do
  match String.fromUTF8? path.toByteArray with
  | none => return .error .notFound
  | some name =>
    match ← (IO.FS.Handle.mk name .read).toBaseIO with
    | .error e => return .error (openFault e)
    | .ok handle =>
      match ← handle.readBinToEnd.toBaseIO with
      | .error _ => return .error .isDirectory
      | .ok contents => return .ok contents.toList

/-- The files that have been read, by their paths. -/
def ofTable (table : List (Bytes × Except FileFault Bytes)) : Files where
  read path := (table.lookup path).getD (.error .notFound)

/-- Reads the argument files that arguments name, and those named in them. -/
partial def loadArguments (table : List (Bytes × Except FileFault Bytes)) :
    List Bytes → IO (List (Bytes × Except FileFault Bytes))
  | [] => return table
  | argument :: rest => do
    match argument with
    | b :: path =>
      if b = CommandLine.Word.atSign && (table.lookup path).isNone then
        let result ← readPath path
        let more := (result.toOption.bind CommandLine.Word.fileArguments).getD []
        loadArguments ((path, result) :: table) (more ++ rest)
      else loadArguments table rest
    | [] => loadArguments table rest

/-! ## Dialogues -/

/-- Reads up to the next line feed, which is dropped, or up to the end of the input. The bytes read so far stand last
first. -/
partial def readLine (input : IO.FS.Stream) (soFar : Bytes) : IO (Bytes × Bool) := do
  match (← input.read 1).toList with
  | [] => return (soFar.reverse, true)
  | b :: _ => if b = Bytes.lineFeed then return (soFar.reverse, false) else readLine input (b :: soFar)

/-- Asks for lines and runs them, up to the end of the input. -/
partial def dialogue (session : Session) (input : IO.FS.Stream) (number : Nat) : IO UInt32 := do
  emit [.out Session.promptText]
  match ← (readLine input []).toBaseIO with
  | .error e =>
    emit [CommandLine.complaint (utf8 (toString e))]
    return 1
  | .ok (line, true) =>
    emit (session.runLast 0 number line none).effects
    return 0
  | .ok (line, false) =>
    emit (session.runLine 0 number line).effects
    dialogue session input (number + 1)

/-- Runs a script. -/
def script (session : Session) (path : Bytes) : IO UInt32 := do
  let contents ← readPath path
  let outcome := CommandLine.ofScript session (session.runFile (ofTable [(path, contents)]) path)
  emit outcome.effects
  return outcome.status.toUInt32

end ExprLang.Main

open ExprLang in
/-- The program: runs the script that the arguments name, or else a dialogue on the standard input. -/
def main (arguments : List String) : IO UInt32 := do
  let words := arguments.map utf8
  let table ← Main.loadArguments [] words
  match CommandLine.plan (Main.ofTable table) words with
  -- without a plan, deciding on one goes on for ever, so this is never returned
  | none => return 0
  | some (.stop effects status) => do
    Main.emit effects
    return status.toUInt32
  | some (.script session path) => Main.script session path
  | some (.dialogue session) => do Main.dialogue session (← IO.getStdin) 1
