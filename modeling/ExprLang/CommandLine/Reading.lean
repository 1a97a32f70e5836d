import ExprLang.CommandLine.Setting

/-!
# Reading a command line

The arguments of a command line are read from left to right as settings, up to the first fault; what follows a fault is
not looked at. An argument `@file` stands for the lines of that file, read as arguments in turn, and after an argument
`--` everything is a plain word. Nothing keeps a file from naming itself, so reading need not come to an end.

* `Reading` — how far a command line has been read;
* `Reading.take` — what one more word adds;
* `Reading.ofArguments` — the reading of a whole command line.
-/

namespace ExprLang.CommandLine

/-- How far a command line has been read. -/
structure Reading where
  /-- The settings so far, the last one first. -/
  latest : List Setting := []
  /-- The flag whose value is to come next. -/
  awaiting : Option Choice := none
  /-- Whether all arguments to come are plain words. -/
  literal : Bool := false
  /-- Why reading has stopped. -/
  fault : Option UsageFault := none

namespace Reading

/-- The settings in the order in which they were read. -/
def settings (r : Reading) : List Setting := r.latest.reverse

/-! ## Words -/

/-- Adds a setting. -/
def add (r : Reading) (setting : Setting) : Reading := { r with latest := setting :: r.latest }

/-- Stops reading. -/
def stop (r : Reading) (fault : UsageFault) : Reading := { r with fault := some fault }

/-- Reads a flag given by name. Only a switch can be turned off. -/
def takeLong (r : Reading) (name : Bytes) : Reading :=
  match Flag.resolve? name with
  | some (.switch s, on) => r.add (.switch s on)
  | some (.choice c, true) => { r with awaiting := some c }
  | some (.choice _, false) | none => r.stop (.unknownLong name)

/-- Reads a word where no value is awaited. -/
def takeFree (r : Reading) : Word → Reading
  | .long name => r.takeLong name
  | .short letter =>
    match Flag.ofLetter? letter with
    | some s => r.add (.switch s true)
    | none => r.stop (.unknownShort letter)
  | .plain text => r.add (.script text)
  | .broken fault => r.stop (.word fault)

/-- Reads a word. The value of a flag must be a plain word. -/
def take (r : Reading) (word : Word) : Reading :=
  match r.awaiting with
  | none => r.takeFree word
  | some c =>
    match word with
    | .plain value => { r with awaiting := none }.add (.choice c value)
    | _ => r.stop (.missingValue c)

/-- Reads words up to the first fault. -/
def takeAll (r : Reading) : List Word → Reading
  | [] => r
  | word :: rest => if r.fault.isSome then r else (r.take word).takeAll rest

/-! ## Arguments -/

/-- Reads an argument. If it names a file, the arguments in the file are still to be read in its place. -/
def argument (files : Files) (r : Reading) (text : Bytes) : Reading × List Bytes :=
  match r.literal, text with
  | true, text => (r.take (.plain text), [])
  | false, [] => (r.take (.plain []), [])
  | false, b :: tail =>
    if b = Word.dash then
      match Word.ofDashed tail with
      | (words, literal) => ({ r.takeAll words with literal }, [])
    else if b = Word.atSign then
      match Word.readArguments files tail with
      | .error fault => (r.take (.broken fault), [])
      | .ok arguments => (r, arguments)
    else (r.take (.plain (b :: tail)), [])

/-- Reads arguments up to the first fault. There is no result if reading goes on for ever. -/
def arguments (files : Files) (r : Reading) : List Bytes → Option Reading
  | [] => some r
  | text :: rest =>
    if r.fault.isSome then some r
    else
      match r.argument files text with
      | (r, more) => r |>.arguments files (more ++ rest)
partial_fixpoint

/-- Ends the reading: no value may be awaited any more. -/
def finish (r : Reading) : Reading :=
  match r.fault, r.awaiting with
  | none, some c => r.stop (.missingValue c)
  | _, _ => r

/-- Reads a command line. There is no result if argument files lead back to themselves and so are read for ever. -/
def ofArguments (files : Files) (texts : List Bytes) : Option Reading := (arguments files {} texts).map finish

end Reading

end ExprLang.CommandLine
