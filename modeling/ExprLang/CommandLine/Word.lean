import ExprLang.Files
import ExprLang.Text.Quoted

/-!
# Words of a command line

An argument of a command line spells flags and plain words, or names a file that holds arguments.

* `Word.ofDashed` — the words of an argument that starts with a dash;
* `Word.readArguments` — the arguments in a file, one on each line.
-/

namespace ExprLang.CommandLine

/-- Why an argument file gives no arguments. -/
inductive WordFault where
  /-- No file is named. -/
  | noFile
  | unreadable (path : Bytes) (fault : FileFault)
  /-- A line of the file is too long. -/
  | longLine (path : Bytes)
  deriving DecidableEq, Repr

namespace WordFault

/-- The wording of the fault. -/
def message : WordFault → Bytes
  | .noFile => utf8 "expected @ file to expand arguments from"
  | .unreadable path fault =>
    utf8 (if fault.preventsOpening then "failed to open arguments file " else "failed to read arguments from ") ++
      Quoted.string path ++ utf8 ": " ++ fault.message path
  | .longLine path =>
    utf8 "failed to read arguments from " ++ Quoted.string path ++ utf8 ": bufio.Scanner: token too long"

end WordFault

/-- A part of a command line. -/
inductive Word where
  /-- A flag by its name, after two dashes. -/
  | long (name : Bytes)
  /-- A flag by its letter, after one dash; there may be no letter. -/
  | short (letter : Bytes)
  | plain (text : Bytes)
  /-- An argument file that cannot be used. -/
  | broken (fault : WordFault)
  deriving DecidableEq, Repr

namespace Word

/-- The dash that starts flags. -/
def dash : UInt8 := 45

/-- The byte that starts the name of an argument file. -/
def atSign : UInt8 := 64

/-- The byte that starts a comment line in an argument file. -/
def numberSign : UInt8 := 35

/-- The byte between a flag and its value. -/
def equalsSign : UInt8 := 61

/-- A flag given by name, with the text after an equals sign as the next word. -/
def ofLong (s : Bytes) : List Word :=
  let name := s.takeWhile (· != equalsSign)
  match s.dropWhile (· != equalsSign) with
  | [] => [.long name]
  | _ :: value => [.long name, .plain value]

/-- The letter of the flag that takes no value, so that others may follow it after the same dash. -/
def switchLetter : UInt8 := 100

/-- The words of an argument without its first dash, and whether the arguments after it are plain words. Reading stops
after a letter that is no switch. -/
def ofDashed : Bytes → List Word × Bool
  | [] => ([.short []], false)
  | b :: rest =>
    if b = dash then if rest = [] then ([], true) else (ofLong rest, false)
    else if b = switchLetter then
      if rest = [] then ([.short [b]], false)
      else
        match ofDashed rest with
        | (words, literal) => (.short [b] :: words, literal)
    else ([.short (String.utf8EncodeChar (Utf8.first b rest).1.toChar)], false)

/-! ## Argument files -/

/-- The length from which on a line is too long to be read. -/
def maxLine : Nat := 65536

/-- The arguments on the lines of a file: a carriage return at the end of a line is dropped, and so are comments. -/
def fileArguments (contents : Bytes) : Option (List Bytes) :=
  match Bytes.lines contents with
  | (lines, last) =>
    let all := if last = [] then lines else lines ++ [last]
    if all.any fun line => maxLine ≤ line.length then none
    else
      some <| (all.map fun line => if line.getLast? = some 13 then line.dropLast else line).filter fun line =>
        line.head? != some numberSign

/-- The arguments in the file that an argument names after its `@`. -/
def readArguments (files : Files) (path : Bytes) : Except WordFault (List Bytes) :=
  if path = [] then .error .noFile
  else
    match files.read path with
    | .error fault => .error (.unreadable path fault)
    | .ok contents =>
      match fileArguments contents with
      | none => .error (.longLine path)
      | some arguments => .ok arguments

end Word

end ExprLang.CommandLine
