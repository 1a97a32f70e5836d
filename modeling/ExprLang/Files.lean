import ExprLang.Text.Bytes

/-!
# Files

* `FileFault` — why a path cannot be read, with its wording;
* `Files` — what reading a path gives;
* `Files.ofList` — the files of a working directory, found by walking along the components of a path.
-/

namespace ExprLang

/-! ## Faults -/

/-- Why a path cannot be read. -/
inductive FileFault where
  | notFound
  | notDirectory
  | isDirectory
  | denied
  | nameTooLong
  /-- The path holds a zero byte. -/
  | invalidName
  deriving DecidableEq, Repr

namespace FileFault

/-- Whether already opening the file fails. A directory can be opened, but not read. -/
def preventsOpening : FileFault → Bool
  | .isDirectory => false
  | _ => true

/-- The reason in words. -/
def reason : FileFault → String
  | .notFound => "no such file or directory"
  | .notDirectory => "not a directory"
  | .isDirectory => "is a directory"
  | .denied => "permission denied"
  | .nameTooLong => "file name too long"
  | .invalidName => "invalid argument"

/-- The complaint about a path. -/
def message (fault : FileFault) (path : Bytes) : Bytes :=
  utf8 (if fault.preventsOpening then "open " else "read ") ++ path ++ utf8 ": " ++ utf8 fault.reason

end FileFault

/-- The files that a run can read. -/
structure Files where
  /-- The contents of the file at a path. -/
  read : Bytes → Except FileFault Bytes

namespace Files

/-! ## Paths -/

/-- The separator between the components of a path. -/
def separator : UInt8 := 47

/-- The components of a path; neighbouring separators have an empty one between them. -/
def components : Bytes → List Bytes
  | [] => [[]]
  | b :: rest =>
    if b = separator then [] :: components rest
    else
      match components rest with
      | [] => [[b]]
      | c :: cs => (b :: c) :: cs

/-- A component that stays where it is. -/
def staysHere (component : Bytes) : Bool := component == [] || component == utf8 "."

/-- Where a path leads. -/
inductive Spot where
  /-- A directory, by its components from the working directory on. -/
  | directory (path : List Bytes)
  /-- A directory above the working directory or beside it. -/
  | outside
  | file (contents : Bytes)
  deriving DecidableEq, Repr

/-- What stands at the given components: a file, or a directory if the path of a file leads through it. -/
def find (entries : List (List Bytes × Bytes)) (path : List Bytes) : Except FileFault Spot :=
  match entries.lookup path with
  | some contents => .ok (.file contents)
  | none =>
    if entries.any fun entry => path.isPrefixOf entry.1 then .ok (.directory path) else .error .notFound

/-- The largest length of a component. -/
def maxComponent : Nat := 255

/-- The largest length of a path. -/
def maxPath : Nat := 4095

/-- Follows one component. -/
def follow (entries : List (List Bytes × Bytes)) (spot : Spot) (component : Bytes) : Except FileFault Spot :=
  match spot with
  | .file _ => .error .notDirectory
  | .directory path =>
    if staysHere component then .ok spot
    else if component = utf8 ".." then .ok (if path = [] then .outside else .directory path.dropLast)
    else if maxComponent < component.length then .error .nameTooLong
    else find entries (path ++ [component])
  | .outside =>
    if staysHere component || component == utf8 ".." then .ok spot
    else if maxComponent < component.length then .error .nameTooLong
    else .error .notFound

/-- Reads the file at a path, walking from the working directory, or from the root if the path starts there. -/
def readIn (entries : List (List Bytes × Bytes)) (path : Bytes) : Except FileFault Bytes :=
  if path = [] then .error .notFound
  else if path.contains 0 then .error .invalidName
  else if maxPath < path.length then .error .nameTooLong
  else
    let start := if path.head? = some separator then Spot.outside else Spot.directory []
    match (components path).foldlM (follow entries) start with
    | .ok (.file contents) => .ok contents
    | .ok _ => .error .isDirectory
    | .error fault => .error fault

/-- A working directory with the given files, by their paths. -/
def ofList (entries : List (Bytes × Bytes)) : Files where
  read := readIn (entries.map fun (path, contents) => ((components path).filter (!staysHere ·), contents))

end Files

end ExprLang
