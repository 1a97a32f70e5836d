import ExprLang.CommandLine.Word

/-!
# Settings of a command line

* `Flag` — the flags and their names;
* `Setting` — a choice made on the command line, by a flag or by naming a script;
* `UsageFault` — why a command line is refused, with its wording.
-/

namespace ExprLang.CommandLine

/-! ## Flags -/

/-- The flags that are given or not. -/
inductive Switch where
  | help
  | version
  | emitTokens
  | emitTree
  | debug
  deriving DecidableEq, Repr

/-- The flags that take a value. -/
inductive Choice where
  | treeFormat
  | logLevel
  deriving DecidableEq, Repr

/-- The flags. -/
inductive Flag where
  | switch (s : Switch)
  | choice (c : Choice)
  deriving DecidableEq, Repr

namespace Flag

/-- All flags. -/
def all : List Flag :=
  [.switch .help, .switch .version, .switch .emitTokens, .switch .emitTree, .choice .treeFormat, .choice .logLevel,
   .switch .debug]

/-- The name of a flag. -/
def name : Flag → String
  | .switch .help => "help"
  | .switch .version => "version"
  | .switch .emitTokens => "emit-tokens"
  | .switch .emitTree => "emit-ast"
  | .switch .debug => "debug"
  | .choice .treeFormat => "ast-format"
  | .choice .logLevel => "log-level"

/-- The flag with the given name. -/
def ofName? (s : Bytes) : Option Flag := all.find? fun flag => utf8 flag.name == s

/-- The flag with the given letter. -/
def ofLetter? (s : Bytes) : Option Switch := if s = [Word.switchLetter] then some .debug else none

/-- The name of the switch that a name turns off. -/
def negated? (s : Bytes) : Option Bytes := if (utf8 "no-").isPrefixOf s then some (s.drop 3) else none

/-- The flag that a name refers to, and whether it is turned on or off. -/
def resolve? (s : Bytes) : Option (Flag × Bool) :=
  match ofName? s with
  | some flag => some (flag, true)
  | none => ((negated? s).bind ofName?).map fun flag => (flag, false)

end Flag

/-! ## Settings -/

/-- A choice made on the command line. -/
inductive Setting where
  | switch (s : Switch) (on : Bool)
  | choice (c : Choice) (value : Bytes)
  | script (path : Bytes)
  deriving DecidableEq, Repr

namespace Setting

/-- The flag that makes a choice; a script is named without one. -/
def flag? : Setting → Option Flag
  | .switch s _ => some (.switch s)
  | .choice c _ => some (.choice c)
  | .script _ => none

/-- The script that a setting names. -/
def script? : Setting → Option Bytes
  | .script path => some path
  | _ => none

end Setting

/-! ## Faults -/

/-- Why a command line is refused. -/
inductive UsageFault where
  | word (fault : WordFault)
  | unknownLong (name : Bytes)
  | unknownShort (letter : Bytes)
  | missingValue (choice : Choice)
  | repeated (flag : Flag)
  | unknownFormat (name : Bytes)
  deriving DecidableEq, Repr

namespace UsageFault

/-- The wording of the fault. -/
def message : UsageFault → Bytes
  | .word fault => fault.message
  | .unknownLong name => utf8 "unknown long flag '--" ++ name ++ utf8 "'"
  | .unknownShort letter => utf8 "unknown short flag '-" ++ letter ++ utf8 "'"
  | .missingValue choice => utf8 "expected argument for flag '--" ++ utf8 (Flag.choice choice).name ++ utf8 "'"
  | .repeated flag => utf8 "flag '" ++ utf8 flag.name ++ utf8 "' cannot be repeated"
  | .unknownFormat name => utf8 "enum value must be one of text,json, got '" ++ name ++ utf8 "'"

end UsageFault

end ExprLang.CommandLine
