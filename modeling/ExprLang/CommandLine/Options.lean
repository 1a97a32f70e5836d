import ExprLang.CommandLine.Reading
import ExprLang.Session.Report

/-!
# Options of a command line

`Options.ofSettings` puts the settings of a command line into effect one after the other, up to the first that cannot
be: a flag may be used once only, and the format of trees must have one of the known names.
-/

namespace ExprLang.CommandLine

/-- What a command line asks for. -/
structure Options where
  emitTokens : Bool := false
  emitTree : Bool := false
  format : TreeFormat := .text
  logLevel : Bytes := utf8 "warn"
  debug : Bool := false
  scripts : List Bytes := []
  deriving DecidableEq

namespace Options

/-- Turns a switch on or off. Help and version are no options: they act at once. -/
def setSwitch (o : Options) (on : Bool) : Switch → Options
  | .emitTokens => { o with emitTokens := on }
  | .emitTree => { o with emitTree := on }
  | .debug => { o with debug := on }
  | .help | .version => o

/-- The options after one more setting, scripts apart. -/
def set (o : Options) : Setting → Except UsageFault Options
  | .switch s on => .ok (o.setSwitch on s)
  | .choice .treeFormat name =>
    if name = utf8 "text" then .ok { o with format := .text }
    else if name = utf8 "json" then .ok { o with format := .json }
    else .error (.unknownFormat name)
  | .choice .logLevel name => .ok { o with logLevel := name }
  | .script _ => .ok o

/-- The options after more settings, where the flags `seen` have been used already. No flag may be used twice. -/
def setAll (o : Options) (seen : List Flag) : List Setting → Except UsageFault Options
  | [] => .ok o
  | setting :: rest =>
    match setting.flag?.filter seen.contains with
    | some flag => .error (.repeated flag)
    | none =>
      match o.set setting with
      | .error fault => .error fault
      | .ok o => o.setAll (setting.flag?.toList ++ seen) rest

/-- The options that the settings choose. -/
def ofSettings (settings : List Setting) : Except UsageFault Options :=
  ({ scripts := settings.filterMap Setting.script? } : Options).setAll [] settings

/-- The mode that the options choose; tokens win over the tree. -/
def mode (o : Options) : Mode := if o.emitTokens then .tokens else if o.emitTree then .tree else .evaluate

end Options

end ExprLang.CommandLine
