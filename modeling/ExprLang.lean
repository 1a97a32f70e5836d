import ExprLang.Text.Bytes
import ExprLang.Text.Utf8
import ExprLang.Text.Printable
import ExprLang.Text.Blank
import ExprLang.Text.Blocks
import ExprLang.Text.Quoted
import ExprLang.Number.Binary64
import ExprLang.Number.Decimal
import ExprLang.Number.Shortest
import ExprLang.Number.Style
import ExprLang.Token.Kind
import ExprLang.Token.Basic
import ExprLang.Diagnostic
import ExprLang.Token.Lexer
import ExprLang.Tree.Basic
import ExprLang.Tree.Printer
import ExprLang.Tree.Parser
import ExprLang.Json
import ExprLang.Tree.Document
import ExprLang.Value
import ExprLang.Tree.Evaluator
import ExprLang.Failure
import ExprLang.Source
import ExprLang.Log.Level
import ExprLang.Log.Entry
import ExprLang.Files
import ExprLang.Session.Report
import ExprLang.Session.Basic
import ExprLang.Session.Step
import ExprLang.CommandLine.Word
import ExprLang.CommandLine.Setting
import ExprLang.CommandLine.Reading
import ExprLang.CommandLine.Options
import ExprLang.CommandLine.Plan
import ExprLang.Main
import ExprLang.Proofs.Text.Utf8
import ExprLang.Proofs.Text.Blank
import ExprLang.Proofs.Text.Quoting
import ExprLang.Proofs.Text.Blocks
import ExprLang.Proofs.Number.Bits
import ExprLang.Proofs.Number.Spelling
import ExprLang.Proofs.Json.Grammar
import ExprLang.Proofs.Json.Decoder
import ExprLang.Proofs.Json.Writing
import ExprLang.Proofs.Token.LexicalGrammar
import ExprLang.Proofs.Token.Scanning
import ExprLang.Proofs.Token.Layout
import ExprLang.Proofs.Token.LineBreaks
import ExprLang.Proofs.Token.Table
import ExprLang.Proofs.Token.Rescanning
import ExprLang.Proofs.Token.Cursor
import ExprLang.Proofs.Token.Sweep
import ExprLang.Proofs.Token.InBounds
import ExprLang.Proofs.Tree.Grammar
import ExprLang.Proofs.Tree.Parsing
import ExprLang.Proofs.Tree.Typing
import ExprLang.Proofs.Tree.Lines
import ExprLang.Proofs.Tree.SourceText
import ExprLang.Proofs.Tree.Cursor
import ExprLang.Proofs.Tree.WellFormed
import ExprLang.Proofs.Tree.Description
import ExprLang.Proofs.Tree.PostOrder
import ExprLang.Proofs.Tree.ViablePrefix
import ExprLang.Proofs.Tree.Locality
import ExprLang.Proofs.Tree.Rendering
import ExprLang.Proofs.Tree.SourceOrder
import ExprLang.Proofs.Tree.Spans
import ExprLang.Proofs.Tree.Recovery
import ExprLang.Proofs.Tree.Walking
import ExprLang.Proofs.Value
import ExprLang.Proofs.Failure
import ExprLang.Proofs.Session.Lines
import ExprLang.Proofs.Session.Dialogue
import ExprLang.Proofs.Session.LogLevels
import ExprLang.Proofs.Session.Scripts
import ExprLang.Proofs.Session.LogLines
import ExprLang.Proofs.CommandLine.Reading
import ExprLang.Proofs.CommandLine.Requests
import ExprLang.Proofs.CommandLine.Announcements
