import ColorTheme.Bindings
import ColorTheme.Cache
import ColorTheme.Color
import ColorTheme.CommandLine
import ColorTheme.CommandLine.Run
import ColorTheme.Compiler
import ColorTheme.Css.Parser
import ColorTheme.Css.Reduction
import ColorTheme.Css.Sheet
import ColorTheme.Css.Token
import ColorTheme.Digest
import ColorTheme.Escape
import ColorTheme.External
import ColorTheme.Failure
import ColorTheme.Files
import ColorTheme.Generation
import ColorTheme.Import
import ColorTheme.Json
import ColorTheme.Lessc
import ColorTheme.Main
import ColorTheme.Minify
import ColorTheme.Options
import ColorTheme.Options.Reader
import ColorTheme.Path
import ColorTheme.Pattern
import ColorTheme.Pattern.Parser
import ColorTheme.Plugin
import ColorTheme.Probe
import ColorTheme.Proofs.Allocation
import ColorTheme.Proofs.Beyond
import ColorTheme.Proofs.Bindings
import ColorTheme.Proofs.Cache
import ColorTheme.Proofs.Chain
import ColorTheme.Proofs.Classifier
import ColorTheme.Proofs.Closed
import ColorTheme.Proofs.Colors
import ColorTheme.Proofs.Compact
import ColorTheme.Proofs.Css.Address
import ColorTheme.Proofs.Css.Comment
import ColorTheme.Proofs.Css.Kept
import ColorTheme.Proofs.Css.Parser
import ColorTheme.Proofs.Css.Pass
import ColorTheme.Proofs.Css.Plain
import ColorTheme.Proofs.Css.Reduction
import ColorTheme.Proofs.Css.RoundTrip
import ColorTheme.Proofs.Css.Slice
import ColorTheme.Proofs.Css.Token
import ColorTheme.Proofs.Cycle
import ColorTheme.Proofs.Declaration
import ColorTheme.Proofs.Directive
import ColorTheme.Proofs.Escape
import ColorTheme.Proofs.Exchange
import ColorTheme.Proofs.Fault
import ColorTheme.Proofs.Files
import ColorTheme.Proofs.Fragment
import ColorTheme.Proofs.Freshness
import ColorTheme.Proofs.Generation
import ColorTheme.Proofs.Import
import ColorTheme.Proofs.Listing
import ColorTheme.Proofs.Minify
import ColorTheme.Proofs.Normalize
import ColorTheme.Proofs.Notation
import ColorTheme.Proofs.Overlay
import ColorTheme.Proofs.Pattern
import ColorTheme.Proofs.Plugin
import ColorTheme.Proofs.Probe
import ColorTheme.Proofs.Reassembly
import ColorTheme.Proofs.Reference
import ColorTheme.Proofs.Remainder
import ColorTheme.Proofs.Removal
import ColorTheme.Proofs.Restoration
import ColorTheme.Proofs.Reuse
import ColorTheme.Proofs.Scan
import ColorTheme.Proofs.SearchPath
import ColorTheme.Proofs.Sentinel
import ColorTheme.Proofs.Shade
import ColorTheme.Proofs.Simultaneous
import ColorTheme.Proofs.Stages
import ColorTheme.Proofs.Substitution
import ColorTheme.Proofs.Symbol
import ColorTheme.Proofs.Target
import ColorTheme.Proofs.Text.Case
import ColorTheme.Proofs.Text.Gap
import ColorTheme.Proofs.Text.Layout
import ColorTheme.Proofs.Text.Letter
import ColorTheme.Proofs.Text.Lines
import ColorTheme.Proofs.Text.Lookbehind
import ColorTheme.Proofs.Text.Run
import ColorTheme.Proofs.Text.Search
import ColorTheme.Proofs.Text.Word
import ColorTheme.Proofs.Theme
import ColorTheme.Proofs.Uncommented
import ColorTheme.Proofs.Unselected
import ColorTheme.Proofs.UserSheet
import ColorTheme.Proofs.Void
import ColorTheme.Rehearsal
import ColorTheme.Sentinel
import ColorTheme.Shade
import ColorTheme.Shell.Arithmetic
import ColorTheme.Shell.Builtin
import ColorTheme.Shell.Condition
import ColorTheme.Shell.Edit
import ColorTheme.Shell.Format
import ColorTheme.Shell.Glob
import ColorTheme.Shell.Regex
import ColorTheme.Shell.Regex.Parser
import ColorTheme.Shell.Run
import ColorTheme.Shell.Script
import ColorTheme.Shell.Script.Parser
import ColorTheme.Shell.Script.Token
import ColorTheme.Shell.Script.Word
import ColorTheme.Shell.Session
import ColorTheme.Shell.Tool
import ColorTheme.Shell.Tool.Filter
import ColorTheme.Shell.Tool.Search
import ColorTheme.Shell.Tool.Tree
import ColorTheme.Substitution
import ColorTheme.Symbol
import ColorTheme.Text
import ColorTheme.Text.Block
import ColorTheme.Text.Case
import ColorTheme.Text.Letter
import ColorTheme.Text.Numeral
import ColorTheme.Text.Octets
import ColorTheme.Text.Search
import ColorTheme.Text.Utf8
import ColorTheme.Theme
import ColorTheme.UserSheet
import ColorTheme.Variable
import ColorTheme.Variable.Chain
import ColorTheme.Yaml
import ColorTheme.Yaml.Parser
