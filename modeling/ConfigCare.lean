import ConfigCare.Command.Arguments
import ConfigCare.Command.Basic
import ConfigCare.Command.Execute
import ConfigCare.Data
import ConfigCare.Files.Path
import ConfigCare.Files.Selection
import ConfigCare.Files.Tree
import ConfigCare.Files.Walk
import ConfigCare.Format.Document
import ConfigCare.Format.Outcome
import ConfigCare.Format.Spacing
import ConfigCare.Glob.IgnoreList
import ConfigCare.Glob.Segment
import ConfigCare.Json.Canonical
import ConfigCare.Json.Error
import ConfigCare.Json.Reader
import ConfigCare.Json.Writer
import ConfigCare.Jsonc.Comment
import ConfigCare.Jsonc.Delimiters
import ConfigCare.Jsonc.Nesting
import ConfigCare.Jsonc.Reindent
import ConfigCare.Log.Journal
import ConfigCare.Log.Record
import ConfigCare.Log.Setup
import ConfigCare.Main
import ConfigCare.Number.Binary64
import ConfigCare.Number.Numeral
import ConfigCare.Number.Shortest
import ConfigCare.Project.Basic
import ConfigCare.Project.Format
import ConfigCare.Project.Pool
import ConfigCare.Project.Scan
import ConfigCare.Regex.CharacterName
import ConfigCare.Regex.Matcher
import ConfigCare.Regex.Parser
import ConfigCare.Regex.Search
import ConfigCare.Regex.Syntax
import ConfigCare.Report.Console
import ConfigCare.Report.Document
import ConfigCare.Report.Markup
import ConfigCare.Report.Screen
import ConfigCare.Report.Terminal
import ConfigCare.Schema.Check
import ConfigCare.Schema.Issue
import ConfigCare.Secret.Finding
import ConfigCare.Secret.Mask
import ConfigCare.Secret.Registry
import ConfigCare.Secret.Scan
import ConfigCare.Secret.ScanResult
import ConfigCare.Settings.Basic
import ConfigCare.Settings.Environment
import ConfigCare.Settings.Load
import ConfigCare.Settings.Section
import ConfigCare.Text.Basic
import ConfigCare.Text.Blank
import ConfigCare.Text.Case
import ConfigCare.Text.CaseTable
import ConfigCare.Text.Cursor
import ConfigCare.Text.Letter
import ConfigCare.Text.LetterTable
import ConfigCare.Text.Lines
import ConfigCare.Text.NameTable
import ConfigCare.Text.Position
import ConfigCare.Text.PrintableTable
import ConfigCare.Text.Quoted
import ConfigCare.Text.Ranges
import ConfigCare.Text.Utf8
import ConfigCare.Text.Wide
import ConfigCare.Text.Width
import ConfigCare.Text.WidthTable
import ConfigCare.Toml.Error
import ConfigCare.Toml.Reader
import ConfigCare.Toml.Scalar
import ConfigCare.Proofs.Margins
import ConfigCare.Proofs.Visible
import ConfigCare.Proofs.Tokens
import ConfigCare.Proofs.CommentRouting
import ConfigCare.Proofs.LineTokens
import ConfigCare.Proofs.NestedTokens
import ConfigCare.Proofs.InlineComments
import ConfigCare.Proofs.LineComments
import ConfigCare.Proofs.Settled
import ConfigCare.Proofs.Rounding
import ConfigCare.Proofs.ShortestDecimal
import ConfigCare.Proofs.WrittenNumbers
import ConfigCare.Proofs.WrittenStrings
import ConfigCare.Proofs.WrittenValues
import ConfigCare.Proofs.CanonicalForm
import ConfigCare.Proofs.CanonicalLines
import ConfigCare.Proofs.FormattedAgain
import ConfigCare.Proofs.QuotedStrings
import ConfigCare.Proofs.PlainValues
import ConfigCare.Proofs.TomlLayouts
import ConfigCare.Proofs.TomlValues
import ConfigCare.Proofs.TomlStatements
import ConfigCare.Proofs.NormalizedLines
import ConfigCare.Proofs.TomlSpacing
import ConfigCare.Proofs.TomlLiterals
import ConfigCare.Proofs.TomlFormatting
import ConfigCare.Proofs.NormalizedAgain
import ConfigCare.Proofs.LineBreaks
import ConfigCare.Proofs.JsonLineBreaks
import ConfigCare.Proofs.ReportReading
import ConfigCare.Proofs.Matching
import ConfigCare.Proofs.Searching
import ConfigCare.Proofs.Positions
import ConfigCare.Proofs.Scanning
import ConfigCare.Proofs.Redaction
import ConfigCare.Proofs.Previews
import ConfigCare.Proofs.Encoding
import ConfigCare.Proofs.Places
import ConfigCare.Proofs.Walking
import ConfigCare.Proofs.Disclosure
import ConfigCare.Proofs.Unencodable
import ConfigCare.Proofs.FormatRuns
import ConfigCare.Proofs.FormatChanges
import ConfigCare.Proofs.ReadingLimits
import ConfigCare.Proofs.RegistryLoading
import ConfigCare.Proofs.Pools
import ConfigCare.Proofs.PooledRuns
import ConfigCare.Proofs.CheckedRuns
import ConfigCare.Proofs.WalkedFiles
import ConfigCare.Proofs.ScanRuns
import ConfigCare.Proofs.ExpressionReading
import ConfigCare.Proofs.ExpressionLanguages
import ConfigCare.Proofs.GlobLanguages
import ConfigCare.Proofs.PrunedFolders
import ConfigCare.Proofs.NestingDepth
import ConfigCare.Proofs.CanonicalReindented
import ConfigCare.Proofs.Printing
import ConfigCare.Proofs.CombinedRuns
import ConfigCare.Proofs.BlankLines
import ConfigCare.Proofs.ReindentersAgree
import ConfigCare.Proofs.DenotedValues
import ConfigCare.Proofs.ReadTokens
import ConfigCare.Proofs.KeptMembers
import ConfigCare.Proofs.ExpressionLimits
import ConfigCare.Proofs.CompiledRules
import ConfigCare.Proofs.MaskedSecrets
import ConfigCare.Proofs.Keywords
import ConfigCare.Proofs.FileRoots
import ConfigCare.Proofs.FindingViews
import ConfigCare.Proofs.CommentFinders
import ConfigCare.Proofs.LogLines
import ConfigCare.Proofs.LogFiles
import ConfigCare.Proofs.TomlTables
import ConfigCare.Proofs.SettingsPrecedence
