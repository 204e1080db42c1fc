import Kouetsu.Cache
import Kouetsu.CommandLine.Arguments
import Kouetsu.CommandLine.Report
import Kouetsu.CommandLine.Run
import Kouetsu.Comment.Language
import Kouetsu.Comment.Lexer
import Kouetsu.Comment.Prose
import Kouetsu.Config.Error
import Kouetsu.Config.Filter
import Kouetsu.Config.Key
import Kouetsu.Config.Rules
import Kouetsu.Config.Settings
import Kouetsu.Diagnostic
import Kouetsu.Digest.Settings
import Kouetsu.Digest.Sha256
import Kouetsu.Document
import Kouetsu.Encoding.Basic
import Kouetsu.Encoding.Utf16
import Kouetsu.Encoding.Windows31J
import Kouetsu.Engine
import Kouetsu.Entries
import Kouetsu.Exclusion.Basic
import Kouetsu.Exclusion.Detection
import Kouetsu.Exclusion.Filter
import Kouetsu.Exclusion.Recogniser
import Kouetsu.File.Language
import Kouetsu.File.Loading
import Kouetsu.File.Path
import Kouetsu.File.Tree
import Kouetsu.Issue
import Kouetsu.Json.Node
import Kouetsu.Json.Order
import Kouetsu.Json.Parser
import Kouetsu.Json.Printer
import Kouetsu.Main
import Kouetsu.Morphology
import Kouetsu.Number.Double
import Kouetsu.Number.Shortest
import Kouetsu.Pattern.Basic
import Kouetsu.Pattern.Matcher
import Kouetsu.Pattern.Parser
import Kouetsu.Position.Basic
import Kouetsu.Position.LineIndex
import Kouetsu.Position.Mapper
import Kouetsu.Proofreading
import Kouetsu.Proofreading.Paths
import Kouetsu.Rule.Agreement
import Kouetsu.Rule.Basic
import Kouetsu.Rule.Chain
import Kouetsu.Rule.Check
import Kouetsu.Rule.Dictionary
import Kouetsu.Rule.Finding
import Kouetsu.Rule.Pair
import Kouetsu.Rule.Phrase
import Kouetsu.Rule.Sentence
import Kouetsu.Rule.Spelling
import Kouetsu.Rule.Verb
import Kouetsu.RuleFile
import Kouetsu.Sentence.Basic
import Kouetsu.Sentence.Break
import Kouetsu.Sentence.Style
import Kouetsu.Severity
import Kouetsu.Text.Basic
import Kouetsu.Text.Blank
import Kouetsu.Text.Case
import Kouetsu.Text.Digit
import Kouetsu.Text.Letter
import Kouetsu.Text.Loose
import Kouetsu.Text.Printable
import Kouetsu.Text.Quoted
import Kouetsu.Token.Basic
import Kouetsu.Token.Filter
import Kouetsu.Token.Mecab
import Kouetsu.Toml.Document
import Kouetsu.Toml.Quoted
import Kouetsu.Toml.Scalar
import Kouetsu.Toml.Value
import Kouetsu.Value.Basic
import Kouetsu.Value.Integer
import Kouetsu.Value.Moment
import Kouetsu.Value.Text
import Kouetsu.Yaml.Cursor
import Kouetsu.Yaml.Date
import Kouetsu.Yaml.Layout
import Kouetsu.Yaml.Lexeme
import Kouetsu.Yaml.Node
import Kouetsu.Yaml.Number
import Kouetsu.Yaml.Tag
import Kouetsu.Yaml.Value
import Kouetsu.Proofs.Position.Mapper
import Kouetsu.Proofs.Comment.Prose
import Kouetsu.Proofs.Exclusion.Recogniser
import Kouetsu.Proofs.Exclusion.Candidates
import Kouetsu.Proofs.Exclusion.Detection
import Kouetsu.Proofs.Exclusion.Filter
import Kouetsu.Proofs.Sentence.Basic
import Kouetsu.Proofs.Rule.Table
import Kouetsu.Proofs.Rule.Finding
import Kouetsu.Proofs.Rule.Agreement
import Kouetsu.Proofs.Rule.Phrase
import Kouetsu.Proofs.Rule.Token
import Kouetsu.Proofs.Engine
import Kouetsu.Proofs.Sentence.Boundary
import Kouetsu.Proofs.Sentence.Break
import Kouetsu.Proofs.Proofreading
import Kouetsu.Proofs.Json.Write
import Kouetsu.Proofs.Json.Read
import Kouetsu.Proofs.Encoding.Utf16
import Kouetsu.Proofs.Encoding.Reading
import Kouetsu.Proofs.Cache
import Kouetsu.Proofs.Issue
import Kouetsu.Proofs.File.Path
import Kouetsu.Proofs.File.Tree
import Kouetsu.Proofs.Rule.Spelling
import Kouetsu.Proofs.Settings
import Kouetsu.Proofs.Digest
import Kouetsu.Proofs.Paths
import Kouetsu.Proofs.Run
import Kouetsu.Proofs.Comment.Range
import Kouetsu.Proofs.Comment.Lexer
import Kouetsu.Proofs.Comment.Adjacent
import Kouetsu.Proofs.Comment.Written
import Kouetsu.Proofs.Origin
import Kouetsu.Proofs.Token.Tiles
import Kouetsu.Proofs.Neighbours
import Kouetsu.Proofs.Text.Visible
import Kouetsu.Proofs.Config.Rules
import Kouetsu.Proofs.Visible
import Kouetsu.Proofs.Value.Text
import Kouetsu.Proofs.RuleDigest
import Kouetsu.Proofs.Json.Document
import Kouetsu.Proofs.File.Walk
import Kouetsu.Proofs.Calls
import Kouetsu.Proofs.Pool
import Kouetsu.Proofs.Failure
import Kouetsu.Proofs.Repeats
import Kouetsu.Proofs.Registration
import Kouetsu.Proofs.RuleFile
import Kouetsu.Proofs.Sentence.Plain
import Kouetsu.Proofs.Damage
import Kouetsu.Proofs.Morphology
import Kouetsu.Proofs.ReadBack
import Kouetsu.Proofs.Comment.LineByLine
import Kouetsu.Proofs.Exclusion.Patterns
import Kouetsu.Proofs.Exclusion.Tables
import Kouetsu.Proofs.Exclusion.Fence
import Kouetsu.Proofs.Comment.Lossless
import Kouetsu.Proofs.Config.Fields
import Kouetsu.Proofs.Config.Shape
import Kouetsu.Proofs.Config.Document
import Kouetsu.Proofs.Config.Section
import Kouetsu.Proofs.Config.Layers
import Kouetsu.Proofs.Rule.Safety
import Kouetsu.Proofs.Rule.NounChain
import Kouetsu.Proofs.Runs
import Kouetsu.Proofs.Text.Run
import Kouetsu.Proofs.Rule.ParticleChain
import Kouetsu.Proofs.Rule.EndingRun
import Kouetsu.Proofs.Text.Rewrite
import Kouetsu.Proofs.Rule.AlphabetWidth
import Kouetsu.Proofs.Text.Digit
import Kouetsu.Proofs.Severity
import Kouetsu.Proofs.Sentence.Closing
import Kouetsu.Proofs.Sentence.Verdict
import Kouetsu.Proofs.Sentence.Splitters
import Kouetsu.Proofs.File.Listing
import Kouetsu.Proofs.Token.Mecab
import Kouetsu.Proofs.Position.Inverse
import Kouetsu.Proofs.Config.Key
