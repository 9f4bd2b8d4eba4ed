import Literate.Text.Blank
import Literate.Text.Lines
import Literate.Text.Printable
import Literate.Text.Punctuation
import Literate.Text.Folding
import Literate.Text.Width
import Literate.Markdown.Entity
import Literate.Text.Utf8
import Literate.Text.Quoted
import Literate.Text.Percent
import Literate.Document.Attr
import Literate.Document.Basic
import Literate.Document.Flatten
import Literate.Document.Node
import Literate.Decimal.Shortest
import Literate.Document.Render
import Literate.Document.Outline
import Literate.Document.Store
import Literate.Document.Replacements
import Literate.Markdown.Line
import Literate.Markdown.Html
import Literate.Markdown.Target
import Literate.Markdown.Token
import Literate.Markdown.Phrase
import Literate.Markdown.Container
import Literate.Markdown.Leaf
import Literate.Markdown.Event
import Literate.Markdown.Part
import Literate.Markdown.Groups
import Literate.Markdown.Assembly
import Literate.Toml.Error
import Literate.Toml.Item
import Literate.Toml.Scan
import Literate.Toml.Reader
import Literate.Toml.Decode
import Literate.Document.Source
import Literate.Execution.Error
import Literate.Execution.Fragment
import Literate.Execution.Indentation
import Literate.Execution.Transcript
import Literate.Execution.Encoding
import Literate.Execution.Config
import Literate.Execution.Executor
import Literate.Execution.Dispatch
import Literate.Execution.Walk
import Literate.Shell.Word
import Literate.Shell.Token
import Literate.Shell.Command
import Literate.Shell.Pattern
import Literate.Shell.Arithmetic
import Literate.Shell.Format
import Literate.Shell.State
import Literate.Shell.Test
import Literate.Shell.Run
import Literate.Process
import Literate.Execution.Session
import Literate.Text.Search
import Literate.Files
import Literate.Document.Excerpt
import Literate.Fixture.Basic
import Literate.Fixture.Suite
import Literate.CommandLine.Arguments
import Literate.CommandLine.Command
import Literate.CommandLine.Run
import Literate.Main
import Literate.Proofs.Coupling
import Literate.Proofs.Document.Attaching
import Literate.Proofs.Document.Layout
import Literate.Proofs.Document.Stead
import Literate.Proofs.Store.Entry
import Literate.Proofs.Store.Footprint
import Literate.Proofs.Store.Insertion
import Literate.Proofs.Store.Building
import Literate.Proofs.Store.Placement
import Literate.Proofs.Store.Records
import Literate.Proofs.Store.Rewriting
import Literate.Proofs.Store.Settling
import Literate.Proofs.Store.Step
import Literate.Proofs.Store.Applying
import Literate.Proofs.Execution.Dispatch
import Literate.Proofs.Execution.OnePass
import Literate.Proofs.Execution.Walk
import Literate.Proofs.Store.Reachability
import Literate.Proofs.Execution.Effect
import Literate.Proofs.Execution.Execute
import Literate.Proofs.Execution.Plan
import Literate.Proofs.Execution.Recording
import Literate.Proofs.Execution.Trace
import Literate.Proofs.Execution.Turns
import Literate.Proofs.Store.Numbering
import Literate.Proofs.Store.Outermost
import Literate.Proofs.Text.Lines
import Literate.Proofs.Text.Utf8
import Literate.Proofs.Execution.Conversation
import Literate.Proofs.Execution.Transcript
import Literate.Proofs.Execution.Expression
import Literate.Proofs.Execution.Overlap
import Literate.Proofs.Execution.OneLine
import Literate.Proofs.Execution.FragmentGrammar
import Literate.Proofs.Execution.FragmentTags
import Literate.Proofs.Text.Percent
import Literate.Proofs.Execution.ImageAddress
import Literate.Proofs.Execution.Indentation
import Literate.Proofs.Execution.Executable
import Literate.Proofs.Execution.Lifecycle
import Literate.Proofs.Document.AttrText
import Literate.Proofs.Text.Runs
import Literate.Proofs.Markdown.EventStream
import Literate.Proofs.Markdown.Assembly
import Literate.Proofs.Markdown.Phrase
import Literate.Proofs.Markdown.TextLine
import Literate.Proofs.Markdown.HeadingLine
import Literate.Proofs.Markdown.FencedCode
import Literate.Proofs.Markdown.Nesting
import Literate.Proofs.Markdown.Scan
import Literate.Proofs.Markdown.OpenBlocks
import Literate.Proofs.Markdown.ListMarker
import Literate.Proofs.Markdown.LeafBlocks
import Literate.Proofs.Markdown.Laid
import Literate.Proofs.Markdown.ReadBack
import Literate.Proofs.Document.Rendering
import Literate.Proofs.Document.Fragment
import Literate.Proofs.Document.RoundTrip
import Literate.Proofs.Text.BytePlaces
import Literate.Proofs.Document.AttrGrammar
import Literate.Proofs.Document.AttrScan
import Literate.Proofs.Document.InfoString
import Literate.Proofs.Markdown.CodeSpan
import Literate.Proofs.Markdown.Backticks
import Literate.Proofs.Document.FencedBlock
import Literate.Proofs.Document.Flattening
import Literate.Proofs.Document.Lifting
import Literate.Proofs.Document.TableText
import Literate.Proofs.Text.LineWords
import Literate.Proofs.Toml.Scalars
import Literate.Proofs.Toml.Documents
import Literate.Proofs.Toml.ReadBack
import Literate.Proofs.Markdown.Behind
import Literate.Proofs.Markdown.FirstPart
import Literate.Proofs.Markdown.FrontMatter
import Literate.Proofs.Document.FrontMatter
import Literate.Proofs.Text.Returns
import Literate.Proofs.Document.FrontMatterError
import Literate.Proofs.Document.Strings
import Literate.Proofs.Document.NestedLines
import Literate.Proofs.Fixture.Split
import Literate.Proofs.Fixture.Selection
import Literate.Proofs.Store.PreOrder
import Literate.Proofs.Markdown.Passes
import Literate.Proofs.Markdown.Groups
