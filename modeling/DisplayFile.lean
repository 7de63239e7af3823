import DisplayFile.Command.Answer
import DisplayFile.Command.FileTree
import DisplayFile.Command.Files
import DisplayFile.Command.Request
import DisplayFile.Command.Run
import DisplayFile.Command.Settings
import DisplayFile.Command.Suite
import DisplayFile.Condition
import DisplayFile.Entry
import DisplayFile.Failure
import DisplayFile.Indicators
import DisplayFile.Json.Basic
import DisplayFile.Json.Binary64
import DisplayFile.Json.Difference
import DisplayFile.Json.Printer
import DisplayFile.Json.Reader
import DisplayFile.Json.Record
import DisplayFile.Keyword.Basic
import DisplayFile.Keyword.Parameters
import DisplayFile.Keyword.Scan
import DisplayFile.Main
import DisplayFile.Member.Assembly
import DisplayFile.Member.Basic
import DisplayFile.Member.Json
import DisplayFile.Member.Query
import DisplayFile.Member.Source
import DisplayFile.Member.Window
import DisplayFile.Proofs.Command.Answers
import DisplayFile.Proofs.Command.Drawing
import DisplayFile.Proofs.Command.Mismatches
import DisplayFile.Proofs.Command.Outcomes
import DisplayFile.Proofs.Command.Running
import DisplayFile.Proofs.Command.Snapshots
import DisplayFile.Proofs.Command.Suite
import DisplayFile.Proofs.Command.Switches
import DisplayFile.Proofs.Command.Writing
import DisplayFile.Proofs.Conditions
import DisplayFile.Proofs.Json.Agreement
import DisplayFile.Proofs.Json.Binary64
import DisplayFile.Proofs.Json.Differences
import DisplayFile.Proofs.Json.Equivalence
import DisplayFile.Proofs.Json.Plain
import DisplayFile.Proofs.Json.Reading
import DisplayFile.Proofs.Json.Report
import DisplayFile.Proofs.Json.RoundTrip
import DisplayFile.Proofs.Json.Scalars
import DisplayFile.Proofs.Keyword.Boundaries
import DisplayFile.Proofs.Keyword.Cuts
import DisplayFile.Proofs.Keyword.Endings
import DisplayFile.Proofs.Keyword.Items
import DisplayFile.Proofs.Keyword.LineEnds
import DisplayFile.Proofs.Keyword.Parameters
import DisplayFile.Proofs.Keyword.Quotes
import DisplayFile.Proofs.Keyword.Registers
import DisplayFile.Proofs.Keyword.Size
import DisplayFile.Proofs.Keyword.Tokens
import DisplayFile.Proofs.Member.Chain
import DisplayFile.Proofs.Member.Columns
import DisplayFile.Proofs.Member.Continuation
import DisplayFile.Proofs.Member.Counting
import DisplayFile.Proofs.Member.Displacement
import DisplayFile.Proofs.Member.Draft
import DisplayFile.Proofs.Member.Growth
import DisplayFile.Proofs.Member.Inert
import DisplayFile.Proofs.Member.Json
import DisplayFile.Proofs.Member.Numbering
import DisplayFile.Proofs.Member.Plain
import DisplayFile.Proofs.Member.Positions
import DisplayFile.Proofs.Member.Ranges
import DisplayFile.Proofs.Member.RoundTrip
import DisplayFile.Proofs.Member.Routing
import DisplayFile.Proofs.Member.Row
import DisplayFile.Proofs.Member.Schema
import DisplayFile.Proofs.Member.Search
import DisplayFile.Proofs.Member.Segments
import DisplayFile.Proofs.Member.Settling
import DisplayFile.Proofs.Member.Source
import DisplayFile.Proofs.Member.WellFormed
import DisplayFile.Proofs.Member.Windows
import DisplayFile.Proofs.Sections
import DisplayFile.Proofs.Text.Ascii
import DisplayFile.Proofs.Text.Characters
import DisplayFile.Proofs.Text.Columns
import DisplayFile.Proofs.Text.Decimal
import DisplayFile.Proofs.Text.Lines
import DisplayFile.Proofs.Text.Numbers
import DisplayFile.Proofs.Text.Utf8
import DisplayFile.Text.Align
import DisplayFile.Text.Blank
import DisplayFile.Text.Columns
import DisplayFile.Text.Lines
import DisplayFile.Text.Numeral
import DisplayFile.Text.Pieces
import DisplayFile.Text.Uppercase
import DisplayFile.Text.Utf8
import DisplayFile.Toml.Basic
import DisplayFile.Toml.Reader
