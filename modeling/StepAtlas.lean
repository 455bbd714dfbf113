import StepAtlas.Catalog.Basic
import StepAtlas.Catalog.Build
import StepAtlas.Command.Options
import StepAtlas.Command.Report
import StepAtlas.Command.Request
import StepAtlas.Command.Run
import StepAtlas.Definition
import StepAtlas.Disk.Basic
import StepAtlas.Disk.Read
import StepAtlas.Disk.Scan
import StepAtlas.Fault
import StepAtlas.Feature
import StepAtlas.Gherkin.Complaint
import StepAtlas.Gherkin.Grammar
import StepAtlas.Gherkin.Language
import StepAtlas.Gherkin.Line
import StepAtlas.Gherkin.Reader
import StepAtlas.Glob.Braces
import StepAtlas.Glob.Pattern
import StepAtlas.Keeper.Basic
import StepAtlas.Keeper.Call
import StepAtlas.Keeper.Rebuild
import StepAtlas.Keeper.Refresh
import StepAtlas.Keeper.Turn
import StepAtlas.Log
import StepAtlas.Machine
import StepAtlas.Main
import StepAtlas.Markup
import StepAtlas.Matching
import StepAtlas.Number.Binary64
import StepAtlas.Number.Calendar
import StepAtlas.Number.Shortest
import StepAtlas.Path
import StepAtlas.PathMap
import StepAtlas.Pattern.Compile
import StepAtlas.Pattern.Expression
import StepAtlas.Pattern.RegexLiteral
import StepAtlas.Proofs.Catalog
import StepAtlas.Proofs.Entries
import StepAtlas.Proofs.Keeper.AllOrNothing
import StepAtlas.Proofs.Keeper.Built
import StepAtlas.Proofs.Keeper.Coherence
import StepAtlas.Proofs.Keeper.Effects
import StepAtlas.Proofs.Keeper.Frame
import StepAtlas.Proofs.Keeper.Incremental
import StepAtlas.Proofs.Keeper.Isolation
import StepAtlas.Proofs.Keeper.Liveness
import StepAtlas.Proofs.Keeper.Loads
import StepAtlas.Proofs.Keeper.Moves
import StepAtlas.Proofs.Keeper.Order
import StepAtlas.Proofs.Keeper.Pending
import StepAtlas.Proofs.Keeper.Reachable
import StepAtlas.Proofs.Keeper.Rebuilt
import StepAtlas.Proofs.Keeper.Runs
import StepAtlas.Proofs.Keeper.Stamps
import StepAtlas.Proofs.Keeper.Succession
import StepAtlas.Proofs.Keeper.Supersession
import StepAtlas.Proofs.Keeper.Tenure
import StepAtlas.Proofs.Keeper.Termination
import StepAtlas.Proofs.Keeper.Timer
import StepAtlas.Proofs.Keeper.Turns
import StepAtlas.Proofs.Keeper.Writes
import StepAtlas.Proofs.Listing
import StepAtlas.Proofs.Markup
import StepAtlas.Proofs.Matching
import StepAtlas.Proofs.PathMap
import StepAtlas.Proofs.Pattern.Captures
import StepAtlas.Proofs.Pattern.Compiled
import StepAtlas.Proofs.Pattern.GroupNames
import StepAtlas.Proofs.Pattern.Longest
import StepAtlas.Proofs.Pattern.Meaning
import StepAtlas.Proofs.Pattern.Refused
import StepAtlas.Proofs.Pattern.Source
import StepAtlas.Proofs.Regex.Complaints
import StepAtlas.Proofs.Regex.Language
import StepAtlas.Proofs.Regex.Reading
import StepAtlas.Proofs.Regex.Ways
import StepAtlas.Proofs.Updating
import StepAtlas.Proofs.Workspace
import StepAtlas.Regex.Complaint
import StepAtlas.Regex.Matcher
import StepAtlas.Regex.Reader
import StepAtlas.Regex.Syntax
import StepAtlas.Script.Cursor
import StepAtlas.Script.Literal
import StepAtlas.Script.Parser
import StepAtlas.Script.Parser.Element
import StepAtlas.Script.Parser.Expression
import StepAtlas.Script.Parser.Function
import StepAtlas.Script.Parser.Goal
import StepAtlas.Script.Parser.Statement
import StepAtlas.Script.Parser.Type
import StepAtlas.Script.Registration
import StepAtlas.Script.Tree
import StepAtlas.Settings.Basic
import StepAtlas.Settings.Layer
import StepAtlas.Settings.Provider
import StepAtlas.Signal
import StepAtlas.Text.Basic
import StepAtlas.Text.Blank
import StepAtlas.Text.Case
import StepAtlas.Text.Encoding
import StepAtlas.Text.Identifier
import StepAtlas.Text.Letter
import StepAtlas.Text.Printable
import StepAtlas.Text.Quoted
import StepAtlas.Text.Switches
import StepAtlas.Text.Utf8
import StepAtlas.Toml.Document
import StepAtlas.Toml.Literal
import StepAtlas.Toml.Reader
import StepAtlas.Toml.Trouble
import StepAtlas.Value
import StepAtlas.Workspace
import StepAtlas.Proofs.Keeper.Answers
import StepAtlas.Proofs.Keeper.History
import StepAtlas.Proofs.Keeper.Idempotence
import StepAtlas.Proofs.Keeper.Uniformity
import StepAtlas.Proofs.Keeper.Exclusion
import StepAtlas.Proofs.Keeper.Ending
import StepAtlas.Proofs.Command.Gate
import StepAtlas.Proofs.Gherkin.RoundTrip
import StepAtlas.Proofs.Script.RoundTrip
import StepAtlas.Proofs.Settings.GlobList
import StepAtlas.Proofs.Glob.Braces
import StepAtlas.Proofs.Glob.Alternatives
import StepAtlas.Proofs.Glob.Directories
import StepAtlas.Proofs.Keeper.Applying
import StepAtlas.Proofs.Keeper.Watching
import StepAtlas.Proofs.Keeper.Following
import StepAtlas.Proofs.Settings.Values
import StepAtlas.Proofs.Settings.Layers
import StepAtlas.Proofs.Utf8
import StepAtlas.Proofs.Settings.Files
import StepAtlas.Proofs.Settings.Updates
import StepAtlas.Proofs.Script.CodeUnits
import StepAtlas.Proofs.Script.Replacement
import StepAtlas.Proofs.Script.SourceOrder
import StepAtlas.Proofs.Script.Walk
import StepAtlas.Proofs.Signal
import StepAtlas.Proofs.Gherkin.DocumentOrder
