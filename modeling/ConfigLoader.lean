import ConfigLoader.Child
import ConfigLoader.Child.Machine
import ConfigLoader.Child.Script
import ConfigLoader.Command
import ConfigLoader.Command.Arguments
import ConfigLoader.Compiler
import ConfigLoader.Compiler.Callers
import ConfigLoader.Compiler.Reply
import ConfigLoader.ConfigFile
import ConfigLoader.Diagnostic
import ConfigLoader.Engine
import ConfigLoader.Fault
import ConfigLoader.Fault.Construct
import ConfigLoader.Fault.Kind
import ConfigLoader.FileTree
import ConfigLoader.Json.Canonical
import ConfigLoader.Json.Error
import ConfigLoader.Json.Printer
import ConfigLoader.Json.Reader
import ConfigLoader.Json.Strict
import ConfigLoader.Json.Strict.Error
import ConfigLoader.Limits
import ConfigLoader.Loader
import ConfigLoader.Loader.Group
import ConfigLoader.Loader.Threads
import ConfigLoader.Log
import ConfigLoader.Main
import ConfigLoader.Modules.Evaluation
import ConfigLoader.Modules.Lookup
import ConfigLoader.Number.Binary64
import ConfigLoader.Number.Reading
import ConfigLoader.Number.Shortest
import ConfigLoader.Path
import ConfigLoader.Proofs.Callers.Alone
import ConfigLoader.Proofs.Callers.Answering
import ConfigLoader.Proofs.Callers.Order
import ConfigLoader.Proofs.Callers.Record
import ConfigLoader.Proofs.Callers.Serial
import ConfigLoader.Proofs.Callers.Tasks
import ConfigLoader.Proofs.Child.Records
import ConfigLoader.Proofs.Child.Working
import ConfigLoader.Proofs.Command.Conduct
import ConfigLoader.Proofs.Command.Endings
import ConfigLoader.Proofs.Command.Printed
import ConfigLoader.Proofs.Command.Reports
import ConfigLoader.Proofs.Command.Settings
import ConfigLoader.Proofs.Compiler.Courses
import ConfigLoader.Proofs.Compiler.Discipline
import ConfigLoader.Proofs.Compiler.Frames
import ConfigLoader.Proofs.Compiler.Framing
import ConfigLoader.Proofs.Compiler.Matching
import ConfigLoader.Proofs.Compiler.Relinquished
import ConfigLoader.Proofs.Compiler.Startup
import ConfigLoader.Proofs.Compiler.Traffic
import ConfigLoader.Proofs.ConfigFile.Dispatch
import ConfigLoader.Proofs.ConfigFile.Opening
import ConfigLoader.Proofs.Fault.Ends
import ConfigLoader.Proofs.FileTree.Locations
import ConfigLoader.Proofs.FileTree.Outline
import ConfigLoader.Proofs.FileTree.Reading
import ConfigLoader.Proofs.FileTree.Without
import ConfigLoader.Proofs.Json.Canonical
import ConfigLoader.Proofs.Json.Conveyed
import ConfigLoader.Proofs.Json.Documents
import ConfigLoader.Proofs.Json.Exact
import ConfigLoader.Proofs.Json.Faults
import ConfigLoader.Proofs.Json.Floats
import ConfigLoader.Proofs.Json.Lines
import ConfigLoader.Proofs.Json.Numbers
import ConfigLoader.Proofs.Json.Order
import ConfigLoader.Proofs.Json.Overflow
import ConfigLoader.Proofs.Json.Parsing
import ConfigLoader.Proofs.Json.Printable
import ConfigLoader.Proofs.Json.Printed
import ConfigLoader.Proofs.Json.Texts
import ConfigLoader.Proofs.Loader.Call
import ConfigLoader.Proofs.Loader.Exports
import ConfigLoader.Proofs.Loader.Lifecycle
import ConfigLoader.Proofs.Loader.Outcome
import ConfigLoader.Proofs.Loader.Recovery
import ConfigLoader.Proofs.Loader.Rejections
import ConfigLoader.Proofs.Loader.Results
import ConfigLoader.Proofs.Loader.Serving
import ConfigLoader.Proofs.Loader.Watched
import ConfigLoader.Proofs.Modules.Alike
import ConfigLoader.Proofs.Modules.Closed
import ConfigLoader.Proofs.Modules.Completion
import ConfigLoader.Proofs.Modules.Elsewhere
import ConfigLoader.Proofs.Modules.Events
import ConfigLoader.Proofs.Modules.Memory
import ConfigLoader.Proofs.Modules.Paths
import ConfigLoader.Proofs.Modules.Repeats
import ConfigLoader.Proofs.Modules.Respects
import ConfigLoader.Proofs.Modules.Sources
import ConfigLoader.Proofs.Modules.Steady
import ConfigLoader.Proofs.Modules.Twins
import ConfigLoader.Proofs.Number.Decimals
import ConfigLoader.Proofs.Number.Rounding
import ConfigLoader.Proofs.Number.Shortest
import ConfigLoader.Proofs.Number.Steps
import ConfigLoader.Proofs.Number.Whole
import ConfigLoader.Proofs.Script.Encoding
import ConfigLoader.Proofs.Script.Equality
import ConfigLoader.Proofs.Script.Held
import ConfigLoader.Proofs.Script.Places
import ConfigLoader.Proofs.Service.Plans
import ConfigLoader.Proofs.Settings.Defaults
import ConfigLoader.Proofs.Settings.Documents
import ConfigLoader.Proofs.Settings.Layers
import ConfigLoader.Proofs.Settings.Sections
import ConfigLoader.Proofs.Text.Digits
import ConfigLoader.Proofs.Text.Strings
import ConfigLoader.Proofs.Text.Surrogates
import ConfigLoader.Proofs.Text.Utf8
import ConfigLoader.Proofs.Threads.Alone
import ConfigLoader.Proofs.Threads.Batch
import ConfigLoader.Proofs.Threads.Calls
import ConfigLoader.Proofs.Threads.Custody
import ConfigLoader.Proofs.Threads.Handled
import ConfigLoader.Proofs.Threads.Progress
import ConfigLoader.Proofs.Threads.Slot
import ConfigLoader.Proofs.Threads.Stages
import ConfigLoader.Proofs.Threads.Steps
import ConfigLoader.Proofs.Threads.Watched
import ConfigLoader.Proofs.TypeScript.Coherence
import ConfigLoader.Proofs.TypeScript.Consulted
import ConfigLoader.Proofs.TypeScript.Gate
import ConfigLoader.Proofs.TypeScript.Layers
import ConfigLoader.Proofs.TypeScript.Nearest
import ConfigLoader.Proofs.TypeScript.Projects
import ConfigLoader.Proofs.Value.Cells
import ConfigLoader.Proofs.Value.Chains
import ConfigLoader.Proofs.Value.Filling
import ConfigLoader.Proofs.Value.Fresh
import ConfigLoader.Proofs.Value.InPlace
import ConfigLoader.Proofs.Value.Keys
import ConfigLoader.Proofs.Value.Literals
import ConfigLoader.Proofs.Value.Merge
import ConfigLoader.Proofs.Value.Registers
import ConfigLoader.Proofs.Value.Sharing
import ConfigLoader.Proofs.Worker.Answers
import ConfigLoader.Proofs.Worker.Compilations
import ConfigLoader.Proofs.Worker.Contents
import ConfigLoader.Proofs.Worker.Diagnoses
import ConfigLoader.Proofs.Worker.Evaluations
import ConfigLoader.Proofs.Worker.Eviction
import ConfigLoader.Proofs.Worker.Findings
import ConfigLoader.Proofs.Worker.Frames
import ConfigLoader.Proofs.Worker.Freshness
import ConfigLoader.Proofs.Worker.Greeting
import ConfigLoader.Proofs.Worker.History
import ConfigLoader.Proofs.Worker.Input
import ConfigLoader.Proofs.Worker.Journal
import ConfigLoader.Proofs.Worker.Protocol
import ConfigLoader.Proofs.Worker.Ready
import ConfigLoader.Proofs.Worker.Refusals
import ConfigLoader.Proofs.Worker.Requests
import ConfigLoader.Proofs.Worker.Sources
import ConfigLoader.Proofs.Yaml.Building
import ConfigLoader.Proofs.Yaml.Scalars
import ConfigLoader.Script.Build
import ConfigLoader.Script.Display
import ConfigLoader.Script.Encoding
import ConfigLoader.Script.Item
import ConfigLoader.Script.Program
import ConfigLoader.Script.Time
import ConfigLoader.Service.Script
import ConfigLoader.Settings
import ConfigLoader.Settings.Section
import ConfigLoader.Settings.Shared
import ConfigLoader.Text
import ConfigLoader.Text.Blank
import ConfigLoader.Text.Cased
import ConfigLoader.Text.LowerCase
import ConfigLoader.Text.Printable
import ConfigLoader.Text.Similar
import ConfigLoader.Text.Utf8
import ConfigLoader.TypeScript
import ConfigLoader.TypeScript.Options
import ConfigLoader.TypeScript.Pipeline
import ConfigLoader.TypeScript.Scripted
import ConfigLoader.Validation
import ConfigLoader.Validation.Problem
import ConfigLoader.Value
import ConfigLoader.Value.Literal
import ConfigLoader.Value.Store
import ConfigLoader.Worker
import ConfigLoader.Yaml.Document
import ConfigLoader.Yaml.Event
import ConfigLoader.Yaml.Mark
import ConfigLoader.Yaml.Node
import ConfigLoader.Yaml.Scalar
import ConfigLoader.Yaml.Source
import ConfigLoader.Yaml.Tag
import ConfigLoader.Yaml.Token
import ConfigLoader.Yaml.Token.Scalar
import ConfigLoader.Yaml.Token.Stream
import ConfigLoader.Yaml.Token.Tag
