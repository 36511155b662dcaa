import Wordstack.Files.Tree
import Wordstack.Inspect.Activity
import Wordstack.Inspect.Command
import Wordstack.Inspect.Literal
import Wordstack.Inspect.Module
import Wordstack.Inspect.Read
import Wordstack.Json.Write
import Wordstack.Main
import Wordstack.Proofs.Bridge.Frames
import Wordstack.Proofs.Bridge.History
import Wordstack.Proofs.Bridge.Recorded
import Wordstack.Proofs.Bridge.RemoteOutcomes
import Wordstack.Proofs.Bridge.Sequences
import Wordstack.Proofs.Bridge.Starting
import Wordstack.Proofs.Cli.Groups
import Wordstack.Proofs.Config.Precedence
import Wordstack.Proofs.Config.QuotedItems
import Wordstack.Proofs.Fault.Reports
import Wordstack.Proofs.Machine.Redefinition
import Wordstack.Proofs.Machine.SharedRuns
import Wordstack.Proofs.Modules.Additions
import Wordstack.Proofs.Modules.Initialization
import Wordstack.Proofs.Modules.Pending
import Wordstack.Proofs.Modules.Recorded
import Wordstack.Proofs.Modules.RecordedCode
import Wordstack.Proofs.Modules.Scope
import Wordstack.Proofs.Runs.CallChain
import Wordstack.Proofs.Runs.CellRuns
import Wordstack.Proofs.Runs.Compiled
import Wordstack.Proofs.Runs.DefinedWord
import Wordstack.Proofs.Runs.Duplicate
import Wordstack.Proofs.Runs.EarlyBinding
import Wordstack.Proofs.Runs.FaultPlaces
import Wordstack.Proofs.Runs.Interpreted
import Wordstack.Proofs.Runs.Joined
import Wordstack.Proofs.Runs.MemoHistory
import Wordstack.Proofs.Runs.NativeWords
import Wordstack.Proofs.Runs.Printed
import Wordstack.Proofs.Runs.Profiled
import Wordstack.Proofs.Runs.Recovery
import Wordstack.Proofs.Runs.Rest
import Wordstack.Proofs.Runs.SingleWord
import Wordstack.Proofs.Runs.Stops
import Wordstack.Proofs.Runs.Trying
import Wordstack.Proofs.Runs.UnknownWords
import Wordstack.Proofs.Source.Lines
import Wordstack.Proofs.Source.Literals
import Wordstack.Proofs.Source.Printed
import Wordstack.Proofs.Source.Quotes
import Wordstack.Proofs.Source.Reading
import Wordstack.Proofs.Source.Rendering
import Wordstack.Proofs.Value.Display
import Wordstack.Proofs.Value.InProcess
import Wordstack.Proofs.Value.Plain
import Wordstack.Proofs.Wire.Malformed
import Wordstack.Proofs.Wire.Normal
import Wordstack.Proofs.Wire.RoundTrip
import Wordstack.Proofs.Word.Effect
import Wordstack.Source.Render
import Wordstack.Value.Equal
