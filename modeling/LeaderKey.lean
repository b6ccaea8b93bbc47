import LeaderKey.Text.Spans
import LeaderKey.Text.Blank
import LeaderKey.Text.Case
import LeaderKey.Text.Printable
import LeaderKey.Text.Quoted
import LeaderKey.Text.Split
import LeaderKey.Number.Numeral
import LeaderKey.Number.Binary64
import LeaderKey.Value
import LeaderKey.Value.Access
import LeaderKey.Value.Shown
import LeaderKey.Grammar.Fault
import LeaderKey.Grammar.Character
import LeaderKey.Grammar.Gap
import LeaderKey.Grammar.Quote
import LeaderKey.Grammar.Scalar
import LeaderKey.Grammar.KeyPath
import LeaderKey.Grammar.Tree
import LeaderKey.Document
import LeaderKey.Chord
import LeaderKey.Mnemonic
import LeaderKey.Binding
import LeaderKey.Compile
import LeaderKey.Conflict
import LeaderKey.Json
import LeaderKey.Notification
import LeaderKey.ConfigError
import LeaderKey.Event
import LeaderKey.Path
import LeaderKey.FileTree
import LeaderKey.RcFile
import LeaderKey.Reload
import LeaderKey.Session
import LeaderKey.CommandLine.Arguments
import LeaderKey.CommandLine.Run
import LeaderKey.Main
import LeaderKey.Proofs.Compile.Entries
import LeaderKey.Proofs.Session.Store
import LeaderKey.Proofs.Compile.Siblings
import LeaderKey.Proofs.Grammar.Keyed
import LeaderKey.Proofs.Compile.Checks
import LeaderKey.Proofs.Compile.Walk
import LeaderKey.Proofs.Value.Merge
import LeaderKey.Proofs.Grammar.NextLine
import LeaderKey.Proofs.Document.AppendField
import LeaderKey.Proofs.Conflict.Index
import LeaderKey.Proofs.Conflict.Levels
import LeaderKey.Proofs.Binding.Position
import LeaderKey.Proofs.Conflict.Reach
import LeaderKey.Proofs.Document.FaultPlace
import LeaderKey.Proofs.Document.Braces
import LeaderKey.Proofs.Document.Shown
import LeaderKey.Proofs.Document.JsonText
import LeaderKey.Proofs.Binding.Dispatch
import LeaderKey.Proofs.Session.RcFiles
import LeaderKey.Proofs.Compile.Edits
import LeaderKey.Proofs.Document.Comments
import LeaderKey.Proofs.Document.Separators
import LeaderKey.Proofs.Grammar.QuotedText
import LeaderKey.Proofs.Document.DottedKeys
import LeaderKey.Proofs.Document.Verbatim
import LeaderKey.Proofs.Grammar.Parts
import LeaderKey.Proofs.Document.Unsupported
import LeaderKey.Proofs.Text.Case
import LeaderKey.Proofs.Chord.Codes
import LeaderKey.Proofs.Binding.CaseOrder
import LeaderKey.Proofs.Binding.DepthFirst
import LeaderKey.Proofs.Conflict.Calls
import LeaderKey.Proofs.Value.FirstPlaces
import LeaderKey.Proofs.Chord.Modifiers
import LeaderKey.Proofs.Grammar.LineEnds
import LeaderKey.Proofs.Document.LineEnds
import LeaderKey.Proofs.Document.Progress
