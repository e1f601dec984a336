import ScriptMailbox.Main
import ScriptMailbox.World.Run
import ScriptMailbox.Stage
import ScriptMailbox.Proofs.Text.Calm
import ScriptMailbox.Proofs.Document.Closing
import ScriptMailbox.Proofs.Document.Cuts
import ScriptMailbox.Proofs.Document.RoundTrip
import ScriptMailbox.Proofs.Document.Engine
import ScriptMailbox.Proofs.Document.Truncation
import ScriptMailbox.Proofs.Disk.Changes
import ScriptMailbox.Proofs.Mailbox.Transcripts
import ScriptMailbox.Proofs.Mailbox.Exits
import ScriptMailbox.Proofs.Mailbox.Replies
import ScriptMailbox.Proofs.Mailbox.RequestLog
import ScriptMailbox.Proofs.Mailbox.Dialogue
import ScriptMailbox.Proofs.Mailbox.Agreement
import ScriptMailbox.Proofs.Source.Locating
import ScriptMailbox.Proofs.Source.Nesting
import ScriptMailbox.Proofs.Source.Kinds
import ScriptMailbox.Proofs.Source.Splicing
import ScriptMailbox.Proofs.Source.Editing
import ScriptMailbox.Proofs.Disk.Spellings
import ScriptMailbox.Proofs.Source.Copies
import ScriptMailbox.Proofs.Source.Patching
import ScriptMailbox.Desk
import ScriptMailbox.Proofs.Program.Permits
import ScriptMailbox.Proofs.Program.Parts
import ScriptMailbox.Proofs.Arguments.Accepted
import ScriptMailbox.Proofs.Disk.Ways
import ScriptMailbox.Proofs.Program.Footprint
import ScriptMailbox.Proofs.Program.FinalSweep
import ScriptMailbox.Proofs.Program.Leavings
import ScriptMailbox.Proofs.Console.Serving
import ScriptMailbox.Proofs.Source.Commuting
import ScriptMailbox.Proofs.Console.Appending
import ScriptMailbox.Proofs.Console.Rejecting
import ScriptMailbox.Proofs.Console.Terminals
import ScriptMailbox.Proofs.Console.Commands
import ScriptMailbox.Proofs.Console.CallingOff
import ScriptMailbox.Proofs.Source.Enclosing
import ScriptMailbox.Proofs.Source.Mentions
import ScriptMailbox.Proofs.Source.Depths
import ScriptMailbox.Proofs.Source.Families
import ScriptMailbox.Proofs.Source.Layouts
import ScriptMailbox.Proofs.Source.Naming
import ScriptMailbox.Proofs.Source.Searching
import ScriptMailbox.Proofs.Source.Transactions
import ScriptMailbox.Duet
import ScriptMailbox.Proofs.Mailbox.Clearing
import ScriptMailbox.Proofs.Program.StaleFiles
import ScriptMailbox.Proofs.Program.Answers
import ScriptMailbox.Proofs.Console.Retaining
import ScriptMailbox.Proofs.Program.Restarting
import ScriptMailbox.Proofs.Text.Ends
import ScriptMailbox.Proofs.Console.Grammar
import ScriptMailbox.Proofs.Disk.Branches
import ScriptMailbox.Proofs.Program.Cleaning
import ScriptMailbox.Proofs.Source.Loading
import ScriptMailbox.Proofs.Console.Announcing
import ScriptMailbox.Proofs.Document.Counts
import ScriptMailbox.Proofs.Text.Json
import ScriptMailbox.Proofs.Report.Lines
import ScriptMailbox.Proofs.Report.Places
import ScriptMailbox.Proofs.Program.Janitors
import ScriptMailbox.Proofs.Arguments.Choices
import ScriptMailbox.Proofs.Program.Requests
import ScriptMailbox.Proofs.Mailbox.Paths
