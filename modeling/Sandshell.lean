import Sandshell.Arithmetic
import Sandshell.Bundle.Basic
import Sandshell.Bundle.Bridge
import Sandshell.Bundle.Snapshot
import Sandshell.Guest.Call.Path
import Sandshell.Guest.Call.Process
import Sandshell.Guest.Call.Stat
import Sandshell.Guest.Call.Stream
import Sandshell.Guest.Error
import Sandshell.Guest.Descriptor
import Sandshell.Guest.Engine
import Sandshell.Guest.Errno
import Sandshell.Guest.Files
import Sandshell.Guest.Memory
import Sandshell.Guest.Mount
import Sandshell.Guest.Program
import Sandshell.Guest.State
import Sandshell.Guest.SystemCall
import Sandshell.Output
import Sandshell.Path
import Sandshell.Pattern.CharSet
import Sandshell.Pattern.Regex
import Sandshell.Pattern.Regex.Error
import Sandshell.Pattern.Regex.Node
import Sandshell.Pattern.Regex.Read
import Sandshell.Pattern.Wildcard
import Sandshell.Proofs.Bundle.Bridge
import Sandshell.Proofs.Bundle.Inside
import Sandshell.Proofs.Bundle.Mounted
import Sandshell.Proofs.Bundle.Output
import Sandshell.Proofs.Bundle.Snapshot
import Sandshell.Proofs.Bundle.Terms
import Sandshell.Proofs.Bundle.View
import Sandshell.Proofs.Bundle.WriteBack
import Sandshell.Proofs.Guest.Answer
import Sandshell.Proofs.Guest.Buffers
import Sandshell.Proofs.Guest.Ceilings
import Sandshell.Proofs.Guest.Change
import Sandshell.Proofs.Guest.Confinement
import Sandshell.Proofs.Guest.Cursors
import Sandshell.Proofs.Guest.Descriptor
import Sandshell.Proofs.Guest.Directories
import Sandshell.Proofs.Guest.Dirent
import Sandshell.Proofs.Guest.Enumeration
import Sandshell.Proofs.Guest.FileCalls
import Sandshell.Proofs.Guest.Files
import Sandshell.Proofs.Guest.Frame
import Sandshell.Proofs.Guest.Isolation
import Sandshell.Proofs.Guest.Listing
import Sandshell.Proofs.Guest.Memory
import Sandshell.Proofs.Guest.Mount
import Sandshell.Proofs.Guest.Numbering
import Sandshell.Proofs.Guest.Offsets
import Sandshell.Proofs.Guest.Reach
import Sandshell.Proofs.Guest.Remaking
import Sandshell.Proofs.Guest.Result
import Sandshell.Proofs.Guest.Run
import Sandshell.Proofs.Guest.Soundness
import Sandshell.Proofs.Guest.Streams
import Sandshell.Proofs.Guest.Twin
import Sandshell.Proofs.Keeps
import Sandshell.Proofs.Law
import Sandshell.Proofs.Path.Below
import Sandshell.Proofs.Path.Descent
import Sandshell.Proofs.Path.Inside
import Sandshell.Proofs.Path.Segments
import Sandshell.Proofs.Script.Characters
import Sandshell.Proofs.Script.Extent
import Sandshell.Proofs.Script.Grammar
import Sandshell.Proofs.Script.Moves
import Sandshell.Proofs.Script.Openings
import Sandshell.Proofs.Script.Readers
import Sandshell.Proofs.Script.Reading
import Sandshell.Proofs.Script.Rendering
import Sandshell.Proofs.Script.Scan
import Sandshell.Proofs.Shell.Agreement
import Sandshell.Proofs.Shell.Diagnostics
import Sandshell.Proofs.Shell.Effects
import Sandshell.Proofs.Shell.Expansion
import Sandshell.Proofs.Shell.Ending
import Sandshell.Proofs.Shell.Fault
import Sandshell.Proofs.Shell.Fields
import Sandshell.Proofs.Shell.Frame
import Sandshell.Proofs.Shell.Limits
import Sandshell.Proofs.Shell.Nesting
import Sandshell.Proofs.Shell.Orderly
import Sandshell.Proofs.Shell.Quoting
import Sandshell.Proofs.Shell.Sequencing
import Sandshell.Proofs.Shell.Simple
import Sandshell.Proofs.Shell.Substitution
import Sandshell.Proofs.Shell.Variables
import Sandshell.Proofs.Shell.Visit
import Sandshell.Proofs.Step
import Sandshell.Proofs.Text.Utf8
import Sandshell.Proofs.Tree.Agreement
import Sandshell.Proofs.Tree.Directories
import Sandshell.Proofs.Tree.Entries
import Sandshell.Proofs.Tree.FileSet
import Sandshell.Proofs.Tree.History
import Sandshell.Proofs.Tree.Keys
import Sandshell.Proofs.Tree.Update
import Sandshell.Proofs.Workspace.Calls
import Sandshell.Proofs.Workspace.Containment
import Sandshell.Proofs.Workspace.Host
import Sandshell.Proofs.Workspace.Location
import Sandshell.Proofs.Workspace.Mirror
import Sandshell.Proofs.Workspace.Terms
import Sandshell.Proofs.Workspace.Twin
import Sandshell.Script.Form
import Sandshell.Script.Parse
import Sandshell.Script.Token
import Sandshell.Script.Token.Scan
import Sandshell.Script.Tree
import Sandshell.Script.Word
import Sandshell.Shell.Builtin
import Sandshell.Shell.Builtin.Condition
import Sandshell.Shell.Builtin.Variables
import Sandshell.Shell.Delegate
import Sandshell.Shell.Expansion
import Sandshell.Shell.Expansion.Field
import Sandshell.Shell.Expansion.Glob
import Sandshell.Shell.Expansion.Piece
import Sandshell.Shell.Lookup
import Sandshell.Shell.Routing
import Sandshell.Shell.Run
import Sandshell.Shell.Session
import Sandshell.Shell.State
import Sandshell.Text.Alphabetic
import Sandshell.Text.Ranges
import Sandshell.Text.Number
import Sandshell.Text.Printable
import Sandshell.Text.Split
import Sandshell.Text.Utf8
import Sandshell.Time.Calendar
import Sandshell.Time.Format
import Sandshell.Tool.Basic
import Sandshell.Tool.Call
import Sandshell.Utility.Basic
import Sandshell.Utility.Cat
import Sandshell.Utility.Ls
import Sandshell.Utility.Printf
import Sandshell.Utility.Run
import Sandshell.Utility.Search
import Sandshell.Utility.Search.Lines
import Sandshell.Utility.Search.Options
import Sandshell.Utility.System
import Sandshell.Wire.Codec
import Sandshell.Wire.Decimal
import Sandshell.Wire.Decode
import Sandshell.Wire.Print
import Sandshell.Wire.Read
import Sandshell.Wire.Value
import Sandshell.Workspace.Basic
import Sandshell.Workspace.Host
import Sandshell.Workspace.Rooted
import Sandshell.Workspace.Traced
import Sandshell.Workspace.Tree
import Sandshell.Workspace.Walk
import Sandshell.Proofs.Script.DoubleQuotes
import Sandshell.Proofs.Shell.Parameters
import Sandshell.Proofs.Shell.Values
import Sandshell.Proofs.Shell.Defaults
import Sandshell.Proofs.Shell.Redirections
import Sandshell.Proofs.Tree.Answers
import Sandshell.Proofs.Tree.Changes
import Sandshell.Proofs.Workspace.Walk
import Sandshell.Proofs.Path.Ways
import Sandshell.Proofs.Utility.Collect
import Sandshell.Proofs.Workspace.Exploration
import Sandshell.Proofs.Tree.Passages
import Sandshell.Proofs.Utility.Termination
import Sandshell.Proofs.Guest.Opening
import Sandshell.Proofs.Guest.EmptyWrites
import Sandshell.Proofs.Guest.Texts
import Sandshell.Proofs.Path.Resolvers
import Sandshell.Proofs.Pattern.Wildcard
import Sandshell.Proofs.Shell.Walks
import Sandshell.Proofs.Shell.Globbing
import Sandshell.Proofs.Shell.StarRuns
import Sandshell.Proofs.Shell.Comparisons
import Sandshell.Proofs.Utility.Printf
import Sandshell.Proofs.Utility.Search.Options
import Sandshell.Proofs.Utility.Search.Targets
import Sandshell.Proofs.Utility.Search.Reports
import Sandshell.Proofs.Utility.Search.Lines
import Sandshell.Proofs.Utility.Search.Status
import Sandshell.Proofs.Utility.Search.Counts
import Sandshell.Proofs.Guest.Climbing
import Sandshell.Proofs.Wire.RoundTrip
import Sandshell.Proofs.Shell.Extents
import Sandshell.Proofs.Guest.Footprint
