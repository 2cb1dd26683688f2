import LocalFiles.Interaction
import LocalFiles.Procedure
import LocalFiles.Directory
import LocalFiles.Utf8
import LocalFiles.Utf16
import LocalFiles.Types
import LocalFiles.QubitBudget
import LocalFiles.Posix
import LocalFiles.Atomic.Install
import LocalFiles.Conditional.Backend
import LocalFiles.Conditional.Commit
import LocalFiles.Conditional.Trace
import LocalFiles.Conditional.Inversion
import LocalFiles.Conditional.Settlement
import LocalFiles.Conditional.Runs
import LocalFiles.Conditional.Soundness
import LocalFiles.Conditional.Discipline
import LocalFiles.Conditional.Durability
import LocalFiles.Conditional.CandidateCopy
import LocalFiles.Conditional.Displaced
import LocalFiles.Conditional.Reason
import LocalFiles.Conditional.Unix
import LocalFiles.Conditional.UnixMethods
import LocalFiles.Conditional.UnixRecovery
import LocalFiles.Conditional.Receipt
import LocalFiles.Atomic.Staging
import LocalFiles.Atomic.Writer
import LocalFiles.Atomic.Parents
import LocalFiles.Atomic.Durability
import LocalFiles.Atomic.ExtendedMetadata
import LocalFiles.Atomic.Preservation
import LocalFiles.Atomic.Interleaving
import LocalFiles.WindowsPathCodec
import LocalFiles.DeleteTree
import LocalFiles.DeleteReach
import LocalFiles.DeleteOrder
import LocalFiles.History
import LocalFiles.Temp.Lifecycle
import LocalFiles.Iteration
import LocalFiles.Walk.Walker
import LocalFiles.Walk.Host
import LocalFiles.Walk.Rooted
import LocalFiles.Walk.Turn
import LocalFiles.Walk.Ends
import LocalFiles.Walk.Bounded
import LocalFiles.Walk.HandleLimit
import LocalFiles.Walk.Resolution
import LocalFiles.Walk.Tree
import LocalFiles.Walk.Agreement
import LocalFiles.Loop
import LocalFiles.NativePath
import LocalFiles.Rooted.Session
import LocalFiles.Rooted.StaticTree
import LocalFiles.Rooted.Symlinks
import LocalFiles.Rooted.Position
import LocalFiles.Rooted.Termination
import LocalFiles.Rooted.Cycle
import LocalFiles.Rooted.Chroot
import LocalFiles.Rooted.FastPath
import LocalFiles.Rooted.Link
import LocalFiles.Contract
import LocalFiles.Walk.Listing
import LocalFiles.Staged.Cleanup
import LocalFiles.Staged.Removal
import LocalFiles.DeleteReport
import LocalFiles.Streams
import LocalFiles.CopyBudget
import LocalFiles.ObservedReader
import LocalFiles.Path.Resolver
import LocalFiles.Path.Canonical
import LocalFiles.Rooted.Accounting
import LocalFiles.Pieces
import LocalFiles.Path.Windows
import LocalFiles.Path.WindowsComponents
import LocalFiles.Path.WindowsResolver
import LocalFiles.Rooted.WindowsTokens
import LocalFiles.LittleEndian
import LocalFiles.Reparse.Record
import LocalFiles.Reparse.Reading
import LocalFiles.Reparse.RoundTrip
import LocalFiles.Private.Native
import LocalFiles.Private.Temp
import LocalFiles.Private.World
import LocalFiles.Private.Handover
import LocalFiles.Private.Recovery
import LocalFiles.Writer.FileWriter
import LocalFiles.Staged.Write
import LocalFiles.Staged.Stage
import LocalFiles.Staged.Blocks
import LocalFiles.Staged.Ordinary
import LocalFiles.Staged.Exclusive
import LocalFiles.Staged.Smooth
import LocalFiles.Staged.AllOrNothing
import LocalFiles.Lifetime
import LocalFiles.Writer.Sessions
import LocalFiles.Writer.FileSessions
import LocalFiles.Writer.ConditionalWriter
import LocalFiles.Writer.ConditionalSessions
import LocalFiles.TreeCopy.Report
import LocalFiles.TreeCopy.Scheduler
import LocalFiles.TreeCopy.Host
import LocalFiles.TreeCopy.HostLedger
import LocalFiles.TreeCopy.HostHistory
import LocalFiles.TreeCopy.HostMirror
import LocalFiles.Delivery
import LocalFiles.Overlay
import LocalFiles.TreeCopy.HostWorld
import LocalFiles.TreeCopy.HostEntries
import LocalFiles.TreeCopy.HostMerge
import LocalFiles.TreeCopy.Ledger
