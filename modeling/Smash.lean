import Smash.Lib.LiveArray
import Smash.Lib.Scan
import Smash.Lib.Transition
import Smash.Lib.Unfold
import Smash.Lib.Roster
import Smash.Lib.Inheritance
import Smash.Lib.Probe
import Smash.Lib.Saturate
import Smash.Lib.Cascade
import Smash.Model.Types
import Smash.Model.Trace
import Smash.Model.Primitives
import Smash.Model.Engine
import Smash.Model.Spec
import Smash.Model.State
import Smash.Model.Dpor
import Smash.Model.Explorer
import Smash.Proof.Runs
import Smash.Proof.Step
import Smash.Proof.Moves
import Smash.Proof.Waiting
import Smash.Proof.Owning
import Smash.Proof.Priority
import Smash.Proof.Timeouts
import Smash.Proof.Walk
import Smash.Proof.Visits
import Smash.Proof.Replay
import Smash.Proof.Plain
import Smash.Proof.Exhaustive
import Smash.Proof.Deadlock
import Smash.Proof.Table
import Smash.Proof.Caching
import Smash.Proof.Forcing
import Smash.Proof.Dpor
import Smash.Proof.Progress
import Smash.Proof.Tokens
import Smash.Lib.RingBuffer
import Smash.Proof.Mailbox
import Smash.Proof.Wakeups
import Smash.Proof.Destroyed
import Smash.Proof.Context
import Smash.Model.Accesses
import Smash.Proof.Condvar
import Smash.Proof.Bounds
import Smash.Lib.CycleSearch
import Smash.Proof.CircularWait
import Smash.Proof.LockOrder
import Smash.Proof.Sources
import Smash.Proof.Edits
import Smash.Proof.Commute
import Smash.Model.Minimize
import Smash.Lib.DeltaDebug
import Smash.Proof.Minimize
import Smash.Proof.Release
import Smash.Proof.Grants
import Smash.Model.Smt
import Smash.Lib.OrderConstraints
import Smash.Proof.Constraints
import Smash.Proof.Completion
import Smash.Proof.SmtExport
import Smash.Model.SymEngine
import Smash.Lib.ExchangeSort
import Smash.Proof.SymEngine
import Smash.Proof.Prefix
import Smash.Proof.Atomic
import Smash.Proof.Snapshot
import Smash.Proof.Persistent
import Smash.Proof.SleepSets
import Smash.Proof.Depth
import Smash.Proof.Termination
import Smash.Proof.Events
import Smash.Proof.Recorded
import Smash.Proof.SelfConsistent
import Smash.Model.Viz
import Smash.Model.Dump
import Smash.Lib.Json
import Smash.Proof.Visualize
import Smash.Model.Stack32
import Smash.Proof.StackDepth
import Smash.Proof.Truthful
import Smash.Proof.History
import Smash.Proof.SameState
import Smash.Lib.Packed
import Smash.Proof.Hashed
import Smash.Proof.Boost
import Smash.Proof.Backtrack
import Smash.Proof.Cuts
import Smash.Proof.Thinned
import Smash.Proof.FirstBug
import Smash.Proof.Accounts
import Smash.Model.Analyze
import Smash.Lib.Holding
import Smash.Proof.Expiry
import Smash.Proof.LockHistory
import Smash.Proof.Analyze
import Smash.Proof.Encoders
import Smash.Model.Diagnostics
import Smash.Lib.CString
import Smash.Proof.Diagnostics
import Smash.Proof.Chronology
import Smash.Proof.Dumped
import Smash.Lib.SmtScript
import Smash.Lib.SExpr
import Smash.Proof.SmtText
import Smash.Proof.Trimmed
import Smash.Proof.Relabel
import Smash.Proof.Revisits
import Smash.Proof.RelabelSearch
import Smash.Lib.DepthFirst
import Smash.Lib.Exchange
import Smash.Proof.Chronicle
import Smash.Proof.Selection
import Smash.Proof.Awake
import Smash.Proof.Reduction
import Smash.Lib.Scale
