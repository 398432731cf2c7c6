import Amplihack.Base.Dict
import Amplihack.Base.Runs
import Amplihack.Base.Caps
import Amplihack.Base.Numbers
import Amplihack.Base.Json.Text
import Amplihack.Base.Json.RoundTrip
import Amplihack.Base.Json.Record
import Amplihack.SessionTree.Operations
import Amplihack.SessionTree.Budget
import Amplihack.SessionTree.Ceiling
import Amplihack.SessionTree.Retention
import Amplihack.Rotate.Decide
import Amplihack.Rotate.Overflow
import Amplihack.Base.FirstBy
import Amplihack.Base.Descent
import Amplihack.Base.Calendar
import Amplihack.Rotate.LastResort
import Amplihack.Rotate.Fleet
import Amplihack.Rotate.NoLoop
import Amplihack.Rotate.Ledger
import Amplihack.Rotate.LedgerUpdates
import Amplihack.Rotate.UpdatesSound
import Amplihack.Rotate.Reload
import Amplihack.Base.JoinMap
import Amplihack.Base.Replicas
import Amplihack.Crdt.Convergence
import Amplihack.Crdt.Counters
import Amplihack.Crdt.LWWRegister
import Amplihack.Base.Program
import Amplihack.Lease.Handle
import Amplihack.Lease.Contract
import Amplihack.Lease.System
import Amplihack.Lease.Exclusion
import Amplihack.Governor.Model
import Amplihack.Governor.Fairness
import Amplihack.Governor.Files
import Amplihack.Governor.Policy
import Amplihack.Governor.Round
import Amplihack.Governor.System
import Amplihack.Governor.Cap
import Amplihack.AutoSwitch.Candidate
import Amplihack.AutoSwitch.LastResort
import Amplihack.AutoSwitch.Precheck
import Amplihack.AutoSwitch.Agreement
import Amplihack.Governor.Saved
import Amplihack.Governor.SelfConsistent
import Amplihack.Base.Moves
import Amplihack.AutoSwitch.Transfer
import Amplihack.AutoSwitch.Settled
import Amplihack.AutoSwitch.CrashSafe
import Amplihack.AutoSwitch.Recovery
import Amplihack.AutoSwitch.LoginRuns
import Amplihack.Base.OrderedMap
import Amplihack.Usage.Manifest
import Amplihack.Base.Ancestry
import Amplihack.Usage.Aggregate
import Amplihack.Usage.Conservation
import Amplihack.Usage.Copies
import Amplihack.Usage.Gathered
import Amplihack.Usage.Booked
import Amplihack.Usage.OrderFree
import Amplihack.Base.Search
import Amplihack.Recipe.FailureClass
import Amplihack.Recipe.Evidence
import Amplihack.Recipe.Retried
import Amplihack.LimitResume.System
import Amplihack.LimitResume.Commit
import Amplihack.LimitResume.OneWake
import Amplihack.AutoSwitch.Rerun
import Amplihack.AutoSwitch.RerunRounds
import Amplihack.AutoSwitch.RerunOnce
import Amplihack.Base.Sweep
import Amplihack.Multitask.Workstream
import Amplihack.Multitask.State
import Amplihack.Multitask.Orchestrator
import Amplihack.Multitask.Accounts
import Amplihack.Remote.VmPool
import Amplihack.Remote.PoolAccounts
import Amplihack.Remote.Processes
import Amplihack.Remote.Updates
import Amplihack.Admiral.Reason
import Amplihack.Admiral.Due
import Amplihack.Admiral.Consistency
import Amplihack.Agent.Entry
import Amplihack.Agent.Store
import Amplihack.Agent.Writers
import Amplihack.Agent.Invariant
import Amplihack.Agent.Keeps
import Amplihack.Agent.Supervisor
import Amplihack.Agent.Carried
import Amplihack.Agent.Moves
import Amplihack.Agent.Accounts
import Amplihack.Agent.Counted
import Amplihack.Agent.Launches
import Amplihack.Agent.Records
import Amplihack.Agent.Limit
import Amplihack.Artifact.Scan
import Amplihack.Artifact.Removal
import Amplihack.Artifact.Safety
import Amplihack.Cleanup.Eligibility
import Amplihack.Cleanup.Collected
import Amplihack.Cleanup.Owners
import Amplihack.Base.Utf8
import Amplihack.Memory.Backend
import Amplihack.Memory.Laws
import Amplihack.Memory.Agreement
import Amplihack.Memory.Sessions
import Amplihack.Graph.InMemory
import Amplihack.Graph.Replication
import Amplihack.Graph.Writes
import Amplihack.Base.Gossip
import Amplihack.Graph.HashRing
import Amplihack.Graph.Sharded
import Amplihack.Graph.Histories
import Amplihack.Graph.Spread
import Amplihack.Graph.Converged
import Amplihack.Orchestration.Process
import Amplihack.Orchestration.Credit
import Amplihack.Orchestration.NVersion
import Amplihack.Stop.Tree
import Amplihack.Stop.Safety
import Amplihack.Hive.Routing
import Amplihack.Hive.Shard
import Amplihack.Hive.Graph
import Amplihack.Hive.Kept
import Amplihack.Admiral.Processes
import Amplihack.Admiral.Statuses
import Amplihack.Admiral.Updates
import Amplihack.Identity.Parsers
import Amplihack.Identity.Paths
import Amplihack.Identity.Spelling
import Amplihack.Identity.Agreement
import Amplihack.Hive.Merge
import Amplihack.Hive.Remembered
import Amplihack.Base.TopMerge
import Amplihack.Hive.Query
import Amplihack.Hive.Answers
import Amplihack.Hive.HashRing
import Amplihack.Hive.Clockwise
import Amplihack.Governor.Exact
import Amplihack.Governor.Hold
import Amplihack.Governor.Monotone
import Amplihack.Lease.Slug
import Amplihack.Rotate.Gate
import Amplihack.Rotate.GateSettles
import Amplihack.Memory.Listing
import Amplihack.Memory.Interface
import Amplihack.Memory.SameAnswers
import Amplihack.Hive.BloomFilter
import Amplihack.LimitWait.Plan
import Amplihack.LimitWait.Wait
import Amplihack.Usage.Highwater
import Amplihack.Base.Json.Compact
import Amplihack.Profile.History
import Amplihack.Base.Greedy
import Amplihack.Recipe.ContextEnv
import Amplihack.IssueDedup.Markers
import Amplihack.IssueDedup.Separate
import Amplihack.Base.Loop
import Amplihack.Shell.Cursor
import Amplihack.Shell.Tokenise
import Amplihack.Shell.Program
import Amplihack.TailFollow.Substitutions
import Amplihack.TailFollow.Argv
import Amplihack.TailFollow.Agreement
import Amplihack.TailFollow.Lockstep
import Amplihack.TailFollow.Scanners
import Amplihack.TailFollow.Guard
import Amplihack.TmuxGuard.Invocation
import Amplihack.TmuxGuard.Scan
import Amplihack.Cleanup.Pruned
import Amplihack.Remote.SessionLife
import Amplihack.Base.Glob
import Amplihack.Artifact.Allowlist
import Amplihack.ClaudeMd.Kept
import Amplihack.Install.Hooks
import Amplihack.Install.Members
import Amplihack.Install.Registered
import Amplihack.Install.Separable
import Amplihack.Admiral.Capacity
import Amplihack.Orchestration.Selection
import Amplihack.Orchestration.Sections
import Amplihack.Defensive.Answer
import Amplihack.Defensive.Found
import Amplihack.LimitReset.Fragment
import Amplihack.LimitReset.Instant
import Amplihack.Base.LittleEndian
import Amplihack.Memory.BloomFilter
import Amplihack.Recipe.TransientRetry
import Amplihack.Memory.Quality
import Amplihack.Memory.Coordinator
import Amplihack.Memory.Retrieval
import Amplihack.Hive.EventBus
import Amplihack.Hive.Controller
import Amplihack.Hive.Retraction
import Amplihack.Memory.Export
import Amplihack.Agent.CommandLine
import Amplihack.State.Counter
