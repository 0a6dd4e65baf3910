import SandboxPool.Decimal.Shortest
import SandboxPool.Json.Decode
import SandboxPool.Json.Printer
import SandboxPool.Text.Lower
import SandboxPool.Text.Percent
import SandboxPool.Text.Integer
import SandboxPool.Text.Blank
import SandboxPool.Time.Duration
import SandboxPool.Uuid
import SandboxPool.Config
import SandboxPool.Container.Spec
import SandboxPool.Event
import SandboxPool.Broadcast
import SandboxPool.Cli.Settings
import SandboxPool.Docker.Request
import SandboxPool.Docker.Answer
import SandboxPool.BlockService
import SandboxPool.Health
import SandboxPool.Pool.Stats
import SandboxPool.Pool.Process
import SandboxPool.Pool.Acquire
import SandboxPool.Pool.Release
import SandboxPool.Pool.Batch
import SandboxPool.Execution.Basic
import SandboxPool.Machine
import SandboxPool.Simulation
import SandboxPool.Script
import SandboxPool.Main
import SandboxPool.Proofs.Machine.Turns
import SandboxPool.Proofs.Machine.Posts
import SandboxPool.Proofs.Machine.History
import SandboxPool.Proofs.Ports
import SandboxPool.Proofs.Pool.Records
import SandboxPool.Proofs.Pool.Hands
import SandboxPool.Proofs.Pool.Acts
import SandboxPool.Proofs.Machine.Hands
import SandboxPool.Proofs.Pool.Cap
import SandboxPool.Proofs.Pool.Identities
import SandboxPool.Proofs.Pool.Claims
import SandboxPool.Proofs.Pool.PortUse
import SandboxPool.Proofs.Pool.Containers
import SandboxPool.Proofs.Pool.Owners
import SandboxPool.Proofs.Machine.Books
import SandboxPool.Proofs.WithinCap
import SandboxPool.Proofs.PortAccounting
import SandboxPool.Proofs.Machine.Holders
import SandboxPool.Proofs.Ownership
import SandboxPool.Proofs.Machine.Endings
import SandboxPool.Proofs.Machine.Acquisitions
import SandboxPool.Proofs.FailedWake
import SandboxPool.Proofs.Machine.Teams
import SandboxPool.Proofs.Machine.Course
import SandboxPool.Proofs.Teardown
import SandboxPool.Proofs.Machine.Events
import SandboxPool.Proofs.TerminatedOnce
import SandboxPool.Proofs.Machine.Promises
import SandboxPool.Proofs.Execution.Results
import SandboxPool.Proofs.Execution.Lanes
import SandboxPool.Proofs.ReportAccounts
import SandboxPool.Proofs.Machine.Models
import SandboxPool.Proofs.Pool.FirstStates
import SandboxPool.Proofs.Machine.Gate
import SandboxPool.Proofs.HandedOut
import SandboxPool.Proofs.Pool.Claimants
import SandboxPool.Proofs.Settled
import SandboxPool.Proofs.Execution.Strides
import SandboxPool.Proofs.Execution.Laps
import SandboxPool.Proofs.StatusAgrees
import SandboxPool.Proofs.Execution.Clearing
import SandboxPool.Proofs.StickyAbort
import SandboxPool.Proofs.Execution.Users
import SandboxPool.Proofs.Execution.Bystanders
import SandboxPool.Proofs.NoLeak
import SandboxPool.Proofs.Pool.Ticks
import SandboxPool.Proofs.Pool.Timers
import SandboxPool.Proofs.Machine.Alarms
import SandboxPool.Proofs.Dormancy
import SandboxPool.Proofs.Parking
import SandboxPool.Proofs.Machine.Creations
import SandboxPool.Proofs.Orphans
import SandboxPool.Proofs.Machine.Refusals
import SandboxPool.Proofs.Machine.Borrowers
import SandboxPool.Proofs.Machine.Outstanding
import SandboxPool.Proofs.Machine.Vacancies
import SandboxPool.Proofs.Exhaustion
import SandboxPool.Proofs.Pool.Coherence
import SandboxPool.Proofs.Coherence
import SandboxPool.Proofs.Pool.Passages
import SandboxPool.Proofs.Transitions
import SandboxPool.Proofs.Machine.Tenders
import SandboxPool.Proofs.Machine.Probes
import SandboxPool.Proofs.Pool.Tallies
import SandboxPool.Proofs.SharedCounts
import SandboxPool.Proofs.Pool.Wakers
import SandboxPool.Proofs.Machine.Calls
import SandboxPool.Proofs.Machine.Custody
import SandboxPool.Proofs.Machine.Upkeep
import SandboxPool.Proofs.Machine.Stages
import SandboxPool.Proofs.CallProtocol
import SandboxPool.Proofs.Machine.Upshots
import SandboxPool.Proofs.AcquireErrors
import SandboxPool.Proofs.CountedOnce
import SandboxPool.Proofs.Machine.Entrances
import SandboxPool.Proofs.Machine.Standstill
import SandboxPool.Proofs.Pool.Crews
import SandboxPool.Proofs.Machine.Prewarming
import SandboxPool.Proofs.PrewarmExact
import SandboxPool.Proofs.Execution.Discipline
import SandboxPool.Proofs.Execution.Trails
import SandboxPool.Proofs.Execution.Runners
import SandboxPool.Proofs.LaneBarrier
import SandboxPool.Proofs.PortAllocation
import SandboxPool.Proofs.PortReuse
import SandboxPool.Proofs.Text.Digits
import SandboxPool.Proofs.Decimal.Intervals
import SandboxPool.Proofs.Json.Quoted
import SandboxPool.Proofs.Json.Numerals
import SandboxPool.Proofs.Json.Layout
import SandboxPool.Proofs.Json.Numbers
import SandboxPool.Proofs.Json.ReadBack
import SandboxPool.Proofs.Json.Values
import SandboxPool.Proofs.Json.Records
import SandboxPool.Proofs.Json.OneLine
import SandboxPool.Proofs.Uuid
import SandboxPool.Proofs.PlanCodec
import SandboxPool.Proofs.ReportCodec
import SandboxPool.Proofs.EventLines
import SandboxPool.Proofs.WaitHealthy
import SandboxPool.Proofs.Text.Percent
import SandboxPool.Proofs.Endpoints
import SandboxPool.Proofs.Execution.Losses
import SandboxPool.Proofs.JoinErrors
import SandboxPool.Proofs.Machine.Frames
import SandboxPool.Proofs.Machine.Carried
import SandboxPool.Proofs.Execution.Regrouped
import SandboxPool.Proofs.Execution.Twins
import SandboxPool.Proofs.Machine.Outcomes
import SandboxPool.Proofs.LaneKinds
