import ForgeQueue.Base.Run
import ForgeQueue.Base.Keyed
import ForgeQueue.Base.Job
import ForgeQueue.Base.Text
import ForgeQueue.Base.Double
import ForgeQueue.Model.Task
import ForgeQueue.Model.JsonBody
import ForgeQueue.Model.Redis
import ForgeQueue.Model.Engine
import ForgeQueue.Logic.Scripts
import ForgeQueue.Logic.Lifecycle
import ForgeQueue.Theorems.Conservation
import ForgeQueue.Theorems.Fencing
import ForgeQueue.Theorems.RetryBudget
import ForgeQueue.Base.Utf8
import ForgeQueue.Model.Token
import ForgeQueue.Theorems.KeepAlive
import ForgeQueue.Model.Oidc
import ForgeQueue.Model.ClaimsJson
import ForgeQueue.Theorems.SsoPrivileges
import ForgeQueue.Model.Journal
import ForgeQueue.Model.World
import ForgeQueue.Logic.Durable
import ForgeQueue.Logic.Moves
import ForgeQueue.Logic.Pages
import ForgeQueue.Logic.Journaled
import ForgeQueue.Theorems.Durability
import ForgeQueue.Theorems.SingleEnqueue
import ForgeQueue.Theorems.NoRevival
import ForgeQueue.Base.Delay
import ForgeQueue.Logic.Gaps
import ForgeQueue.Theorems.RequeueAtomicity
import ForgeQueue.Model.Sweep
import ForgeQueue.Theorems.OperatorAgreement
import ForgeQueue.Logic.Requests
import ForgeQueue.Theorems.LeaseIndex
import ForgeQueue.Base.Ledger
import ForgeQueue.Theorems.PromoteOnce
import ForgeQueue.Theorems.PurgeAccuracy
import ForgeQueue.Logic.Filed
import ForgeQueue.Theorems.DeleteFinality
import ForgeQueue.Theorems.DueTimes
import ForgeQueue.Theorems.LeaseLength
import ForgeQueue.Model.StateStore
import ForgeQueue.Theorems.OneTimeKeys
import ForgeQueue.Logic.Workers
import ForgeQueue.Theorems.TerminalRows
import ForgeQueue.Logic.Bodies
import ForgeQueue.Theorems.Rebuild
import ForgeQueue.Model.Password
import ForgeQueue.Theorems.LocalTokens
import ForgeQueue.Theorems.BodyIdentity
import ForgeQueue.Theorems.BackoffAgreement
import ForgeQueue.Model.LuaNumbers
import ForgeQueue.Theorems.CorruptBodies
import ForgeQueue.Theorems.OperatorRequeue
import ForgeQueue.Base.History
import ForgeQueue.Model.Batch
import ForgeQueue.Theorems.BatchSettlement
import ForgeQueue.Theorems.LostLeases
import ForgeQueue.Model.Migrate
import ForgeQueue.Theorems.Migration
import ForgeQueue.Model.Returns
import ForgeQueue.Theorems.OpenRedirect
import ForgeQueue.Model.Reply
import ForgeQueue.Theorems.Batching
import ForgeQueue.Base.Arrivals
import ForgeQueue.Theorems.ArrivalOrder
import ForgeQueue.Theorems.DelayLength
import ForgeQueue.Model.Routing
import ForgeQueue.Theorems.FailedEnqueue
import ForgeQueue.Theorems.PagedWalk
import ForgeQueue.Theorems.FullSweep
import ForgeQueue.Theorems.Deletion
import ForgeQueue.Theorems.SsoRoles
import ForgeQueue.Theorems.TokenRoundTrip
import ForgeQueue.Base.Level
import ForgeQueue.Model.RateLimit
import ForgeQueue.Theorems.RateBound
import ForgeQueue.Theorems.SweepUnobservable
import ForgeQueue.Theorems.LimiterMemory
import ForgeQueue.Base.Bins
import ForgeQueue.Model.Throughput
import ForgeQueue.Theorems.ThroughputSeries
import ForgeQueue.Base.Purge
import ForgeQueue.Theorems.LoginIsolation
import ForgeQueue.Base.Eventually
import ForgeQueue.Logic.Paths
import ForgeQueue.Model.Dashboard
import ForgeQueue.Theorems.Depths
import ForgeQueue.Theorems.JobStatus
import ForgeQueue.Theorems.Lives
import ForgeQueue.Theorems.Settling
import ForgeQueue.Model.Access
import ForgeQueue.Model.Accounts
import ForgeQueue.Model.Begin
import ForgeQueue.Model.Registry
import ForgeQueue.Model.Shutdown
import ForgeQueue.Theorems.AccessControl
import ForgeQueue.Theorems.Shutdown
import ForgeQueue.Theorems.SignIn
import ForgeQueue.Theorems.SsoProvenance
import ForgeQueue.Theorems.WorkerListing
import ForgeQueue.Base.Expiry
import ForgeQueue.Model.SsoConfig
import ForgeQueue.Model.TimedLogin
import ForgeQueue.Theorems.KeyExpiry
import ForgeQueue.Theorems.Pause
import ForgeQueue.Theorems.SsoStart
