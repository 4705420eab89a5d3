import Artifacts.Foundation.Buckets
import Artifacts.Foundation.Frames
import Artifacts.Foundation.HashChain
import Artifacts.Foundation.Interleaving
import Artifacts.Foundation.Programs
import Artifacts.Foundation.Reachability
import Artifacts.Foundation.Retry
import Artifacts.Foundation.Runs
import Artifacts.Foundation.Scan
import Artifacts.Foundation.Separators
import Artifacts.Foundation.Tables
import Artifacts.Foundation.TokenBucket
import Artifacts.Foundation.Varint
import Artifacts.Foundation.WebAddress
import Artifacts.Foundation.WebUrl
import Artifacts.Rust.Base64
import Artifacts.Rust.Lines
import Artifacts.Rust.Lossy
import Artifacts.Rust.Net
import Artifacts.PktLine
import Artifacts.PktLine.Framing
import Artifacts.PktLine.Streams
import Artifacts.GitWire.Proto
import Artifacts.GitWire.PushBody
import Artifacts.Refs.Store
import Artifacts.Refs.Listing
import Artifacts.Refs.LooseTree
import Artifacts.Refs.Enumerate
import Artifacts.Refs.HeadAgrees
import Artifacts.Refs.RevParse
import Artifacts.SmartHttp.ReceivePack
import Artifacts.SmartHttp.PushReport
import Artifacts.SmartHttp.PushNames
import Artifacts.SmartHttp.ReportLines
import Artifacts.SmartHttp.UpdateDiscipline
import Artifacts.GitWire.LsRefs
import Artifacts.GitWire.Fetch
import Artifacts.GitWire.OneCommand
import Artifacts.SmartHttp.Dispatch
import Artifacts.Writers.Asks
import Artifacts.Writers.Commits
import Artifacts.Writers.Merge
import Artifacts.Writers.Contract
import Artifacts.Writers.Push
import Artifacts.Writers.Landings
import Artifacts.Writers.SmallGit
import Artifacts.Writers.SideBySide
import Artifacts.Writers.MergeTable
import Artifacts.Writers.BranchNames
import Artifacts.NativePack.Generate
import Artifacts.NativePack.Completeness
import Artifacts.NativePack.Delta
import Artifacts.NativePack.Loose
import Artifacts.NativePack.Entries
import Artifacts.NativePack.Resolve
import Artifacts.NativePack.Varints
import Artifacts.NativePack.DeltaCursor
import Artifacts.NativePack.DeltaFormat
import Artifacts.NativePack.Inflate
import Artifacts.Gc.Network
import Artifacts.Gc.RevList
import Artifacts.Gc.Run
import Artifacts.Gc.Exact
import Artifacts.Gc.Concurrent
import Artifacts.Gc.Keeps
import Artifacts.Audit.Store
import Artifacts.Audit.Chain
import Artifacts.Audit.Tamper
import Artifacts.Tokens
import Artifacts.Tokens.Ledger
import Artifacts.Auth
import Artifacts.RateLimit
import Artifacts.Ownership
import Artifacts.Events
import Artifacts.Webhooks.Registry
import Artifacts.Storage.Links
import Artifacts.Storage.PackedRefs
import Artifacts.Storage.AlternatesCache
import Artifacts.Rest.Repos
import Artifacts.Rest.Credentials
import Artifacts.Rest.Serve
import Artifacts.Rest.Reuse
import Artifacts.Rest.SameId
import Artifacts.Rest.SameIdRuns
import Artifacts.Rest.Cascade
import Artifacts.Rest.Dependents
import Artifacts.Rest.DependentsRuns
import Artifacts.Rest.ListRefs
import Artifacts.Secrets
import Artifacts.Webhooks.Sqlite
import Artifacts.Webhooks.SealedSecrets
import Artifacts.Webhooks.RotationRace
import Artifacts.Rest.WebhookKey
import Artifacts.Webhooks.Worker
import Artifacts.Webhooks.TargetUrl
import Artifacts.PktLine.Streams
import Artifacts.Reads.Diff
import Artifacts.Reads.GitDiff
import Artifacts.Reads.PatchLines
import Artifacts.Reads.Sections
import Artifacts.Reads.ReadBack
import Artifacts.Reads.PlainPaths
import Artifacts.Reads.Attribution
import Artifacts.Foundation.Sorting
import Artifacts.GitWire.SideBands
import Artifacts.Rest.RepoPages
import Artifacts.Foundation.CursorPages
import Artifacts.Gc.Component
import Artifacts.GitCmd.RunGit
import Artifacts.ObjectStores.Agreement
import Artifacts.Reads.CommitLog
import Artifacts.Reads.TreeListing
import Artifacts.Rest.AuditPages
import Artifacts.Rest.CascadePrefixes
import Artifacts.Storage.Faults
import Artifacts.Storage.ForkFaults
import Artifacts.Writers.ConflictReport
import Artifacts.NativePack.PackFormat
import Artifacts.NativePack.Ingest
import Artifacts.NativePack.Receives
import Artifacts.NativePack.Layers
import Artifacts.Gc.Sweep
import Artifacts.Rest.Isolation
import Artifacts.Foundation.Admission
import Artifacts.Rest.Quota
import Artifacts.SmartHttp.Remote
import Artifacts.SmartHttp.RemoteStores
import Artifacts.SmartHttp.PackingGit
import Artifacts.Foundation.Rely
import Artifacts.DbMigrate.Run
import Artifacts.DbMigrate.Progress
import Artifacts.DbMigrate.Convergence
import Artifacts.DbMigrate.Shipped
import Artifacts.DbMigrate.Alone
import Artifacts.NativePack.Delivery
import Artifacts.SmartHttp.Mirror
import Artifacts.Webhooks.Drain
import Artifacts.Webhooks.Registries
