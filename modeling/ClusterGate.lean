import ClusterGate.Main
import ClusterGate.Patch.Apply
import ClusterGate.Session.Run
import ClusterGate.Proofs.Dict
import ClusterGate.Proofs.Json.Ordered
import ClusterGate.Proofs.Json.Pointer
import ClusterGate.Proofs.Json.Same
import ClusterGate.Proofs.Patch.RoundTrip
import ClusterGate.Proofs.Patch.Under
import ClusterGate.Proofs.Patch.Walk
import ClusterGate.Proofs.Sku.Answers
import ClusterGate.Proofs.Sku.LockOrder
import ClusterGate.Proofs.Sku.Provenance
import ClusterGate.Proofs.Sku.RegionCache
import ClusterGate.Proofs.Sku.SingleFlight
import ClusterGate.Proofs.Sku.Traffic
import ClusterGate.Proofs.Sku.WriteOnce
import ClusterGate.Proofs.Text.Numeral
import ClusterGate.Proofs.Upgrade.Route
import ClusterGate.Proofs.Version.Order
import ClusterGate.Proofs.Upgrade.Detour
import ClusterGate.Proofs.Engine.Against
import ClusterGate.Proofs.NodePool.Rules
import ClusterGate.Proofs.NodePool.Lifecycle
import ClusterGate.Proofs.NodePool.Zones
import ClusterGate.Proofs.Patch.ByKey
import ClusterGate.Proofs.Patch.Guarded
import ClusterGate.Proofs.Engine.Announcement
import ClusterGate.Proofs.Engine.Ends
import ClusterGate.Proofs.NodePool.Defaults
import ClusterGate.Proofs.Sku.Bypass
import ClusterGate.Proofs.Sku.FailedLookup
import ClusterGate.Proofs.Json.Fields
import ClusterGate.Proofs.Store.Place
import ClusterGate.Proofs.Json.Tokens
import ClusterGate.Proofs.Json.ReadBack
import ClusterGate.Proofs.Store.Content
import ClusterGate.Proofs.Store.FileTree
import ClusterGate.Proofs.Store.Agreement
import ClusterGate.Proofs.Store.RecordPath
import ClusterGate.Proofs.Inventory.Listing
import ClusterGate.Proofs.Version.Full
import ClusterGate.Proofs.Version.Grammar
import ClusterGate.Proofs.Version.Canonical
import ClusterGate.Proofs.Telemetry.Ledger
import ClusterGate.Proofs.Catalog.Visits
import ClusterGate.Proofs.Catalog.Listing
import ClusterGate.Proofs.Upgrade.Review
import ClusterGate.Proofs.Catalog.Reading
import ClusterGate.Proofs.Catalog.Memo
import ClusterGate.Proofs.Catalog.ReadBack
import ClusterGate.Proofs.Catalog.Sessions
import ClusterGate.Proofs.Wire
import ClusterGate.Proofs.Engine.Strict
import ClusterGate.Proofs.Engine.Told
import ClusterGate.Proofs.FailClosed
import ClusterGate.Proofs.Version.Rank
import ClusterGate.Proofs.Upgrade.Relevance
import ClusterGate.Proofs.Patch.Irredundant
import ClusterGate.Proofs.Patch.ByToken
import ClusterGate.Proofs.Patch.Position
import ClusterGate.Proofs.NodePool.Verdict
import ClusterGate.Proofs.Engine.OneTable
import ClusterGate.Proofs.NodePool.Creation
import ClusterGate.Proofs.Patch.Member
import ClusterGate.Proofs.Catalog.Asking
import ClusterGate.Proofs.Catalog.Label
import ClusterGate.Proofs.Text.Word
import ClusterGate.Proofs.Sku.Isolation
import ClusterGate.Proofs.Context.Family
import ClusterGate.Proofs.Context.Call
import ClusterGate.Proofs.Sku.Census
import ClusterGate.Proofs.Sku.Accounting
import ClusterGate.Proofs.Version.Precedence
import ClusterGate.Proofs.Json.Escape
import ClusterGate.Proofs.Patch.Paths
