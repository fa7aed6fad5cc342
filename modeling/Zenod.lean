import Zenod.Evidence.DayLog
import Zenod.Evidence.References
import Zenod.Git.Pending
import Zenod.Git.Guarded
import Zenod.Phylax.Expiry
import Zenod.Phylax.Gates
import Zenod.Phylax.HotPath
import Zenod.Phylax.Projection
import Zenod.Phylax.Solvency
import Zenod.Vault.Refresh
import Zenod.Vault.MemoryIndex
import Zenod.Vault.YamlModel
import Zenod.Engine.Authorship
import Zenod.Engine.Accounting
import Zenod.Journey.Gating
import Zenod.Lib.Json
import Zenod.Approval.Tokens
import Zenod.Approval.Guard
import Zenod.Approval.Held
import Zenod.Approval.Safety
import Zenod.Lib.Bytes
import Zenod.Lib.JsonRead
import Zenod.Engine.EntrySelection
import Zenod.Lib.Paging
import Zenod.Engine.EntryPagination
import Zenod.Engine.EntryWalk
import Zenod.Engine.Chronicle
import Zenod.Engine.Projection
import Zenod.Engine.Supersession
import Zenod.Jobs.Fencing
import Zenod.Execution.Queue
import Zenod.Execution.Capacity
import Zenod.Execution.Shipping
import Zenod.Lib.Walk
import Zenod.Vault.Lineage
import Zenod.Lib.Rollup
import Zenod.Usage.Store
import Zenod.Usage.Pruning
import Zenod.Usage.Opening
import Zenod.Access.OAuth
import Zenod.Access.Guard
import Zenod.Engine.Coverage
import Zenod.Engine.Enumeration
import Zenod.Lib.Double
import Zenod.Engine.FilingReceipt
import Zenod.Lib.Pieces
import Zenod.Vault.TreeFile
import Zenod.Vault.TreeRoundTrip
import Zenod.Notify.Bus
import Zenod.Notify.Ordering
import Zenod.Lib.Ip
import Zenod.Lib.Number
import Zenod.Subscribers.Address
import Zenod.Subscribers.Dispatch
import Zenod.Access.Redemption
import Zenod.Lib.Turns
import Zenod.Publication.Ledger
import Zenod.Publication.Once
import Zenod.Capture.Tickets
import Zenod.Capture.Delivery
import Zenod.Capture.Wakeup
import Zenod.Capture.Recovery
import Zenod.Ingest.Queue
import Zenod.Ingest.Segments
import Zenod.Billing.Convergence
import Zenod.Channels.Captures
import Zenod.Channels.OneReceipt
import Zenod.Custody.Acknowledged
import Zenod.Customers.Identity
import Zenod.Customers.Linking
import Zenod.Ingest.Careful
import Zenod.Peer.Address
import Zenod.Peer.Atomic
import Zenod.WhatsApp.Coalesced
import Zenod.WhatsApp.Counters
import Zenod.WhatsApp.Counting
import Zenod.WhatsApp.Fairness
import Zenod.WhatsApp.Handoff
import Zenod.Discover.Agglomerate
import Zenod.Engine.Appending
import Zenod.Lib.Extent
import Zenod.Lib.Utf16
import Zenod.Passages.Coverage
import Zenod.Phylax.Admission
import Zenod.Access.FailureRows
import Zenod.Access.RateLimit
import Zenod.Billing.FreePeriod
import Zenod.Discover.Identity
import Zenod.Execution.Conservation
import Zenod.Git.WriteQueue
import Zenod.Transcription.Slot
import Zenod.Lib.Rows
import Zenod.Passages.Decisions
import Zenod.Vault.Rollups
import Zenod.Chassis.VaultRuns
import Zenod.Chassis.RekeyRuns
import Zenod.Chassis.Cipher
