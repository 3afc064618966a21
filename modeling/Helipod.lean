import Helipod.Sync.ByIdDiff
import Helipod.Sync.RangeDiff
import Helipod.Sync.Subscriptions
import Helipod.Transactor.PublishOrder
import Helipod.Transactor.FlushSplit
import Helipod.Kernel.CrossStore
import Helipod.Kernel.Overlap
import Helipod.Kernel.CanonicalIds
import Helipod.Kernel.Ownership
import Helipod.Sync.ClientReducer
import Helipod.Sync.Backpressure
import Helipod.Client.IdentityGate
import Helipod.Runtime.VerdictAgreement
import Helipod.Runtime.OwnerPlacement
import Helipod.ObjectStore.Lanes
import Helipod.ObjectStore.ReplicaTailer
import Helipod.Docstore.Postgres
import Helipod.Docstore.MigrationDump
import Helipod.Runtime.ReadLog
import Helipod.Deploy.SchemaDiff
import Helipod.Scheduler.Driver
import Helipod.Auth.Ceiling
import Helipod.Auth.Emails
import Helipod.Auth.RateLimit
import Helipod.Auth.Enumeration
import Helipod.Authz.Relations
import Helipod.QueryEngine.Pages
import Helipod.Fleet.Rendezvous
import Helipod.ObjectStore.MergeSorted
