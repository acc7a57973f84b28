import Goca.Laws.AccountCap
import Goca.Laws.AdminMapping
import Goca.Laws.Atomicity
import Goca.Laws.AuditPages
import Goca.Laws.AuthorityTable
import Goca.Laws.BaseURL
import Goca.Laws.BulkRevoke
import Goca.Laws.Cascade
import Goca.Laws.Confinement
import Goca.Laws.CredentialRef
import Goca.Laws.DefaultIssuer
import Goca.Laws.DoubleSend
import Goca.Laws.Entitlement
import Goca.Laws.Fingerprints
import Goca.Laws.Forwarded
import Goca.Laws.Hold
import Goca.Laws.Identifiers
import Goca.Laws.Inventory
import Goca.Laws.LastAdmin
import Goca.Laws.Lineage
import Goca.Laws.Mount
import Goca.Laws.Nesting
import Goca.Laws.NewAccount
import Goca.Laws.NewerLists
import Goca.Laws.Opening
import Goca.Laws.Orders
import Goca.Laws.PatchFrame
import Goca.Laws.PathLen
import Goca.Laws.Patterns
import Goca.Laws.PlacedOrders
import Goca.Laws.Placement
import Goca.Laws.Privilege
import Goca.Laws.Promotion
import Goca.Laws.Reasons
import Goca.Laws.Rebind
import Goca.Laws.Reference
import Goca.Laws.RenewalIdentity
import Goca.Laws.Replaced
import Goca.Laws.Replay
import Goca.Laws.RetryDelay
import Goca.Laws.Schedule
import Goca.Laws.Sealing
import Goca.Laws.Search
import Goca.Laws.Serials
import Goca.Laws.Signing
import Goca.Laws.Silence
import Goca.Laws.Slugs
import Goca.Laws.Takeover
import Goca.Laws.Throttle
import Goca.Laws.TrustDomains
import Goca.Laws.UserPatch
import Goca.Laws.Validity
import Goca.Laws.Wildcard
import Goca.Vault.Service
