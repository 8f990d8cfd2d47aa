import Crm.Lib.Int64
import Crm.Lib.Interleave
import Crm.Lib.HoldLedger
import Crm.Lib.Text
import Crm.Lib.Uuid
import Crm.Lib.Float64
import Crm.Lib.Window
import Crm.Lib.Calendar
import Crm.Basic
import Crm.Wallet.Domain
import Crm.Grant.Domain
import Crm.Billing.Subscription
import Crm.Store.Schema
import Crm.Store.Interface
import Crm.Wallet.Usecase
import Crm.Grant.Apply
import Crm.Grant.Issuer
import Crm.Grant.Request
import Crm.Grant.FourEyes
import Crm.System
import Crm.Store.Spec
import Crm.Store.Frame
import Crm.Store.Serve
import Crm.Wallet.Journal
import Crm.Wallet.Rely
import Crm.Wallet.Snapshot
import Crm.Wallet.Safety
import Crm.Wallet.Runs
import Crm.Wallet.Conservation
import Crm.Wallet.Settlement
import Crm.Wallet.Replay
import Crm.Grant.Extension
import Crm.Grant.Revocation
import Crm.Grant.Credit
import Crm.Grant.Decided
import Crm.Grant.Payload
import Crm.Grant.Cap
import Crm.Pix.Domain
import Crm.Pix.Reconciler
import Crm.Pix.Final
import Crm.Pix.Dedup
import Crm.Billing.Renewal
import Crm.Billing.Renewer
import Crm.Billing.Tiling
import Crm.Billing.Months
import Crm.Billing.Overlap
import Crm.Billing.Announcement
import Crm.Billing.Allocation
import Crm.Dunning.Domain
import Crm.Dunning.Worker
import Crm.Dunning.Race
import Crm.Dunning.Sweep
import Crm.Dunning.Courtesy
import Crm.Wallet.Sequential
import Crm.AiPolicy.Audit
import Crm.Assist.Domain
import Crm.Assist.Summarize
import Crm.Assist.Coverage
import Crm.Assist.Privacy
import Crm.Assist.Staleness
import Crm.Assist.Gate
import Crm.Funnel.Domain
import Crm.Funnel.Engine
import Crm.Funnel.Ledger
import Crm.Funnel.Redelivery
import Crm.Funnel.Concurrent
import Crm.Funnel.Announce
import Crm.Funnel.Cascade
import Crm.Funnel.Chain
import Crm.Funnel.Rules
import Crm.Funnel.Channel
import Crm.Funnel.Resolver
import Crm.Webhook.Intake
import Crm.Webhook.Retry
import Crm.Webhook.Dedup
import Crm.Lib.Netip
import Crm.CustomDomain.Validation
import Crm.CustomDomain.Host
import Crm.CustomDomain.Management
import Crm.CustomDomain.Token
import Crm.CustomDomain.Cap
import Crm.CustomDomain.Instructions
import Crm.CustomDomain.Breaker
import Crm.CustomDomain.BreakerState
import Crm.CustomDomain.Enrollment
import Crm.Slug.Reservation
import Crm.Slug.Lifecycle
import Crm.Lib.SlidingWindow
import Crm.Lib.Unwinding
import Crm.Iam.RateLimit
import Crm.Wallet.Ulid
import Crm.Iam.Login
import Crm.Iam.Isolation
import Crm.Iam.Guesses
import Crm.Iam.Lockout
import Crm.Lib.Base32
import Crm.Mfa.Totp
import Crm.Mfa.Service
import Crm.Mfa.Replay
import Crm.Mfa.Recovery
import Crm.Mfa.Batch
import Crm.Lib.RowLocks
import Crm.Lib.Forest
import Crm.Contacts.Merge
import Crm.Contacts.Store
import Crm.Contacts.Graph
import Crm.Contacts.Alone
import Crm.Contacts.Interleaving
import Crm.Contacts.Resolve
import Crm.Contacts.Sticky
import Crm.Contacts.Proposal
import Crm.Lib.Table
import Crm.Inbox.Domain
import Crm.Dispatch.Idempotent
import Crm.Ai.Cache
import Crm.Ai.Render
import Crm.Media.Worker
import Crm.Master.Feed
import Crm.Lgpd.Retention
import Crm.Wasession.Manager
import Crm.Lib.Regexp
import Crm.Ai.Anonymizer
import Crm.Campaigns.Marker
