import ProcureSignal.Agents.Analysis
import ProcureSignal.Agents.Decisions
import ProcureSignal.Agents.Evidence
import ProcureSignal.Agents.Loop
import ProcureSignal.Agents.Models
import ProcureSignal.Agents.Outcomes
import ProcureSignal.Agents.Progress
import ProcureSignal.Agents.Tools
import ProcureSignal.Agents.Transcript
import ProcureSignal.Auth.Audit
import ProcureSignal.Auth.Backends
import ProcureSignal.Auth.Containment
import ProcureSignal.Auth.Eviction
import ProcureSignal.Auth.Families
import ProcureSignal.Auth.Guesses
import ProcureSignal.Auth.InlineSecrets
import ProcureSignal.Auth.RateLimit
import ProcureSignal.Auth.Redaction
import ProcureSignal.Auth.Registration
import ProcureSignal.Auth.RetryAfter
import ProcureSignal.Auth.Rotation
import ProcureSignal.Auth.Service
import ProcureSignal.Auth.SignOut
import ProcureSignal.Auth.Tenancy
import ProcureSignal.Auth.Transactions
import ProcureSignal.Chat.Conversations
import ProcureSignal.Chat.MessageCount
import ProcureSignal.Chat.Socket
import ProcureSignal.Chat.Window
import ProcureSignal.Enrichment.Avoidance
import ProcureSignal.Enrichment.Budget
import ProcureSignal.Enrichment.Cache
import ProcureSignal.Enrichment.Conservation
import ProcureSignal.Enrichment.Deterministic
import ProcureSignal.Enrichment.DurableSpend
import ProcureSignal.Enrichment.Entities
import ProcureSignal.Enrichment.Output
import ProcureSignal.Enrichment.Overspend
import ProcureSignal.Enrichment.Pipeline
import ProcureSignal.Enrichment.Policy
import ProcureSignal.Enrichment.RoundTrip
import ProcureSignal.Enrichment.Summaries
import ProcureSignal.Enrichment.Transitions
import ProcureSignal.Enrichment.Transparency
import ProcureSignal.Evaluation.Metrics
import ProcureSignal.Frontend.Browser
import ProcureSignal.Frontend.Interceptors
import ProcureSignal.Frontend.Session
import ProcureSignal.Frontend.SharedCookie
import ProcureSignal.Frontend.SingleFlight
import ProcureSignal.Library.Ascii
import ProcureSignal.Library.Batch
import ProcureSignal.Library.Collections
import ProcureSignal.Library.Delimited
import ProcureSignal.Library.Discount
import ProcureSignal.Library.Execution
import ProcureSignal.Library.FirstOccurrences
import ProcureSignal.Library.Folding
import ProcureSignal.Library.Gains
import ProcureSignal.Library.Hosts
import ProcureSignal.Library.Lineage
import ProcureSignal.Library.Lowercase
import ProcureSignal.Library.Nested
import ProcureSignal.Library.Occurrence
import ProcureSignal.Library.Outcome
import ProcureSignal.Library.Pages
import ProcureSignal.Library.Periods
import ProcureSignal.Library.Raising
import ProcureSignal.Library.ReadModifyWrite
import ProcureSignal.Library.Regex
import ProcureSignal.Library.Relational
import ProcureSignal.Library.Replacing
import ProcureSignal.Library.Semaphores
import ProcureSignal.Library.Stripping
import ProcureSignal.Library.Substitution
import ProcureSignal.Library.Table
import ProcureSignal.Library.Triples
import ProcureSignal.Library.Unicode
import ProcureSignal.Library.Urlencoded
import ProcureSignal.Library.Urlsplit
import ProcureSignal.Library.Windows
import ProcureSignal.Library.Worklist
import ProcureSignal.Models
import ProcureSignal.Normalization.Deduplicator
import ProcureSignal.Normalization.Normalizer
import ProcureSignal.Normalization.SourceTrust
import ProcureSignal.Notifications.Delivery
import ProcureSignal.Notifications.Digest
import ProcureSignal.Notifications.Isolation
import ProcureSignal.Notifications.Outbox
import ProcureSignal.Notifications.Rules
import ProcureSignal.Operations.Backup
import ProcureSignal.Operations.Diagnostics
import ProcureSignal.Operations.Drill
import ProcureSignal.Operations.Recovery
import ProcureSignal.Personalization.CanonicalForms
import ProcureSignal.Personalization.Categories
import ProcureSignal.Personalization.CategorySets
import ProcureSignal.Personalization.CurrentExclusions
import ProcureSignal.Personalization.Exclusions
import ProcureSignal.Personalization.Matcher
import ProcureSignal.Personalization.PartialUpdates
import ProcureSignal.Personalization.Pipeline
import ProcureSignal.Personalization.PreferenceManager
import ProcureSignal.Personalization.Uniqueness
import ProcureSignal.Personalization.Writers
import ProcureSignal.Privacy.Administrators
import ProcureSignal.Privacy.Export
import ProcureSignal.Privacy.Inventory
import ProcureSignal.Privacy.Orphans
import ProcureSignal.Privacy.Retention
import ProcureSignal.Privacy.Subject
import ProcureSignal.Retrieval.Accounting
import ProcureSignal.Retrieval.Adapters
import ProcureSignal.Retrieval.Attempts
import ProcureSignal.Retrieval.Audit
import ProcureSignal.Retrieval.Circuit
import ProcureSignal.Retrieval.Counters
import ProcureSignal.Retrieval.Dedup
import ProcureSignal.Retrieval.Designations
import ProcureSignal.Retrieval.FeedIsolation
import ProcureSignal.Retrieval.Fencing
import ProcureSignal.Retrieval.Fetching
import ProcureSignal.Retrieval.Ingest
import ProcureSignal.Retrieval.IngestHash
import ProcureSignal.Retrieval.InputOrder
import ProcureSignal.Retrieval.LargeObjects
import ProcureSignal.Retrieval.NormalForm
import ProcureSignal.Retrieval.Orchestrator
import ProcureSignal.Retrieval.Reingest
import ProcureSignal.Retrieval.Reports
import ProcureSignal.Retrieval.Sanctions
import ProcureSignal.Retrieval.Slots
import ProcureSignal.Retrieval.Steps
import ProcureSignal.Retrieval.Takeover
import ProcureSignal.Retrieval.Totals
import ProcureSignal.Retrieval.Url
import ProcureSignal.Retrieval.UrlSafety
import ProcureSignal.Retrieval.Urlless
import ProcureSignal.Retrieval.XmlScan
import ProcureSignal.RiskEvents.Detector
import ProcureSignal.RiskEvents.Evidence
import ProcureSignal.RiskEvents.Listing
import ProcureSignal.RiskEvents.Persistence
import ProcureSignal.RiskEvents.Review
import ProcureSignal.Scoring.Exposure
import ProcureSignal.Scoring.Impact
import ProcureSignal.Search.Embeddings
import ProcureSignal.Search.Fusion
import ProcureSignal.Search.Hybrid
import ProcureSignal.Signals.Expansion
import ProcureSignal.Signals.Phrases
import ProcureSignal.Signals.Taxonomy
import ProcureSignal.Signals.Terms
import ProcureSignal.Suppliers.Backfill
import ProcureSignal.Suppliers.Coverage
import ProcureSignal.Suppliers.Cursor
import ProcureSignal.Suppliers.Fixpoint
import ProcureSignal.Suppliers.LegalForms
import ProcureSignal.Suppliers.Mentions
import ProcureSignal.Suppliers.Normalization
import ProcureSignal.Suppliers.Ownership
import ProcureSignal.Suppliers.Progress
import ProcureSignal.Suppliers.Recordings
import ProcureSignal.Suppliers.Registration
import ProcureSignal.Suppliers.Registry
import ProcureSignal.Suppliers.Resolver
import ProcureSignal.Suppliers.Router
import ProcureSignal.Suppliers.Screening
import ProcureSignal.Suppliers.Spellings
import ProcureSignal.Suppliers.System
import ProcureSignal.Suppliers.Tokens
import ProcureSignal.Suppliers.Visits
import ProcureSignal.Translation.Articles
import ProcureSignal.Translation.Runs
import ProcureSignal.Watchlists.Integrity
import ProcureSignal.Watchlists.Merge
import ProcureSignal.Watchlists.Router
import ProcureSignal.Watchlists.Service
import ProcureSignal.Worker.AlertTask
import ProcureSignal.Worker.DeadLetters
import ProcureSignal.Worker.EnrichTask
import ProcureSignal.Worker.Exclusivity
import ProcureSignal.Worker.Hygiene
import ProcureSignal.Worker.Leases
