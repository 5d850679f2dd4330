/-
# The personal-data inventory

The tables of the store with their foreign keys (`shared/procuresignal/models`), and the
registry of `privacy/inventory.py` that export, erasure and retention walk.

* Rows hold the columns that the registry, the foreign keys and the services read; a row may
  hold further columns, whatever they are called.
-/
import ProcureSignal.Models
import ProcureSignal.Library.Relational

namespace ProcureSignal.Privacy

open Relational

/-! ## The schema -/

/-- The tables. -/
inductive TableName
  | users
  | memberships
  | refreshTokens
  | organizationInvitations
  | userNewsPreferences
  | userNewsFeed
  | newsArticleMatches
  | chatConversations
  | chatMessages
  | searchFeedback
  | notifications
  | agentRuns
  | agentSteps
  | agentRecommendations
  | watchlists
  | watchlistEntries
  | alertRules
  | auditLog
  | deadLetters
  | organizations
  | suppliers
  | supplierAliases
  | articleSupplierMentions
  | newsArticlesRaw
  | newsArticlesProcessed
  | articleEmbeddings
  | riskEvents
  | signals
  | signalMetadata
  | signalSupplyChainImpact
  | newsPipelineRuns
  | newsPriorityEvents
  | newsRetrievalRuns
  | newsRetrievalSourceOutcomes
  | newsRetrievalCircuits
  | enrichmentCache
  | llmSpend
  deriving DecidableEq, Repr

open TableName

/-- The foreign keys that the models declare. -/
def foreignKeys : List (ForeignKey TableName) :=
  [⟨agentRuns, "organization_id", organizations, .cascade⟩,
   ⟨agentRuns, "requested_by_user_id", users, .cascade⟩,
   ⟨agentSteps, "run_id", agentRuns, .cascade⟩,
   ⟨agentRecommendations, "run_id", agentRuns, .cascade⟩,
   ⟨agentRecommendations, "decided_by_user_id", users, .setNull⟩,
   ⟨auditLog, "organization_id", organizations, .setNull⟩,
   ⟨memberships, "user_id", users, .cascade⟩,
   ⟨memberships, "organization_id", organizations, .cascade⟩,
   ⟨refreshTokens, "user_id", users, .cascade⟩,
   ⟨organizationInvitations, "organization_id", organizations, .cascade⟩,
   ⟨organizationInvitations, "invited_by_user_id", users, .setNull⟩,
   ⟨alertRules, "organization_id", organizations, .cascade⟩,
   ⟨alertRules, "created_by_user_id", users, .setNull⟩,
   ⟨notifications, "organization_id", organizations, .cascade⟩,
   ⟨notifications, "alert_rule_id", alertRules, .cascade⟩,
   ⟨notifications, "risk_event_id", riskEvents, .cascade⟩,
   ⟨notifications, "recipient_user_id", users, .cascade⟩,
   ⟨newsRetrievalSourceOutcomes, "run_id", newsRetrievalRuns, .cascade⟩,
   ⟨articleEmbeddings, "processed_article_id", newsArticlesProcessed, .cascade⟩,
   ⟨searchFeedback, "organization_id", organizations, .cascade⟩,
   ⟨searchFeedback, "user_id", users, .cascade⟩,
   ⟨signalMetadata, "signal_id", signals, .cascade⟩,
   ⟨signalSupplyChainImpact, "signal_id", signals, .cascade⟩,
   ⟨supplierAliases, "supplier_id", suppliers, .cascade⟩,
   ⟨articleSupplierMentions, "supplier_id", suppliers, .setNull⟩,
   ⟨watchlists, "organization_id", organizations, .cascade⟩,
   ⟨watchlists, "created_by_user_id", users, .setNull⟩,
   ⟨watchlistEntries, "watchlist_id", watchlists, .cascade⟩,
   ⟨watchlistEntries, "supplier_id", suppliers, .cascade⟩,
   ⟨watchlistEntries, "added_by_user_id", users, .setNull⟩]

/-- How far a table is from the tables that refer to none. -/
def rank : TableName → ℕ
  | notifications | agentSteps | agentRecommendations | watchlistEntries => 2
  | agentRuns | memberships | refreshTokens | organizationInvitations | alertRules
  | newsRetrievalSourceOutcomes | articleEmbeddings | searchFeedback | signalMetadata
  | signalSupplyChainImpact | supplierAliases | watchlists => 1
  | _ => 0

/-- The store. -/
def schema : Schema TableName where
  foreignKeys := foreignKeys
  rank := rank
  depth := 3
  rank_lt := by
    intro t
    cases t <;> decide
  acyclic := by decide
  separate := by decide

/-- What is stored. -/
abbrev Store := Relational.Database TableName

/-! ## The registry -/

/-- `SubjectLink`. -/
inductive SubjectLink
  | userIdInt
  | userPublicId
  | none
  deriving DecidableEq, Repr

/-- `ErasureAction`. -/
inductive ErasureAction
  | delete
  | anonymise
  | retain
  deriving DecidableEq, Repr

/-- `PersonalDataTable`, without the texts for the documents. -/
structure PersonalDataTable where
  table : TableName
  link : SubjectLink
  linkColumn : Option String
  erasure : ErasureAction
  retentionDays : Option ℕ
  retentionColumn : String
  cascadesFrom : Option TableName
  deriving DecidableEq, Repr

/-- `_none`: a table that no column ties to a person. -/
def unlinked (table : TableName) (retentionDays : Option ℕ) (retentionColumn : String)
    (cascadesFrom : Option TableName) : PersonalDataTable :=
  ⟨table, .none, none, .retain, retentionDays, retentionColumn, cascadesFrom⟩

/-- `BEHAVIOURAL_RETENTION_DAYS`. -/
def behaviouralRetentionDays : ℕ := 400

/-- `INVENTORY`. -/
def inventory : List PersonalDataTable :=
  [⟨users, .userIdInt, some "id", .delete, none, "created_at", none⟩,
   ⟨memberships, .userIdInt, some "user_id", .delete, none, "created_at", none⟩,
   ⟨refreshTokens, .userIdInt, some "user_id", .delete, some 90, "expires_at", none⟩,
   ⟨organizationInvitations, .userIdInt, some "invited_by_user_id", .anonymise, some 180,
     "created_at", none⟩,
   ⟨userNewsPreferences, .userPublicId, some "user_id", .delete, none, "created_at", none⟩,
   ⟨userNewsFeed, .userPublicId, some "user_id", .delete, some 14, "surfaced_at", none⟩,
   ⟨newsArticleMatches, .userPublicId, some "user_id", .delete, some 30, "created_at", none⟩,
   ⟨chatConversations, .userPublicId, some "user_id", .delete, some behaviouralRetentionDays,
     "last_message_at", none⟩,
   ⟨chatMessages, .userPublicId, some "user_id", .delete, some behaviouralRetentionDays,
     "created_at", none⟩,
   ⟨searchFeedback, .userIdInt, some "user_id", .delete, some behaviouralRetentionDays,
     "created_at", none⟩,
   ⟨notifications, .userIdInt, some "recipient_user_id", .delete, some 180, "created_at", none⟩,
   ⟨agentRuns, .userIdInt, some "requested_by_user_id", .delete, some behaviouralRetentionDays,
     "started_at", none⟩,
   unlinked agentSteps none "created_at" (some agentRuns),
   ⟨agentRecommendations, .userIdInt, some "decided_by_user_id", .anonymise, none, "created_at",
     some agentRuns⟩,
   ⟨watchlists, .userIdInt, some "created_by_user_id", .anonymise, none, "created_at", none⟩,
   ⟨watchlistEntries, .userIdInt, some "added_by_user_id", .anonymise, none, "created_at", none⟩,
   ⟨alertRules, .userIdInt, some "created_by_user_id", .anonymise, none, "created_at", none⟩,
   ⟨auditLog, .userIdInt, some "actor_user_id", .retain, none, "created_at", none⟩,
   unlinked deadLetters (some 30) "created_at" none,
   unlinked organizations none "created_at" none,
   unlinked suppliers none "created_at" none,
   unlinked supplierAliases none "created_at" none,
   unlinked articleSupplierMentions none "created_at" none,
   unlinked newsArticlesRaw (some 14) "ingested_at" none,
   unlinked newsArticlesProcessed (some 30) "processed_at" none,
   unlinked articleEmbeddings none "created_at" (some newsArticlesProcessed),
   unlinked riskEvents (some 14) "published_at" none,
   unlinked signals none "created_at" none,
   unlinked signalMetadata none "created_at" none,
   unlinked signalSupplyChainImpact none "created_at" none,
   unlinked newsPipelineRuns none "created_at" none,
   unlinked newsPriorityEvents none "created_at" none,
   unlinked newsRetrievalRuns none "created_at" none,
   unlinked newsRetrievalSourceOutcomes none "created_at" none,
   unlinked newsRetrievalCircuits none "created_at" none,
   unlinked enrichmentCache none "created_at" none,
   unlinked llmSpend none "created_at" none]

/-- Every table is registered. -/
theorem exists_entry (t : TableName) : ∃ entry ∈ inventory, entry.table = t := by
  cases t <;> decide

/-- A table is registered once. -/
theorem inventory_nodup : (inventory.map (·.table)).Nodup := by decide

/-- A row with its key, as the columns of the table. -/
def cell (i : ℕ) (r : Row) (c : String) : Value := if c = "id" then .num i else r c

end ProcureSignal.Privacy
