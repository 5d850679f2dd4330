/-
# The tables of the relational store

The columns that the modelled services read or write, table by table, as
`shared/procuresignal/models` declares them, and the database that holds the
tables.  Unique constraints are part of a table's type (`UniqueTable`); the
lengths of `VARCHAR` columns are checked where a row is inserted.

Times are naive UTC instants counted in microseconds; a stored `Float` column is
the rational number it denotes.
-/
import ProcureSignal.Library.Table

namespace ProcureSignal

/-- A naive UTC `datetime`, in microseconds. -/
abbrev Instant := ℤ

/-- A `timedelta` of the given number of minutes. -/
def minutes (n : ℤ) : ℤ := n * 60 * 1000000

/-- A `timedelta` of the given number of days. -/
def days (n : ℤ) : ℤ := minutes (n * 24 * 60)

/-! ## Articles -/

/-- The JSON value of `raw_payload_json`: `null`, or an object, of which only the
key `designation_names` is read. -/
inductive RawPayload
  | null
  | object (designationNames : Option (List String))
  deriving DecidableEq, Repr

/-- `(payload or {}).get("designation_names") or []`. -/
def RawPayload.designationNames : Option RawPayload → List String
  | some (.object (some names)) => names
  | _ => []

/-- `RawArticle` of `retrieval/base.py`: an article as an adapter returns it. -/
structure RawArticle where
  provider : String
  providerArticleId : Option String
  queryGroup : String
  title : String
  description : Option String
  contentSnippet : Option String
  articleUrl : String
  canonicalUrl : Option String
  sourceName : String
  sourceUrl : Option String
  publishedAt : Instant
  language : String
  rawPayloadJson : Option RawPayload
  deriving DecidableEq, Repr

/-- `NewsArticleRaw`; an absent payload is SQL `NULL`. -/
structure NewsArticleRaw where
  rawPayloadJson : Option RawPayload
  deriving DecidableEq, Repr

/-- `NewsArticleProcessed`. -/
structure NewsArticleProcessed where
  rawArticleId : ℕ
  detectedSuppliers : Option (List String)
  deriving DecidableEq, Repr

/-! ## Suppliers -/

/-- `Supplier`: one canonical legal entity. -/
structure Supplier where
  publicId : String
  canonicalName : String
  normalizedName : String
  country : Option String
  lei : Option String
  isActive : Bool
  deriving DecidableEq, Repr

/-- `SupplierAlias.source`. -/
inductive AliasSource
  | canonical
  | derived
  | manual
  | lei
  deriving DecidableEq, Repr

/-- `SupplierAlias`: a spelling that resolves to a supplier. -/
structure SupplierAlias where
  supplierId : ℕ
  aliasName : String
  normalizedAlias : String
  source : AliasSource
  deriving DecidableEq, Repr

/-- `ArticleSupplierMention`; `supplierId` is absent when the name did not resolve. -/
structure ArticleSupplierMention where
  processedArticleId : ℕ
  supplierId : Option ℕ
  surfaceForm : String
  confidence : ℚ
  deriving DecidableEq, Repr

/-! ## Risk events, watchlists, preferences -/

/-- `RiskEvent`. -/
structure RiskEvent where
  eventKey : String
  riskType : String
  severity : String
  confidence : ℚ
  affectedSuppliers : List String
  affectedSupplierIds : List String
  evidenceSnippet : String
  sourceName : String
  publishedAt : Instant
  deriving DecidableEq, Repr

/-- `Watchlist`. -/
structure Watchlist where
  organizationId : ℕ
  deriving DecidableEq, Repr

/-- `WatchlistEntry`. -/
structure WatchlistEntry where
  watchlistId : ℕ
  supplierId : ℕ
  deriving DecidableEq, Repr

/-- `UserNewsPreference`. -/
structure UserNewsPreference where
  preferredSuppliers : List String
  excludedSuppliers : List String
  preferredSupplierIds : List String
  excludedSupplierIds : List String
  deriving DecidableEq, Repr

/-! ## The audit trail -/

/-- A value of an audit record's `detail` object. -/
inductive DetailValue
  | text (s : String)
  | number (n : ℕ)
  deriving DecidableEq, Repr

/-- `AuditLog`: one recorded action. -/
structure AuditLog where
  action : String
  outcome : String
  resourceType : Option String
  resourceId : Option String
  detail : List (String × DetailValue)
  deriving DecidableEq, Repr

/-! ## The database -/

/-- `suppliers`: unique `public_id`, `normalized_name` and `lei`. -/
abbrev SupplierTable := UniqueTable Supplier String
  [fun s => some s.publicId, fun s => some s.normalizedName, fun s => s.lei]

/-- `supplier_aliases`: unique `normalized_alias`. -/
abbrev SupplierAliasTable := UniqueTable SupplierAlias String [fun a => some a.normalizedAlias]

/-- `article_supplier_mentions`: unique (`processed_article_id`, `surface_form`). -/
abbrev MentionTable := UniqueTable ArticleSupplierMention (ℕ × String)
  [fun m => some (m.processedArticleId, m.surfaceForm)]

/-- `news_articles_processed`: unique `raw_article_id`. -/
abbrev ProcessedTable := UniqueTable NewsArticleProcessed ℕ [fun p => some p.rawArticleId]

/-- The committed tables. -/
structure Database where
  raws : Table NewsArticleRaw
  processed : ProcessedTable
  suppliers : SupplierTable
  aliases : SupplierAliasTable
  mentions : MentionTable
  riskEvents : Table RiskEvent
  watchlists : Table Watchlist
  watchlistEntries : Table WatchlistEntry
  preferences : Table UserNewsPreference
  audits : Table AuditLog

/-- The database after the migrations, before any row is written. -/
def Database.empty : Database where
  raws := Table.empty
  processed := UniqueTable.empty
  suppliers := UniqueTable.empty
  aliases := UniqueTable.empty
  mentions := UniqueTable.empty
  riskEvents := Table.empty
  watchlists := Table.empty
  watchlistEntries := Table.empty
  preferences := Table.empty
  audits := Table.empty

/-- Why a service call raised: the database rejected a statement, or the service
refused the request with a message. -/
inductive ServiceError
  | databaseError
  | supplierRegistryError (message : String)
  | duplicateSupplierError (message : String)
  | ambiguousAliasError (message : String)
  | valueError (message : String)
  deriving DecidableEq, Repr

/-- Insert rows of which each has to fit its columns. -/
def insertRows {α κ : Type} [DecidableEq κ] {uniq : List (α → Option κ)}
    (t : UniqueTable α κ uniq) (fits : α → Bool) (rows : List α) :
    Except ServiceError (UniqueTable α κ uniq) :=
  if rows.all fits then
    match t.insertAll? rows with
    | some t' => .ok t'
    | none => .error .databaseError
  else .error .databaseError

/-- Inserted rows fit their columns and meet the unique constraints. -/
theorem insertRows_eq_ok {α κ : Type} [DecidableEq κ] {uniq : List (α → Option κ)}
    {t t' : UniqueTable α κ uniq} {fits : α → Bool} {rows : List α}
    (h : insertRows t fits rows = .ok t') :
    t.insertAll? rows = some t' ∧ ∀ a ∈ rows, fits a = true := by
  unfold insertRows at h
  split at h
  · rename_i hall
    split at h
    · rename_i t₁ ht₁
      rw [Except.ok.injEq] at h
      exact ⟨h ▸ ht₁, List.all_eq_true.mp hall⟩
    · cases h
  · cases h

/-- Rows that fit and repeat no unique value are inserted. -/
theorem exists_insertRows {α κ : Type} [DecidableEq κ] {uniq : List (α → Option κ)}
    {t : UniqueTable α κ uniq} {fits : α → Bool} {rows : List α}
    (hfits : ∀ a ∈ rows, fits a = true)
    (huniq : ∀ k ∈ uniq, ((t.values ++ rows).filterMap k).Nodup) :
    ∃ t', insertRows t fits rows = .ok t' := by
  obtain ⟨t', ht'⟩ := UniqueTable.exists_insertAll? huniq
  exact ⟨t', by rw [insertRows, if_pos (List.all_eq_true.mpr hfits), ht']⟩

end ProcureSignal
