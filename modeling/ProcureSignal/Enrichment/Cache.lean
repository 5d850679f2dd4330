/-
# Enrichment outputs and their cache

`EnrichmentOutput` of `enrichment/output_parser.py`, `merge_entities` of
`enrichment/entities.py`, `enrichment/fingerprint.py` and `enrichment/cache.py`.

A cache entry is found by the fingerprint of the article's content and the two versions.
What `model_validate` makes of a stored payload is a parameter.
-/
import ProcureSignal.Library.Unicode
import ProcureSignal.Models

namespace ProcureSignal.Enrichment

/-! ## Outputs -/

/-- `EnrichmentOutput`. -/
structure EnrichmentOutput where
  summary : String
  category : String
  signalTags : List String
  prioritySignal : Option String
  detectedSuppliers : List String
  detectedRegions : List String
  detectedCategories : List String
  deriving DecidableEq, Repr

/-- `merge_entities`: the loop over the values of all groups. -/
def mergeEntitiesInto (U : Unicode) (merged : List String) : List String → List String
  | [] => merged
  | value :: values =>
      let text := U.strip value
      if text ≠ "" ∧ text ∉ merged then mergeEntitiesInto U (merged ++ [text]) values
      else mergeEntitiesInto U merged values

/-- `merge_entities`. -/
def mergeEntities (U : Unicode) (groups : List (List String)) : List String :=
  mergeEntitiesInto U [] groups.flatten

/-- Merging keeps what is there and repeats nothing. -/
theorem mergeEntitiesInto_spec (U : Unicode) (values merged : List String)
    (h : merged.Nodup) :
    (mergeEntitiesInto U merged values).Nodup ∧
      ∀ text, text ∈ mergeEntitiesInto U merged values ↔
        text ∈ merged ∨ text ≠ "" ∧ ∃ value ∈ values, U.strip value = text := by
  induction values generalizing merged with
  | nil => simp [mergeEntitiesInto, h]
  | cons value values ih =>
      simp only [mergeEntitiesInto]
      split
      · rename_i hnew
        have hnd : (merged ++ [U.strip value]).Nodup := by
          rw [List.nodup_append]
          refine ⟨h, List.nodup_singleton _, fun a ha b hb => ?_⟩
          rintro rfl
          exact hnew.2 (List.mem_singleton.mp hb ▸ ha)
        obtain ⟨hnd', hmem⟩ := ih _ hnd
        refine ⟨hnd', fun text => ?_⟩
        rw [hmem, List.mem_append, List.mem_singleton]
        constructor
        · rintro ((hin | rfl) | ⟨hne, v, hv, hstrip⟩)
          · exact Or.inl hin
          · exact Or.inr ⟨hnew.1, value, List.mem_cons_self, rfl⟩
          · exact Or.inr ⟨hne, v, List.mem_cons_of_mem _ hv, hstrip⟩
        · rintro (hin | ⟨hne, v, hv, rfl⟩)
          · exact Or.inl (Or.inl hin)
          · rcases List.mem_cons.mp hv with rfl | hv
            · exact Or.inl (Or.inr rfl)
            · exact Or.inr ⟨hne, v, hv, rfl⟩
      · rename_i hold
        obtain ⟨hnd', hmem⟩ := ih merged h
        refine ⟨hnd', fun text => ?_⟩
        rw [hmem]
        constructor
        · rintro (hin | ⟨hne, v, hv, hstrip⟩)
          · exact Or.inl hin
          · exact Or.inr ⟨hne, v, List.mem_cons_of_mem _ hv, hstrip⟩
        · rintro (hin | ⟨hne, v, hv, rfl⟩)
          · exact Or.inl hin
          · rcases List.mem_cons.mp hv with rfl | hv
            · push Not at hold
              exact Or.inl (hold hne)
            · exact Or.inr ⟨hne, v, hv, rfl⟩

/-- **`merge_entities`**: the stripped values, blanks dropped, each once. -/
theorem mem_mergeEntities (U : Unicode) (groups : List (List String)) :
    (mergeEntities U groups).Nodup ∧
      ∀ text, text ∈ mergeEntities U groups ↔
        text ≠ "" ∧ ∃ group ∈ groups, ∃ value ∈ group, U.strip value = text := by
  obtain ⟨hnd, hmem⟩ := mergeEntitiesInto_spec U groups.flatten [] List.nodup_nil
  refine ⟨hnd, fun text => ?_⟩
  rw [mergeEntities, hmem]
  simp only [List.not_mem_nil, false_or, List.mem_flatten]
  constructor
  · rintro ⟨hne, value, ⟨group, hgroup, hvalue⟩, hstrip⟩
    exact ⟨hne, group, hgroup, value, hvalue, hstrip⟩
  · rintro ⟨hne, group, hgroup, value, hvalue, hstrip⟩
    exact ⟨hne, value, ⟨group, hgroup, hvalue⟩, hstrip⟩

/-- `_merge_deterministic_evidence`. -/
def mergeDeterministicEvidence (U : Unicode) (llm deterministic : EnrichmentOutput) :
    EnrichmentOutput :=
  { llm with
    detectedSuppliers := mergeEntities U [llm.detectedSuppliers, deterministic.detectedSuppliers]
    detectedRegions := mergeEntities U [llm.detectedRegions, deterministic.detectedRegions]
    detectedCategories :=
      mergeEntities U
        [llm.detectedCategories, [llm.category], deterministic.detectedCategories] }

/-! ## Fingerprints -/

/-- `_normalize` of `fingerprint.py`. -/
def normalizeContent (U : Unicode) : Option String → String
  | none => ""
  | some value => " ".intercalate (U.split (U.lower (U.nfkc value)))

/-- `content_fingerprint`; `digest` is the SHA-256 digest of the canonical JSON of the
fields. -/
def contentFingerprint (U : Unicode) (digest : List String → String)
    (policyVersion taxonomyVersion : String) (article : RawArticle) : String :=
  digest ([some policyVersion, some taxonomyVersion, some article.language,
    some article.title, article.description, article.contentSnippet].map (normalizeContent U))

/-! ## The cache -/

/-- The identity of an entry: fingerprint, policy version, taxonomy version. -/
abbrev CacheKey := String × String × String

/-- `EnrichmentCacheEntry`: a payload with the fields of an output, or any other JSON. -/
structure CacheEntry where
  payload : Option EnrichmentOutput
  originalMethod : String
  hitCount : ℕ
  deriving DecidableEq, Repr

/-- `enrichment_cache`, unique in its identity. -/
abbrev CacheTable := CacheKey → Option CacheEntry

/-- `EnrichmentCache.get`: the validated output of a compatible entry, and the table with
the hit counted. -/
def cacheGet (validate : EnrichmentOutput → Option EnrichmentOutput) (table : CacheTable)
    (key : CacheKey) : Option (EnrichmentOutput × CacheTable) :=
  (table key).bind fun entry =>
    (entry.payload.bind validate).map fun output =>
      (output, Function.update table key (some { entry with hitCount := entry.hitCount + 1 }))

/-- `EnrichmentCache.put`. -/
def cachePut (table : CacheTable) (key : CacheKey) (output : EnrichmentOutput)
    (originalMethod : String) : CacheTable :=
  let hits := ((table key).map (·.hitCount)).getD 0
  Function.update table key (some ⟨some output, originalMethod, hits⟩)

end ProcureSignal.Enrichment
