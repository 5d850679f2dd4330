/-
# The cache gives back what it was given

`EnrichmentCache` of `enrichment/cache.py`.  An entry is validated again when it is read, and an
output of the model with the deterministic evidence merged into it was never validated as a whole;
the validators leave both kinds of output as they are.

* `Storable` : the outputs of the pipeline;
* `put` : an entry inserted or updated, with a concurrent writer;
* `validated_eq_self` : **validation changes nothing in them**;
* `roundTrip` : **what is put is got**, and shown again as it was shown first.
-/
import ProcureSignal.Enrichment.Pipeline
import ProcureSignal.Enrichment.Summaries
import ProcureSignal.Personalization.CanonicalForms

namespace ProcureSignal.Enrichment

open ProcureSignal.Enrichment.Pipeline (Candidate EnrichmentPipeline Method processedArticle)
open ProcureSignal.Personalization (canonicalCategories canonicalCategory_self)
open ProcureSignal.Signals (canonicalSignalTag canonicalSignalTags canonicalSignalTagsInto
  canonicalSignalTagOrder normalizeSignalTerm normalizeSignalTerm_ascii signalTermVariants
  validSignalTags)

/-! ## Outputs and the cache -/

/-- `EnrichmentOutput.model_validate`. -/
def modelValidate (U : Unicode) (fields : EnrichmentOutput) : Option EnrichmentOutput :=
  (EnrichmentOutput.create U fields).toOption

/-- An output that the pipeline stores: a validated one, or a validated one of the model with the
evidence of a validated deterministic one. -/
inductive Storable (U : Unicode) : EnrichmentOutput → Prop
  | deterministic {fields output : EnrichmentOutput}
      (h : EnrichmentOutput.create U fields = .ok output) : Storable U output
  | merged {fields llm fields' deterministic : EnrichmentOutput}
      (hllm : EnrichmentOutput.create U fields = .ok llm)
      (hdeterministic : EnrichmentOutput.create U fields' = .ok deterministic) :
      Storable U (mergeDeterministicEvidence U llm deterministic)

/-- `_ALLOWED_ORIGINAL_METHODS`. -/
def allowedOriginalMethods : List String := ["deterministic", "llm"]

/-- `put`.  `atInsert` is the table at the insertion, where a concurrent writer may have put an
entry of the same identity. -/
def put (table atInsert : CacheTable) (key : CacheKey) (output : EnrichmentOutput)
    (originalMethod : String) : Except String CacheTable :=
  if originalMethod ∉ allowedOriginalMethods then
    .error "original_method must be 'deterministic' or 'llm'"
  else
    match table key with
    | some entry =>
        .ok (Function.update table key (some ⟨some output, originalMethod, entry.hitCount⟩))
    | none =>
        match atInsert key with
        | none => .ok (Function.update atInsert key (some ⟨some output, originalMethod, 0⟩))
        | some entry =>
            .ok (Function.update atInsert key (some ⟨some output, originalMethod, entry.hitCount⟩))

/-- The columns of a processed article that come from an output. -/
def columns (row : Pipeline.ProcessedArticle) : EnrichmentOutput where
  summary := row.summary
  category := row.topLevelCategory
  signalTags := row.signalTags
  prioritySignal := row.prioritySignal
  detectedSuppliers := row.detectedSuppliers
  detectedRegions := row.detectedRegions
  detectedCategories := row.detectedCategories

/-- An insertion or an update is the `put` of the pipeline, at one of the two tables. -/
theorem put_eq_ok {table atInsert : CacheTable} {key : CacheKey} {output : EnrichmentOutput}
    {originalMethod : String} (h : originalMethod ∈ allowedOriginalMethods) :
    ∃ t, put table atInsert key output originalMethod =
      .ok (cachePut t key output originalMethod) := by
  unfold put
  rw [if_neg (not_not.mpr h)]
  cases htable : table key with
  | some entry => exact ⟨table, by rw [cachePut, htable]; rfl⟩
  | none =>
      refine ⟨atInsert, ?_⟩
      cases hinsert : atInsert key with
      | none => rw [cachePut, hinsert]; rfl
      | some entry => rw [cachePut, hinsert]; rfl

/-! ## Entity lists -/

/-- A list without blanks, stripped and without repetitions is merged into itself. -/
theorem mergeEntitiesInto_of_nodup {U : Unicode} {merged values : List String}
    (hnodup : (merged ++ values).Nodup) (h : ∀ v ∈ values, U.strip v = v ∧ v ≠ "") :
    mergeEntitiesInto U merged values = merged ++ values := by
  induction values generalizing merged with
  | nil => rw [mergeEntitiesInto, List.append_nil]
  | cons v values ih =>
      obtain ⟨hstrip, hne⟩ := h v List.mem_cons_self
      have hnew : v ∉ merged := fun hmem =>
        (List.nodup_append.mp hnodup).2.2 v hmem v List.mem_cons_self rfl
      have happend : merged ++ v :: values = merged ++ [v] ++ values := by
        rw [List.append_assoc, List.singleton_append]
      rw [mergeEntitiesInto, hstrip, if_pos ⟨hne, hnew⟩, happend]
      exact ih (happend ▸ hnodup) fun w hw => h w (List.mem_cons_of_mem v hw)

theorem strip_strip (U : Unicode) (s : String) : U.strip (U.strip s) = U.strip s := by
  rw [Unicode.strip, Unicode.strip, String.toList_ofList, Unicode.strip_strip_toList]

/-- **Merging again changes nothing.** -/
theorem mergeEntities_mergeEntities (U : Unicode) (groups : List (List String)) :
    mergeEntities U [mergeEntities U groups] = mergeEntities U groups := by
  obtain ⟨hnodup, hmem⟩ := mem_mergeEntities U groups
  have hvalues : ∀ v ∈ mergeEntities U groups, U.strip v = v ∧ v ≠ "" := by
    intro v hv
    obtain ⟨hne, group, -, value, -, rfl⟩ := (hmem v).mp hv
    exact ⟨strip_strip U value, hne⟩
  have hself := @mergeEntitiesInto_of_nodup U [] (mergeEntities U groups)
    (by rwa [List.nil_append]) hvalues
  have hflatten : [mergeEntities U groups].flatten = mergeEntities U groups := by
    rw [List.flatten_cons, List.flatten_nil, List.append_nil]
  conv_lhs => rw [mergeEntities, hflatten, hself, List.nil_append]

/-! ## Tags -/

theorem canonicalSignalTag_mem {U : Unicode} {value tag : String}
    (h : canonicalSignalTag U value = some tag) : tag ∈ validSignalTags := by
  have horder : ∀ tag ∈ canonicalSignalTagOrder, tag ∈ validSignalTags := by decide
  unfold canonicalSignalTag at h
  dsimp only at h
  split_ifs at h
  split at h
  · rename_i variant hvariant
    rw [← Option.some.inj h]
    simpa using List.find?_some hvariant
  · exact horder tag (List.mem_of_find?_eq_some h)

/-- The tags that are stored are valid and stored once. -/
theorem canonicalSignalTagsInto_spec {U : Unicode} (values tags : List String)
    (hnodup : tags.Nodup) (hvalid : ∀ tag ∈ tags, tag ∈ validSignalTags) :
    (canonicalSignalTagsInto U tags values).Nodup ∧
      ∀ tag ∈ canonicalSignalTagsInto U tags values, tag ∈ validSignalTags := by
  induction values generalizing tags with
  | nil => exact ⟨hnodup, hvalid⟩
  | cons value values ih =>
      rw [canonicalSignalTagsInto]
      cases htag : canonicalSignalTag U value with
      | none => exact ih tags hnodup hvalid
      | some tag =>
          by_cases hmem : tag ∈ tags
          · dsimp only
            rw [if_pos hmem]
            exact ih tags hnodup hvalid
          · dsimp only
            rw [if_neg hmem]
            refine ih (tags ++ [tag]) (List.nodup_append.mpr ⟨hnodup, List.nodup_singleton tag, ?_⟩)
              fun t ht => ?_
            · rintro t ht t' ht' rfl
              exact hmem (List.mem_singleton.mp ht' ▸ ht)
            rcases List.mem_append.mp ht with ht | ht
            · exact hvalid t ht
            · rw [List.mem_singleton.mp ht]
              exact canonicalSignalTag_mem htag

section Laws

variable {U : Unicode} (laws : U.AsciiLaws)

include laws

/-- A valid tag is its own canonical tag. -/
theorem canonicalSignalTag_self {tag : String} (h : tag ∈ validSignalTags) :
    canonicalSignalTag U tag = some tag := by
  obtain ⟨l, hl, hchars⟩ : ∃ l, validSignalTags.map String.toList = l ∧ ∀ cs ∈ l,
      (cs.all fun c => decide (c.toNat < 0x80)) = true ∧
        Signals.collapseSpace .ascii (((cs.dropWhile Unicode.asciiSpace).rdropWhile Unicode.asciiSpace).map
          Unicode.asciiLower) = cs ∧ cs ≠ [] := by
    apply Exists.intro
    apply And.intro
    · repeat first | exact List.map_nil | apply Unicode.map_toList_cons
    · decide +kernel
  obtain ⟨hall, hself, hcons⟩ := hchars tag.toList (hl ▸ List.mem_map_of_mem h)
  have hascii : Unicode.IsAscii tag := fun c hc => of_decide_eq_true (List.all_eq_true.mp hall c hc)
  have hterm : normalizeSignalTerm .ascii tag = tag := by
    rw [normalizeSignalTerm, Unicode.toList_lower_ascii, Unicode.strip_of_toList rfl,
      String.toList_ofList]
    exact (congrArg String.ofList hself).trans String.ofList_toList
  have hne : tag ≠ "" := fun hnil => hcons (by rw [hnil, String.toList_empty])
  have hvariant : ∀ tag ∈ validSignalTags,
      (signalTermVariants tag).find? (· ∈ validSignalTags) = some tag := by decide +kernel
  rw [canonicalSignalTag, normalizeSignalTerm_ascii laws hascii, hterm, if_neg hne,
    hvariant tag h]

theorem canonicalSignalTagsInto_self {tags values : List String} (hnodup : (tags ++ values).Nodup)
    (h : ∀ tag ∈ values, tag ∈ validSignalTags) :
    canonicalSignalTagsInto U tags values = tags ++ values := by
  induction values generalizing tags with
  | nil => rw [canonicalSignalTagsInto, List.append_nil]
  | cons tag values ih =>
      have hnew : tag ∉ tags := fun hmem =>
        (List.nodup_append.mp hnodup).2.2 tag hmem tag List.mem_cons_self rfl
      have happend : tags ++ tag :: values = tags ++ [tag] ++ values := by
        rw [List.append_assoc, List.singleton_append]
      rw [canonicalSignalTagsInto, canonicalSignalTag_self laws (h tag List.mem_cons_self)]
      dsimp only
      rw [if_neg hnew, happend]
      exact ih (happend ▸ hnodup) fun t ht => h t (List.mem_cons_of_mem tag ht)

/-- **Canonical tags stay as they are.** -/
theorem canonicalSignalTags_canonicalSignalTags (values : List String) :
    canonicalSignalTags U (canonicalSignalTags U values) = canonicalSignalTags U values := by
  obtain ⟨hnodup, hvalid⟩ := @canonicalSignalTagsInto_spec U values [] List.nodup_nil
    fun tag htag => absurd htag List.not_mem_nil
  exact @canonicalSignalTagsInto_self U laws [] _ (by rwa [List.nil_append]) hvalid

/-! ## Categories -/

/-- A canonical category is its own category. -/
theorem validateCategory_self {category : String} (h : category ∈ canonicalCategories) :
    validateCategory U category = category := by
  have hlowered : ∀ category ∈ canonicalCategories, Unicode.IsAscii category ∧
      Unicode.ascii.lower category = category := by decide +kernel
  obtain ⟨hascii, hlower⟩ := hlowered category h
  rw [validateCategory, laws.lower category hascii, hlower, canonicalCategory_self laws h]
  exact if_pos h

/-! ## Validation -/

theorem canonicalSignalTag_canonicalSignalTag (value : Option String) :
    (value.bind (canonicalSignalTag U)).bind (canonicalSignalTag U) =
      value.bind (canonicalSignalTag U) := by
  cases htag : value.bind (canonicalSignalTag U) with
  | none => rfl
  | some tag =>
      obtain ⟨v, -, hv⟩ := Option.bind_eq_some_iff.mp htag
      exact canonicalSignalTag_self laws (canonicalSignalTag_mem hv)

/-- **Validation changes nothing** in an output that the pipeline stores, and accepts it. -/
theorem validated_eq_self {output : EnrichmentOutput} (h : Storable U output) :
    output.validated U = output ∧ output.inBounds = true := by
  have haccepted : ∀ {fields output : EnrichmentOutput},
      EnrichmentOutput.create U fields = .ok output →
      output = fields.validated U ∧ output.inBounds = true := by
    intro fields output hcreate
    have houtput := EnrichmentOutput.create_eq_ok U hcreate
    refine ⟨houtput, ?_⟩
    unfold EnrichmentOutput.create at hcreate
    split_ifs at hcreate with hbounds
    rw [houtput]
    exact hbounds
  cases h with
  | @deterministic fields _ hcreate =>
      obtain ⟨rfl, hbounds⟩ := haccepted hcreate
      refine ⟨?_, hbounds⟩
      simp only [EnrichmentOutput.validated, mergeEntities_mergeEntities,
        canonicalSignalTags_canonicalSignalTags laws, canonicalSignalTag_canonicalSignalTag laws,
        validateCategory_self laws (validateCategory_mem U fields.category)]
  | @merged fields _ fields' _ hllm hdeterministic =>
      obtain ⟨hllm_eq, hbounds⟩ := haccepted hllm
      refine ⟨?_, hbounds⟩
      subst hllm_eq
      simp only [mergeDeterministicEvidence, EnrichmentOutput.validated,
        mergeEntities_mergeEntities, canonicalSignalTags_canonicalSignalTags laws,
        canonicalSignalTag_canonicalSignalTag laws,
        validateCategory_self laws (validateCategory_mem U fields.category)]

theorem modelValidate_eq_some {output : EnrichmentOutput} (h : Storable U output) :
    modelValidate U output = some output := by
  obtain ⟨hself, hbounds⟩ := validated_eq_self laws h
  rw [modelValidate, EnrichmentOutput.create, hself, if_pos hbounds]
  rfl

/-- **The round trip.** An output that is put is got, over whatever entry there was, with the method
that produced it; and a later article shows what the first one shows. -/
theorem roundTrip {output : EnrichmentOutput} (h : Storable U output) {originalMethod : String}
    (hmethod : originalMethod ∈ allowedOriginalMethods) (table atInsert : CacheTable)
    (key : CacheKey) :
    ∃ t, put table atInsert key output originalMethod = .ok t ∧
      (t key).map (·.originalMethod) = some originalMethod ∧
      ∃ cached t', cacheGet (modelValidate U) t key = some (cached, t') ∧ cached = output ∧
        ∀ (pl : EnrichmentPipeline) (first later : Candidate) (method : Method) (reason : String)
          (confidence : Option ℚ) (llmUsed : Bool) (now now' : Instant),
          columns (processedArticle pl later cached (.route .cached) "compatible_cache_hit" none
            false now') =
          columns (processedArticle pl first output method reason confidence llmUsed now) := by
  obtain ⟨t, hput⟩ := @put_eq_ok table atInsert key output originalMethod hmethod
  have hentry : cachePut t key output originalMethod key =
      some ⟨some output, originalMethod, ((t key).map (·.hitCount)).getD 0⟩ :=
    Function.update_self ..
  refine ⟨_, hput, by rw [hentry]; rfl, output, ?_⟩
  refine ⟨Function.update (cachePut t key output originalMethod) key
    (some ⟨some output, originalMethod, ((t key).map (·.hitCount)).getD 0 + 1⟩), ?_, rfl, ?_⟩
  · rw [cacheGet, hentry, Option.bind_some, Option.bind_some, modelValidate_eq_some laws h]
    rfl
  · exact fun pl first later method reason confidence llmUsed now now' => rfl

end Laws

/-! ## One output -/

/-- What a model answers about a strike, before it is validated. -/
def strikeFields : EnrichmentOutput where
  summary := "Dock workers walked out on Monday."
  category := "Logistics"
  signalTags := ["Walkout", "strike"]
  prioritySignal := some "Strike"
  detectedSuppliers := [" Maersk ", "Maersk"]
  detectedRegions := []
  detectedCategories := ["logistics"]

theorem create_strikeFields : EnrichmentOutput.create .ascii strikeFields =
    .ok (strikeFields.validated .ascii) := if_pos (by decide +kernel)

/-- The answer, merged with itself, over an entry of another method. -/
theorem roundTrip_strike : ∃ t, put (fun _ => some ⟨none, "deterministic", 3⟩) (fun _ => none)
    ("fingerprint", "cost-v1", "signals-v1")
    (mergeDeterministicEvidence .ascii (strikeFields.validated .ascii)
      (strikeFields.validated .ascii)) "llm" = .ok t :=
  (roundTrip Unicode.ascii_asciiLaws (.merged create_strikeFields create_strikeFields)
    (by decide) _ _ _).imp fun _ h => h.1

end ProcureSignal.Enrichment
