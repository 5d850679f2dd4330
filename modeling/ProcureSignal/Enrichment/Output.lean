/-
# Validation of enrichment outputs

The validators of `EnrichmentOutput` in `enrichment/output_parser.py`.
-/
import ProcureSignal.Enrichment.Cache
import ProcureSignal.Personalization.Categories
import ProcureSignal.Signals.Taxonomy

namespace ProcureSignal.Enrichment

open ProcureSignal.Personalization (canonicalCategories canonicalCategory)
open ProcureSignal.Signals (canonicalSignalTag canonicalSignalTags)

variable (U : Unicode)

/-- `validate_category`. -/
def validateCategory (value : String) : String :=
  let category := canonicalCategory U (U.lower value)
  if category ∈ canonicalCategories then category else "general"

/-- The fields as the validators leave them. -/
def EnrichmentOutput.validated (fields : EnrichmentOutput) : EnrichmentOutput where
  summary := fields.summary
  category := validateCategory U fields.category
  signalTags := canonicalSignalTags U fields.signalTags
  prioritySignal := fields.prioritySignal.bind (canonicalSignalTag U)
  detectedSuppliers := mergeEntities U [fields.detectedSuppliers]
  detectedRegions := mergeEntities U [fields.detectedRegions]
  detectedCategories := mergeEntities U [fields.detectedCategories]

/-- The bounds on the lengths of the summary and the category. -/
def EnrichmentOutput.inBounds (output : EnrichmentOutput) : Bool :=
  10 ≤ output.summary.length && output.summary.length ≤ 1000 &&
    3 ≤ output.category.length && output.category.length ≤ 50

/-- `EnrichmentOutput(…)`. -/
def EnrichmentOutput.create (fields : EnrichmentOutput) : Except String EnrichmentOutput :=
  if (fields.validated U).inBounds then .ok (fields.validated U) else .error "ValidationError"

theorem EnrichmentOutput.create_eq_ok {fields output : EnrichmentOutput}
    (h : EnrichmentOutput.create U fields = .ok output) : output = fields.validated U := by
  unfold create at h
  split at h
  · exact (Except.ok.inj h).symm
  · cases h

end ProcureSignal.Enrichment
