/-
# Categories

`personalization/categories.py`: the taxonomy of article categories and the map into it.
-/
import ProcureSignal.Library.Unicode

namespace ProcureSignal.Personalization

/-- `CANONICAL_CATEGORIES`. -/
def canonicalCategories : List String :=
  ["automotive", "electronics", "chemicals", "raw_materials", "metals_mining", "energy",
   "manufacturing", "logistics", "packaging", "construction", "food_agriculture",
   "pharma_healthcare", "aerospace_defense", "retail_consumer", "technology", "finance", "labor",
   "geopolitical", "sustainability", "regulatory", "general"]

/-- `CATEGORY_ALIASES`. -/
def categoryAliases : List (String × String) :=
  [("auto", "automotive"), ("automobile", "automotive"), ("automobiles", "automotive"),
   ("car", "automotive"), ("cars", "automotive"), ("ev", "automotive"), ("evs", "automotive"),
   ("vehicle", "automotive"), ("vehicles", "automotive"), ("chip", "electronics"),
   ("chips", "electronics"), ("electronic", "electronics"), ("semiconductor", "electronics"),
   ("semiconductors", "electronics"), ("tech", "technology"), ("software", "technology"),
   ("saas", "technology"), ("cloud", "technology"), ("artificial intelligence", "technology"),
   ("ai", "technology"), ("chemical", "chemicals"), ("commodity", "raw_materials"),
   ("commodities", "raw_materials"), ("raw material", "raw_materials"),
   ("raw materials", "raw_materials"), ("critical material", "raw_materials"),
   ("critical materials", "raw_materials"), ("metal", "metals_mining"),
   ("metals", "metals_mining"), ("mining", "metals_mining"),
   ("critical mineral", "metals_mining"), ("critical minerals", "metals_mining"),
   ("lithium", "metals_mining"), ("copper", "metals_mining"), ("steel", "metals_mining"),
   ("freight", "logistics"), ("shipping", "logistics"), ("supply chain", "logistics"),
   ("supply_chain", "logistics"), ("transport", "logistics"), ("transportation", "logistics"),
   ("factory", "manufacturing"), ("factories", "manufacturing"), ("industrial", "manufacturing"),
   ("industry", "manufacturing"), ("pack", "packaging"), ("packaging", "packaging"),
   ("container", "packaging"), ("containers", "packaging"), ("building", "construction"),
   ("construction", "construction"), ("infrastructure", "construction"),
   ("agriculture", "food_agriculture"), ("agri", "food_agriculture"),
   ("food", "food_agriculture"), ("farming", "food_agriculture"), ("crop", "food_agriculture"),
   ("crops", "food_agriculture"), ("pharma", "pharma_healthcare"),
   ("pharmaceutical", "pharma_healthcare"), ("pharmaceuticals", "pharma_healthcare"),
   ("healthcare", "pharma_healthcare"), ("medical", "pharma_healthcare"),
   ("aerospace", "aerospace_defense"), ("defence", "aerospace_defense"),
   ("defense", "aerospace_defense"), ("consumer", "retail_consumer"),
   ("retail", "retail_consumer"), ("finance", "finance"), ("financial", "finance"),
   ("currency", "finance"), ("fx", "finance"), ("labor", "labor"), ("labour", "labor"),
   ("workforce", "labor"), ("geopolitical", "geopolitical"), ("geopolitics", "geopolitical"),
   ("war", "geopolitical"), ("conflict", "geopolitical"), ("sustainability", "sustainability"),
   ("climate", "sustainability"), ("emissions", "sustainability"), ("esg", "sustainability"),
   ("compliance", "regulatory"), ("legal", "regulatory"), ("regulation", "regulatory"),
   ("regulations", "regulatory"), ("oil", "energy"), ("gas", "energy"), ("power", "energy"),
   ("renewable", "energy"), ("renewables", "energy"), ("utility", "energy"),
   ("utilities", "energy")]

/-- `CATEGORY_KEYWORDS`. -/
def categoryKeywords : List (String × List String) :=
  [("automotive",
    ["automotive", "auto", "automobile", "car", "cars", "ev", "fleet", "mobility", "vehicle",
     "vehicles"]),
   ("electronics",
    ["chip", "chips", "electronics", "hardware", "memory", "semiconductor", "semiconductors"]),
   ("technology",
    ["ai", "artificial", "cloud", "cybersecurity", "data", "digital", "saas", "software", "tech",
     "technology"]),
   ("chemicals",
    ["chemical", "chemicals", "fertilizer", "plastics", "polymer", "resin"]),
   ("raw_materials",
    ["commodity", "commodities", "material", "materials", "raw", "shortage"]),
   ("metals_mining",
    ["aluminum", "copper", "critical", "lithium", "metal", "metals", "mineral", "minerals",
     "mining", "nickel", "rare", "steel"]),
   ("energy",
    ["battery", "electricity", "energy", "gas", "oil", "power", "renewable", "renewables",
     "solar", "utility", "wind"]),
   ("manufacturing",
    ["factory", "factories", "industrial", "industry", "manufacturing", "plant", "production"]),
   ("logistics",
    ["cargo", "freight", "logistics", "port", "shipping", "supply", "transport",
     "transportation", "warehouse"]),
   ("packaging",
    ["bottle", "box", "container", "containers", "pack", "packaging", "paper", "pallet"]),
   ("construction",
    ["building", "cement", "construction", "infrastructure", "lumber", "project"]),
   ("food_agriculture",
    ["agriculture", "crop", "crops", "farm", "farming", "food", "grain", "wheat"]),
   ("pharma_healthcare",
    ["drug", "healthcare", "medical", "medicine", "pharma", "pharmaceutical", "pharmaceuticals"]),
   ("aerospace_defense",
    ["aerospace", "aircraft", "aviation", "defence", "defense", "military"]),
   ("retail_consumer",
    ["consumer", "demand", "retail", "store", "stores"]),
   ("finance",
    ["currency", "finance", "financial", "fx", "inflation", "rate", "rates"]),
   ("labor",
    ["labor", "labour", "strike", "union", "wage", "workforce"]),
   ("geopolitical",
    ["conflict", "geopolitical", "geopolitics", "military", "sanctions", "war"]),
   ("sustainability",
    ["carbon", "climate", "emissions", "esg", "sustainability", "sustainable"]),
   ("regulatory",
    ["compliance", "law", "legal", "policy", "regulation", "regulations", "regulatory", "rules",
     "sanctions", "tariff", "trade"])]

variable (U : Unicode)

/-- `" ".join(text.split())`. -/
def joinWords (text : String) : String := " ".intercalate (U.split text)

/-- Hyphens and underscores become spaces. -/
def separateWords (text : String) : String :=
  String.ofList (text.toList.map fun c => if c = '-' ∨ c = '_' then ' ' else c)

/-- `normalize_category_key`. -/
def normalizeCategoryKey (value : String) : String :=
  joinWords U (separateWords (U.lower (U.strip value)))

/-- `max(items, key=lambda item: item[1])`: the first of the largest. -/
def firstMax : String × ℕ → List (String × ℕ) → String × ℕ
  | best, [] => best
  | best, item :: items => firstMax (if best.2 < item.2 then item else best) items

/-- The keywords of a category among the words of a key. -/
def keywordScores (key : String) : List (String × ℕ) :=
  let tokens := U.split key
  categoryKeywords.map fun (category, keywords) => (category, keywords.countP (· ∈ tokens))

/-- `canonical_category`. -/
def canonicalCategory (value : String) : String :=
  let key := normalizeCategoryKey U value
  if key ∈ canonicalCategories then key
  else
    match categoryAliases.lookup key with
    | some category => category
    | none =>
        let best := firstMax ("", 0) (keywordScores U key)
        if 0 < best.2 then best.1 else key

/-- The loop of `canonical_category_list`. -/
def canonicalCategoryListInto (normalized : List String) : List String → List String
  | [] => normalized
  | value :: values =>
      let category := canonicalCategory U value
      canonicalCategoryListInto
        (if category ≠ "" ∧ category ∉ normalized then normalized ++ [category] else normalized)
        values

/-- `canonical_category_list`, and `canonical_category_set` as a list. -/
def canonicalCategoryList (values : List String) : List String :=
  canonicalCategoryListInto U [] values

variable {U}

attribute [local irreducible] canonicalCategory in
theorem canonicalCategoryListInto_cons (normalized : List String) (value : String)
    (values : List String) :
    canonicalCategoryListInto U normalized (value :: values) =
      canonicalCategoryListInto U
        (if canonicalCategory U value ≠ "" ∧ canonicalCategory U value ∉ normalized then
          normalized ++ [canonicalCategory U value]
        else normalized) values := rfl

/-- **The categories of a list** are the canonical forms of its values. -/
theorem mem_canonicalCategoryListInto {values normalized : List String} {category : String} :
    category ∈ canonicalCategoryListInto U normalized values ↔
      category ∈ normalized ∨
        category ≠ "" ∧ ∃ value ∈ values, canonicalCategory U value = category := by
  induction values generalizing normalized with
  | nil =>
      show category ∈ normalized ↔ _
      simp
  | cons value values ih =>
      rw [canonicalCategoryListInto_cons, ih, List.exists_mem_cons_iff]
      generalize canonicalCategory U value = c
      split
      · rw [List.mem_append, List.mem_singleton]
        grind
      · grind

theorem mem_canonicalCategoryList {values : List String} {category : String} :
    category ∈ canonicalCategoryList U values ↔
      category ≠ "" ∧ ∃ value ∈ values, canonicalCategory U value = category := by
  rw [canonicalCategoryList, mem_canonicalCategoryListInto, or_iff_right List.not_mem_nil]

end ProcureSignal.Personalization
