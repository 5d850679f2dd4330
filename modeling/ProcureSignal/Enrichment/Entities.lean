/-
# Regions and suppliers in a text

`enrichment/entities.py`: the aliases of regions and the patterns of supplier names.

The known suppliers are a set: in which order a process iterates it is a parameter
(`SupplierOrder`).
-/
import ProcureSignal.Library.Regex
import ProcureSignal.Library.Unicode

namespace ProcureSignal.Enrichment

/-! ## Vocabulary -/

/-- `REGION_ALIASES`. -/
def regionAliases : List (String × String) :=
  [("us", "United States"), ("u.s.", "United States"), ("usa", "United States"),
   ("united states", "United States"), ("uk", "United Kingdom"), ("u.k.", "United Kingdom"),
   ("united kingdom", "United Kingdom"), ("eu", "European Union"),
   ("european union", "European Union"), ("europe", "Europe"), ("european", "Europe"),
   ("eurozone", "Europe"), ("brussels", "European Union"), ("asia", "Asia"),
   ("middle east", "Middle East"), ("mideast", "Middle East"), ("gulf", "Middle East"),
   ("persian gulf", "Middle East"), ("hormuz", "Middle East"),
   ("strait of hormuz", "Middle East"), ("red sea", "Middle East"), ("suez", "Middle East"),
   ("bahrain", "Bahrain"), ("iran", "Iran"), ("iranian", "Iran"), ("iraq", "Iraq"),
   ("israel", "Israel"), ("jordan", "Jordan"), ("kuwait", "Kuwait"), ("lebanon", "Lebanon"),
   ("oman", "Oman"), ("qatar", "Qatar"), ("qatari", "Qatar"), ("saudi arabia", "Saudi Arabia"),
   ("saudi", "Saudi Arabia"), ("syria", "Syria"), ("uae", "United Arab Emirates"),
   ("united arab emirates", "United Arab Emirates"), ("yemen", "Yemen"), ("china", "China"),
   ("chinese", "China"), ("germany", "Germany"), ("german", "Germany"),
   ("deutschland", "Germany"), ("allemagne", "Germany"), ("france", "France"),
   ("french", "France"), ("italy", "Italy"), ("italian", "Italy"),
   ("netherlands", "Netherlands"), ("dutch", "Netherlands"), ("spain", "Spain"),
   ("spanish", "Spain"), ("poland", "Poland"), ("polish", "Poland"),
   ("czech republic", "Czech Republic"), ("czechia", "Czech Republic"), ("austria", "Austria"),
   ("belgium", "Belgium"), ("sweden", "Sweden"), ("switzerland", "Switzerland"),
   ("swiss", "Switzerland"), ("denmark", "Denmark"), ("finland", "Finland"),
   ("norway", "Norway"), ("ireland", "Ireland"), ("portugal", "Portugal"),
   ("hungary", "Hungary"), ("romania", "Romania"), ("slovakia", "Slovakia"),
   ("slovenia", "Slovenia"), ("lithuania", "Lithuania"), ("latvia", "Latvia"),
   ("estonia", "Estonia"), ("india", "India"), ("japan", "Japan"), ("mexico", "Mexico"),
   ("canada", "Canada"), ("brazil", "Brazil"), ("vietnam", "Vietnam"), ("taiwan", "Taiwan"),
   ("south korea", "South Korea"), ("korea", "South Korea")]

/-- `KNOWN_SUPPLIERS`. -/
def knownSuppliers : List String :=
  ["Anthropic", "Apple", "Bosch", "Critical Metals", "Ferrari", "Genuine Parts", "Mercedes",
   "Motherson", "Nexans", "OpenAI", "O'Reilly Automotive", "Siemens", "Toyota", "Volkswagen"]

/-- The order in which a process iterates `KNOWN_SUPPLIERS`. -/
def SupplierOrder : Type := { order : List String // order.Perm knownSuppliers }

/-- The order of the text of the source. -/
def SupplierOrder.listed : SupplierOrder := ⟨knownSuppliers, List.Perm.refl _⟩

/-- `sorted(KNOWN_SUPPLIERS, key=len, reverse=True)`; the sort is stable. -/
def SupplierOrder.longestFirst (order : SupplierOrder) : List String :=
  order.1.insertionSort fun s t => t.length ≤ s.length

/-! ## Patterns -/

/-- `[a-z]`. -/
def isLowerLetter (c : Char) : Bool := 'a' ≤ c && c ≤ 'z'

/-- `[A-Z]`. -/
def isUpperLetter (c : Char) : Bool := 'A' ≤ c && c ≤ 'Z'

/-- `[A-Za-z]`. -/
def isAsciiLetter (c : Char) : Bool := isLowerLetter c || isUpperLetter c

/-- `[A-Za-z&'.-]`. -/
def isNameChar (c : Char) : Bool :=
  isAsciiLetter c || c = '&' || c = Char.ofNat 39 || c = '.' || c = '-'

section Patterns

variable (U : Unicode)

/-- A word boundary. -/
def wordBoundary : Regex :=
  .look fun before after =>
    before.any (fun c => U.isAlnum c || c = '_') != after.any (fun c => U.isAlnum c || c = '_')

/-- `[A-Z][A-Za-z&'.-]*`. -/
def nameWord : Regex := .seq (.char isUpperLetter) (.star (.char isNameChar))

/-- One white space or more. -/
def spaces : Regex := .seq (.char U.isSpace) (.star (.char U.isSpace))

/-- A legal form, with or without a full stop. -/
def legalForm (text : String) (dot : Bool) : Regex :=
  .seq (Regex.literal text.toList) (.upTo (if dot then 1 else 0) (.char (· = '.')))

/-- The alternatives of the legal forms. -/
def legalForms : Regex :=
  .alt (legalForm "AG" false) <| .alt (legalForm "Corp" true) <|
  .alt (legalForm "Corporation" false) <| .alt (legalForm "Co" true) <|
  .alt (legalForm "Company" false) <| .alt (legalForm "GmbH" false) <|
  .alt (legalForm "Group" false) <| .alt (legalForm "Inc" true) <|
  .alt (legalForm "Ltd" true) <| .alt (legalForm "PLC" false) <|
  .alt (legalForm "SA" false) (legalForm "SE" false)

/-- `COMPANY_SUFFIX_PATTERN`. -/
def companySuffixPattern : Regex :=
  .seq (wordBoundary U) <| .seq nameWord <| .seq (.upTo 4 (.seq (spaces U) nameWord)) <|
  .seq (spaces U) <| .seq legalForms (wordBoundary U)

/-! ## Extraction -/

/-- `canonical_region_name`. -/
def canonicalRegionName (value : String) : String :=
  let text := U.strip value
  if text = "" then "" else (regionAliases.lookup (U.lower text)).getD text

/-- The loop over the aliases. -/
def regionsIn (lowered : String) (regions : List String) : List (String × String) → List String
  | [] => regions
  | (name, canonical) :: rest =>
      regionsIn lowered
        (if (Regex.phrase isLowerLetter name).search lowered && canonical ∉ regions then
          regions ++ [canonical]
        else regions)
        rest

/-- `extract_regions_from_text`. -/
def extractRegionsFromText (text : String) : List String :=
  regionsIn (U.lower text) [] regionAliases

/-- `name.strip(" .")`. -/
def stripName (name : String) : String :=
  let p := fun c : Char => c = ' ' || c = '.'
  String.ofList ((name.toList.dropWhile p).rdropWhile p)

/-- `extract_suppliers_from_text`. -/
def extractSuppliersFromText (order : SupplierOrder) (text : String) : List String :=
  let known := order.longestFirst.filter fun supplier =>
    (Regex.phrase isAsciiLetter supplier).search text
  let named := ((companySuffixPattern U).findAll text).map stripName
  (known ++ named.filter (· ≠ "")).foldl
    (fun suppliers name => if name ∈ suppliers then suppliers else suppliers ++ [name]) []

end Patterns

end ProcureSignal.Enrichment
