/-
# Name normalization for supplier resolution

`normalize`, `fold_accents`, `strip_legal_form` and `alias_forms` of
`suppliers/normalization.py`, over the tables of the character database.
-/
import ProcureSignal.Library.Unicode

namespace ProcureSignal.Suppliers

variable (U : Unicode)

/-! ## Normalization -/

/-- `normalize`: compatibility form, case folding, every run of other characters
than letters and digits a separator, tokens joined by one space. -/
def normalize (name : String) : String :=
  " ".intercalate
    (U.split (String.ofList (U.subNonAlphanumeric (U.casefold (U.nfkc name)).toList)))

/-- Blank text has no normal form. -/
theorem normalize_eq_empty_of_strip {name : String} (h : U.strip name = "") :
    normalize U name = "" := by
  have hblank := U.fold_blank name ((U.strip_eq_empty_iff name).mp h)
  have hspace : ∀ c ∈ U.subNonAlphanumeric (U.casefold (U.nfkc name)).toList,
      U.isSpace c = true := by
    intro c hc
    rw [U.mem_subNonAlphanumeric hblank c hc]
    exact U.isSpace_space
  rw [normalize, U.split_eq_nil (by simpa using hspace)]
  rfl

/-- White space at the ends plays no role. -/
theorem normalize_strip (h : U.StripLaws) (name : String) :
    normalize U (U.strip name) = normalize U name := by
  obtain ⟨before, after, hfold, hother⟩ := h.fold_strip name
  obtain ⟨hbefore, hafter⟩ := List.forall_mem_append.mp hother
  rw [normalize, normalize, hfold, U.split_subNonAlphanumeric, U.split_subNonAlphanumeric,
    U.words_append_right hafter, U.words_append_left hbefore]

/-- `_UNDECOMPOSABLE`: letters that carry no combining accent to strip. -/
def undecomposable : Char → String
  | 'ø' => "o"
  | 'Ø' => "o"
  | 'æ' => "ae"
  | 'Æ' => "ae"
  | 'œ' => "oe"
  | 'Œ' => "oe"
  | 'đ' => "d"
  | 'Đ' => "d"
  | 'ð' => "d"
  | 'Ð' => "d"
  | 'ł' => "l"
  | 'Ł' => "l"
  | 'þ' => "th"
  | 'Þ' => "th"
  | 'ħ' => "h"
  | 'ı' => "i"
  | 'ŋ' => "n"
  | 'ĸ' => "k"
  | c => String.singleton c

/-- `fold_accents`: the spelling without diacritics. -/
def foldAccents (normalized : String) : String :=
  let translated := String.ofList (normalized.toList.flatMap fun c => (undecomposable c).toList)
  let stripped := String.ofList ((U.nfd translated).toList.filter fun c => !U.combining c)
  " ".intercalate (U.split (U.nfc stripped))

/-! ## Legal forms -/

/-- `LEGAL_FORMS`. -/
def legalForms : List String :=
  ["ag", "gmbh", "mbh", "se", "kg", "kgaa", "ohg", "gbr",
    "inc", "corp", "corporation", "co", "company", "llc", "lp", "llp",
    "ltd", "limited", "plc",
    "sa", "sas", "sarl", "sca", "sl", "sau",
    "nv", "bv", "cv",
    "spa", "srl", "snc",
    "ab", "as", "asa", "oy", "oyj", "aps",
    "pty", "pte", "bhd", "sdn"]

/-- `_MAXIMUM_FORM_TOKENS`. -/
def maximumFormTokens : ℕ := 3

/-- `MINIMUM_DERIVED_ALIAS_LENGTH`. -/
def minimumDerivedAliasLength : ℕ := 3

/-- The number of trailing tokens that, joined, are a legal form, longest first;
at least one token stays. -/
def legalSuffix? (parts : List String) : Option ℕ :=
  (List.range' 1 (min maximumFormTokens (parts.length - 1))).reverse.find? fun size =>
    String.join (parts.drop (parts.length - size)) ∈ legalForms

/-- The `while True` loop of `strip_legal_form`; each round drops at least one
token, so as many rounds as there are tokens reach the end. -/
def stripLegalFormLoop : ℕ → List String → List String
  | 0, parts => parts
  | fuel + 1, parts =>
      match legalSuffix? parts with
      | some size => stripLegalFormLoop fuel (parts.take (parts.length - size))
      | none => parts

/-- `strip_legal_form`. -/
def stripLegalForm (normalized : String) : String :=
  let parts := U.split normalized
  " ".intercalate (stripLegalFormLoop parts.length parts)

/-! ## Derived aliases -/

/-- `alias_forms`: the normalized spellings that resolve to a supplier of this name. -/
def aliasForms (canonicalName : String) : List String :=
  let canonical := normalize U canonicalName
  if canonical = "" then []
  else
    let stripped := stripLegalForm U canonical
    let forms :=
      if stripped ≠ canonical ∧ minimumDerivedAliasLength ≤ stripped.length then
        [canonical, stripped]
      else [canonical]
    forms ++ (forms.map fun form => (form, foldAccents U form)).filterMap fun (form, folded) =>
      if folded ≠ form ∧ minimumDerivedAliasLength ≤ folded.length then some folded else none

example : aliasForms Unicode.ascii "Siemens A.G." = ["siemens a g", "siemens"] := by
  decide +kernel

end ProcureSignal.Suppliers
