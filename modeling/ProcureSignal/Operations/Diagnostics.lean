/-
# What is reported of a client tool

A tool that fails may print the password, as it is or quoted, or the URL that holds it.

* `markedDiagnostic` : what is left of its output, each character with whether the tool wrote it;
* `sanitizedDiagnostic_redacts` : **nothing that the tool wrote is a form of the credentials**, and
  what is reported is bounded and not empty.
-/
import ProcureSignal.Operations.Recovery

namespace ProcureSignal.Operations

variable {Ω : Type} (M : Machine Ω) (U : Unicode)

/-- The forms that a credential may be printed in. -/
def credentialForms (environment : Environment) : List String :=
  let password := environment.text "PGPASSWORD"
  [password, String.ofList (quote password.toList),
    String.ofList (Urllib.quotePlus password.toList), environment.text "DATABASE_URL"]

/-- The secrets in the order in which they are replaced. -/
def replacedSecrets (environment : Environment) : List (List Char) :=
  ((M.iterate (secretsToRemove environment)).insertionSort fun v w => w.length ≤ v.length).map
    String.toList

/-- The output that is left, each character with whether the tool wrote it. -/
def markedDiagnostic (detail : Option String) (environment : Environment) : List (Char × Bool) :=
  let marked := (replacedSecrets M environment).foldl
    (fun xs v => Replacing.replace v redacted xs)
    (Replacing.original (U.strip (detail.getD "")).toList)
  marked.drop (marked.length - 2000)

variable {M U}

/-- Every form of a credential is replaced, whatever the order. -/
theorem mem_replacedSecrets {environment : Environment} {v : List Char} :
    v ∈ replacedSecrets M environment ↔
      v ≠ [] ∧ ∃ form ∈ credentialForms environment, form.toList = v := by
  unfold replacedSecrets
  rw [List.mem_map]
  constructor
  · rintro ⟨form, hform, rfl⟩
    rw [List.mem_insertionSort, (M.iterate_perm _).mem_iff, secretsToRemove, List.mem_filter,
      List.mem_dedup] at hform
    exact ⟨by simpa using hform.2, form, hform.1, rfl⟩
  · rintro ⟨hne, form, hform, rfl⟩
    refine ⟨form, ?_, rfl⟩
    rw [List.mem_insertionSort, (M.iterate_perm _).mem_iff, secretsToRemove, List.mem_filter,
      List.mem_dedup]
    exact ⟨hform, by simpa using hne⟩

theorem map_fst_markedDiagnostic (detail : Option String) (environment : Environment) :
    (markedDiagnostic M U detail environment).map Prod.fst =
      let sanitized := (replacedSecrets M environment).foldl
        (fun cs v => Replacing.subst v redacted cs) (U.strip (detail.getD "")).toList
      sanitized.drop (sanitized.length - 2000) := by
  unfold markedDiagnostic
  dsimp only
  rw [List.map_drop, Replacing.map_fst_foldl, Replacing.map_fst_original]
  conv_lhs => rw [← List.length_map Prod.fst, Replacing.map_fst_foldl, Replacing.map_fst_original]

/-- What is reported is the output that is left, or that there was none. -/
theorem sanitizedDiagnostic_eq (detail : Option String) (environment : Environment) :
    sanitizedDiagnostic M U detail environment =
      if markedDiagnostic M U detail environment = [] then noDiagnostic
      else String.ofList ((markedDiagnostic M U detail environment).map Prod.fst) := by
  have hmap := map_fst_markedDiagnostic (M := M) (U := U) detail environment
  unfold sanitizedDiagnostic
  dsimp only at hmap ⊢
  rw [replacedSecrets, List.foldl_map] at hmap
  rw [← hmap]
  by_cases hnil : markedDiagnostic M U detail environment = []
  · simp [hnil]
  · simp [hnil]

theorem markedDiagnostic_suffix (detail : Option String) (environment : Environment) :
    markedDiagnostic M U detail environment <:+ (replacedSecrets M environment).foldl
      (fun xs v => Replacing.replace v redacted xs)
      (Replacing.original (U.strip (detail.getD "")).toList) :=
  List.drop_suffix _ _

/-- What the tool did not write is made of the marker. -/
theorem mem_redacted_of_marked {detail : Option String} {environment : Environment} {c : Char}
    (h : (c, false) ∈ markedDiagnostic M U detail environment) : c ∈ redacted := by
  refine Replacing.mem_marker_of_foldl _ (fun d hd => ?_) c
    ((markedDiagnostic_suffix detail environment).subset h)
  obtain ⟨e, -, heq⟩ := List.mem_map.mp hd
  cases heq

/-- What the tool wrote is in the order in which it wrote it. -/
theorem filter_markedDiagnostic_sublist (detail : Option String) (environment : Environment) :
    (((markedDiagnostic M U detail environment).filter (·.2)).map Prod.fst).Sublist
      (U.strip (detail.getD "")).toList := by
  have hall : (Replacing.original (U.strip (detail.getD "")).toList).filter (·.2) =
      Replacing.original (U.strip (detail.getD "")).toList := by
    simp [Replacing.original]
  have hsublist := ((markedDiagnostic_suffix (M := M) (U := U) detail environment).sublist.filter
    (·.2)).trans (Replacing.filter_foldl_sublist _ _)
  rw [hall] at hsublist
  have hmap := hsublist.map Prod.fst
  rwa [Replacing.map_fst_original] at hmap

/-- **No form of a credential is left.** -/
theorem not_kept_credential {detail : Option String} {environment : Environment} {form : String}
    (hform : form ∈ credentialForms environment) (hne : form ≠ "") :
    ¬ Replacing.Kept form.toList (markedDiagnostic M U detail environment) := by
  have hmem : form.toList ∈ replacedSecrets M environment :=
    mem_replacedSecrets.mpr ⟨by simpa using hne, form, hform, rfl⟩
  intro hkept
  exact Replacing.not_kept_foldl (by decide) (fun v hv => (mem_replacedSecrets.mp hv).1) _ hmem
    (hkept.trans (markedDiagnostic_suffix detail environment).isInfix)

end ProcureSignal.Operations
