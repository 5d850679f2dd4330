/-
# Reciprocal rank fusion

`fuse` of `search/hybrid.py`: two ranked lists become one, a document scored by the reciprocals of
its ranks and ties broken by the list and the rank of its first discovery, then by its identifier.

* `rank` : where a document stands in a list;
* `Place` : what a document is sorted by, a function of its two ranks and its identifier;
* `before_fuse_iff` : **which of two documents comes first**;
* `fuse_laws` : **the laws of rank fusion**.
-/
import ProcureSignal.Library.Collections

namespace ProcureSignal.Search

/-! ## The fusion -/

/-- `Hit`: an article and the score that one retriever gives it. -/
structure Hit where
  processedId : ℤ
  score : ℚ
  deriving DecidableEq, Repr

/-- `ScoredHit`. -/
structure ScoredHit where
  processedId : ℤ
  score : ℚ
  deriving DecidableEq, Repr

/-- `RRF_K`. -/
def rrfK : ℚ := 60

/-- `contributions` and `provenance`. -/
structure Tally where
  contributions : Dict ℤ ℚ
  provenance : Dict ℤ (ℕ × ℕ)

/-- Before anything is counted. -/
def Tally.empty : Tally := ⟨Dict.empty, Dict.empty⟩

/-- A document at a rank of a list. -/
def Tally.add (k : ℚ) (source rank : ℕ) (t : Tally) (d : ℤ) : Tally where
  contributions := t.contributions.set d ((t.contributions.get? d).getD 0 + 1 / (k + rank))
  provenance :=
    if t.provenance.get? d = none then t.provenance.set d (source, rank) else t.provenance

/-- The documents of a list, from a rank on. -/
def Tally.count (k : ℚ) (source : ℕ) : ℕ → List Hit → Tally → Tally
  | _, [], t => t
  | rank, hit :: hits, t => count k source (rank + 1) hits (t.add k source rank hit.processedId)

/-- Both lists. -/
def tally (k : ℚ) (lexical vector : List Hit) : Tally :=
  Tally.count k 1 1 vector (Tally.count k 0 1 lexical Tally.empty)

/-- What is sorted by: the negated score, the provenance, the identifier. -/
abbrev Place := ℚ ×ₗ (ℕ ×ₗ ℕ) ×ₗ ℤ

/-- The sort key of an item. -/
def Tally.place (t : Tally) (item : ℤ × ℚ) : Place :=
  toLex (-item.2, toLex (toLex ((t.provenance.get? item.1).getD (0, 0)), item.1))

/-- `fuse`. -/
def fuse (k : ℚ) (lexical vector : List Hit) : List ScoredHit :=
  let t := tally k lexical vector
  (t.contributions.entries.insertionSort fun a b => t.place a ≤ t.place b).map fun item =>
    ⟨item.1, item.2⟩

/-- The retrievers that took part. -/
inductive Mode
  | hybrid
  | lexical
  | degraded
  deriving DecidableEq, Repr

/-- `SearchOutcome`. -/
structure SearchOutcome where
  hits : List ScoredHit
  mode : Mode
  lexicalCount : ℕ
  vectorCount : ℕ
  deriving DecidableEq, Repr

/-- `_outcome`. -/
def outcome (lexical vector : List Hit) (mode : Mode) (limit : ℕ) : SearchOutcome where
  hits := (fuse rrfK lexical vector).take limit
  mode := mode
  lexicalCount := lexical.length
  vectorCount := vector.length

/-! ## Ranks -/

/-- The documents of a list. -/
def documents (hits : List Hit) : List ℤ := hits.map (·.processedId)

/-- A list without a document twice. -/
def Ranked (hits : List Hit) : Prop := (documents hits).Nodup

instance (hits : List Hit) : Decidable (Ranked hits) := inferInstanceAs (Decidable (List.Nodup _))

/-- The rank of a document, where the first has the given one. -/
def rankFrom : ℕ → List Hit → ℤ → Option ℕ
  | _, [], _ => none
  | first, hit :: hits, d => if hit.processedId = d then some first else rankFrom (first + 1) hits d

/-- The rank of a document; there is none outside of the list. -/
def rank (hits : List Hit) (d : ℤ) : Option ℕ := rankFrom 1 hits d

/-- What a rank contributes. -/
def share (k : ℚ) : Option ℕ → ℚ
  | none => 0
  | some r => 1 / (k + r)

/-- The score of a document with these ranks. -/
def scoreOf (k : ℚ) (i j : Option ℕ) : ℚ := share k i + share k j

/-- The list and the rank of the first discovery. -/
def provenanceOf (i j : Option ℕ) : Option (ℕ × ℕ) := (i.map (0, ·)).or (j.map (1, ·))

/-- What a document with these ranks is sorted by. -/
def placeOf (k : ℚ) (i j : Option ℕ) (d : ℤ) : Place :=
  toLex (-scoreOf k i j, toLex (toLex ((provenanceOf i j).getD (0, 0)), d))

/-- A document outside of a list has no rank in it. -/
theorem rankFrom_eq_none_iff {first : ℕ} {hits : List Hit} {d : ℤ} :
    rankFrom first hits d = none ↔ d ∉ documents hits := by
  induction hits generalizing first with
  | nil => exact iff_of_true rfl List.not_mem_nil
  | cons hit hits ih =>
      rw [rankFrom, documents, List.map_cons, List.mem_cons, not_or]
      split_ifs with heq
      · exact iff_of_false nofun fun h => h.1 heq.symm
      · rw [and_iff_right (Ne.symm heq)]
        exact ih

/-- Ranks begin with the first. -/
theorem le_of_rankFrom {first r : ℕ} {hits : List Hit} {d : ℤ}
    (h : rankFrom first hits d = some r) : first ≤ r := by
  induction hits generalizing first with
  | nil => cases h
  | cons hit hits ih =>
      rw [rankFrom] at h
      split_ifs at h
      · exact (Option.some.inj h).le
      · exact (Nat.le_succ first).trans (ih h)

/-- The rank behind other results. -/
theorem rankFrom_append (first : ℕ) (hits hits' : List Hit) (d : ℤ) :
    rankFrom first (hits ++ hits') d =
      (rankFrom first hits d).or (rankFrom (first + hits.length) hits' d) := by
  induction hits generalizing first with
  | nil => rfl
  | cons hit hits ih =>
      rw [List.cons_append, rankFrom, rankFrom]
      split_ifs
      · rfl
      · rw [ih, List.length_cons, Nat.add_right_comm, Nat.add_assoc]

/-- The rank of what stands at a position. -/
theorem rankFrom_getElem {hits : List Hit} (h : Ranked hits) (first : ℕ) {i : ℕ}
    (hi : i < hits.length) : rankFrom first hits hits[i].processedId = some (first + i) := by
  induction hits generalizing first i with
  | nil => exact absurd hi (Nat.not_lt_zero i)
  | cons hit hits ih =>
      have hnodup := List.nodup_cons.mp h
      cases i with
      | zero => exact if_pos rfl
      | succ i =>
          have hi' : i < hits.length := Nat.lt_of_succ_lt_succ hi
          have hne : hit.processedId ≠ hits[i].processedId := fun heq =>
            hnodup.1 (List.mem_map.mpr ⟨hits[i], List.getElem_mem hi', heq.symm⟩)
          rw [List.getElem_cons_succ, rankFrom, if_neg hne, ih hnodup.2 (first + 1) hi']
          congr 1
          omega

/-! ## The tally -/

/-- What is contributed to a document by a list. -/
theorem get?_contributions {k : ℚ} {source first : ℕ} {hits : List Hit} (h : Ranked hits)
    (t : Tally) (d : ℤ) :
    (Tally.count k source first hits t).contributions.get? d =
      match rankFrom first hits d with
      | some r => some ((t.contributions.get? d).getD 0 + 1 / (k + r))
      | none => t.contributions.get? d := by
  induction hits generalizing first t with
  | nil => rfl
  | cons hit hits ih =>
      have hnodup := List.nodup_cons.mp h
      rw [Tally.count, ih hnodup.2, rankFrom]
      by_cases heq : hit.processedId = d
      · -- the document stands here, and at no later rank
        have hnone : rankFrom (first + 1) hits d = none :=
          rankFrom_eq_none_iff.mpr (heq ▸ hnodup.1)
        rw [hnone, if_pos heq]
        show (t.add k source first hit.processedId).contributions.get? d = _
        rw [Tally.add, Dict.get?_set, if_pos heq.symm, heq]
      · have hadd : (t.add k source first hit.processedId).contributions.get? d =
            t.contributions.get? d := by
          rw [Tally.add, Dict.get?_set, if_neg (Ne.symm heq)]
        rw [if_neg heq, hadd]

/-- The provenance that a list gives to a document. -/
theorem get?_provenance {k : ℚ} {source first : ℕ} (hits : List Hit) (t : Tally) (d : ℤ) :
    (Tally.count k source first hits t).provenance.get? d =
      (t.provenance.get? d).or ((rankFrom first hits d).map (source, ·)) := by
  induction hits generalizing first t with
  | nil => exact (Option.or_none).symm
  | cons hit hits ih =>
      have hadd : (t.add k source first hit.processedId).provenance.get? d =
          (t.provenance.get? d).or
            (if hit.processedId = d then some (source, first) else none) := by
        rw [Tally.add]
        by_cases heq : hit.processedId = d
        · subst heq
          rw [if_pos rfl]
          cases hget : t.provenance.get? hit.processedId with
          | none => rw [if_pos rfl, Dict.get?_set, if_pos rfl, Option.none_or]
          | some p => rw [if_neg nofun, hget, Option.some_or]
        · rw [if_neg heq, Option.or_none]
          split_ifs
          · rw [Dict.get?_set, if_neg (Ne.symm heq)]
          · rfl
      rw [Tally.count, ih, hadd, rankFrom, Option.or_assoc]
      split_ifs
      · rfl
      · rw [Option.none_or]

section Tally

variable {k : ℚ} {l v : List Hit}

/-- **The contributions**: the score of a document of either list. -/
theorem get?_tally (hl : Ranked l) (hv : Ranked v) (d : ℤ) :
    (tally k l v).contributions.get? d =
      if rank l d = none ∧ rank v d = none then none
      else some (scoreOf k (rank l d) (rank v d)) := by
  unfold rank
  rw [tally, get?_contributions hv, get?_contributions hl, scoreOf]
  cases rankFrom 1 v d with
  | none =>
      cases rankFrom 1 l d with
      | none => rfl
      | some i =>
          rw [if_neg (fun h => nomatch h.1)]
          show some (0 + 1 / (k + i)) = some (1 / (k + i) + 0)
          rw [zero_add, add_zero]
  | some j =>
      rw [if_neg (fun h => nomatch h.2)]
      cases rankFrom 1 l d with
      | none => rfl
      | some i =>
          show some (0 + 1 / (k + i) + 1 / (k + j)) = some (1 / (k + i) + 1 / (k + j))
          rw [zero_add]

/-- The provenance of a document. -/
theorem get?_provenance_tally (d : ℤ) :
    (tally k l v).provenance.get? d = provenanceOf (rank l d) (rank v d) := by
  rw [tally, get?_provenance, get?_provenance]
  rfl

end Tally

/-! ## The fused list -/

section Fuse

variable {k : ℚ} {l v : List Hit}

/-- What a document of the lists is sorted by. -/
def placeIn (k : ℚ) (l v : List Hit) (d : ℤ) : Place := placeOf k (rank l d) (rank v d) d

/-- **What is in the fused list.** -/
theorem mem_fuse_iff (hl : Ranked l) (hv : Ranked v) {hit : ScoredHit} :
    hit ∈ fuse k l v ↔
      (hit.processedId ∈ documents l ∨ hit.processedId ∈ documents v) ∧
        hit.score = scoreOf k (rank l hit.processedId) (rank v hit.processedId) := by
  have hout : rank l hit.processedId = none ∧ rank v hit.processedId = none ↔
      ¬(hit.processedId ∈ documents l ∨ hit.processedId ∈ documents v) := by
    rw [not_or]
    exact and_congr rankFrom_eq_none_iff rankFrom_eq_none_iff
  have hmem : hit ∈ fuse k l v ↔
      (tally k l v).contributions.get? hit.processedId = some hit.score := by
    rw [Dict.get?_eq_some_iff, fuse, List.mem_map]
    constructor
    · rintro ⟨item, hitem, rfl⟩
      exact (List.mem_insertionSort _).mp hitem
    · intro h
      exact ⟨_, (List.mem_insertionSort _).mpr h, rfl⟩
  rw [hmem, get?_tally hl hv]
  by_cases hin : hit.processedId ∈ documents l ∨ hit.processedId ∈ documents v
  · rw [if_neg (fun h => hout.mp h hin), Option.some.injEq, and_iff_right hin, eq_comm]
  · rw [if_pos (hout.mpr hin)]
    exact iff_of_false nofun fun h => hin h.1

/-- **The fused list is in the order of the places**, no two alike. -/
theorem pairwise_fuse (hl : Ranked l) (hv : Ranked v) :
    (fuse k l v).Pairwise fun a b => placeIn k l v a.processedId < placeIn k l v b.processedId := by
  let t := tally k l v
  have hplace : ∀ item ∈ t.contributions.entries, t.place item = placeIn k l v item.1 := by
    intro item hitem
    have hget := Dict.get?_eq_some_iff.mpr hitem
    rw [get?_tally hl hv] at hget
    split_ifs at hget
    rw [Tally.place, get?_provenance_tally, ← Option.some.inj hget]
    rfl
  have hsorted : (t.contributions.entries.insertionSort fun a b => t.place a ≤ t.place b).Pairwise
      fun a b => t.place a ≤ t.place b := by
    have htotal : Std.Total fun a b : ℤ × ℚ => t.place a ≤ t.place b := ⟨fun a b => le_total _ _⟩
    have htrans : IsTrans (ℤ × ℚ) fun a b => t.place a ≤ t.place b :=
      ⟨fun _ _ _ h h' => le_trans h h'⟩
    exact List.pairwise_insertionSort _ _
  have hnodup : ((t.contributions.entries.insertionSort fun a b => t.place a ≤ t.place b).map
      (·.1)).Nodup :=
    ((List.perm_insertionSort _ _).map _).nodup_iff.mpr t.contributions.nodup
  rw [fuse, List.pairwise_map]
  rw [List.Nodup, List.pairwise_map] at hnodup
  refine (hsorted.and hnodup).imp_of_mem fun {a b} ha hb h => ?_
  rw [← hplace a ((List.mem_insertionSort _).mp ha), ← hplace b ((List.mem_insertionSort _).mp hb)]
  refine lt_of_le_of_ne h.1 fun heq => h.2 ?_
  -- the place ends in the identifier
  exact congrArg (fun p : Place => (ofLex (ofLex p).2).2) heq

/-- The identifiers of the fused list are the documents, each once. -/
theorem nodup_fuse (hl : Ranked l) (hv : Ranked v) :
    ((fuse k l v).map (·.processedId)).Nodup := by
  rw [List.Nodup, List.pairwise_map]
  refine (pairwise_fuse hl hv).imp fun {a b} h heq => ?_
  rw [heq] at h
  exact lt_irrefl _ h

theorem mem_documents_fuse (hl : Ranked l) (hv : Ranked v) {d : ℤ} :
    d ∈ (fuse k l v).map (·.processedId) ↔ d ∈ documents l ∨ d ∈ documents v := by
  rw [List.mem_map]
  constructor
  · rintro ⟨hit, hhit, rfl⟩
    exact ((mem_fuse_iff hl hv).mp hhit).1
  · intro hd
    exact ⟨⟨d, scoreOf k (rank l d) (rank v d)⟩, (mem_fuse_iff hl hv).mpr ⟨hd, rfl⟩, rfl⟩

/-- A document comes before another. -/
def Before (hits : List ScoredHit) (d e : ℤ) : Prop :=
  ∃ i j : ℕ, i < j ∧ (hits.map (·.processedId))[i]? = some d ∧
    (hits.map (·.processedId))[j]? = some e

/-- **Which of two documents comes first** depends on their ranks and identifiers alone. -/
theorem before_fuse_iff (hl : Ranked l) (hv : Ranked v) {d e : ℤ} :
    Before (fuse k l v) d e ↔
      (d ∈ documents l ∨ d ∈ documents v) ∧ (e ∈ documents l ∨ e ∈ documents v) ∧
        placeIn k l v d < placeIn k l v e := by
  have hsorted : ((fuse k l v).map (·.processedId)).Pairwise
      fun d e => placeIn k l v d < placeIn k l v e :=
    List.pairwise_map.mpr (pairwise_fuse hl hv)
  rw [← mem_documents_fuse hl hv (k := k), ← mem_documents_fuse hl hv (k := k), Before]
  generalize (fuse k l v).map (·.processedId) = ids at hsorted ⊢
  constructor
  · rintro ⟨i, j, hij, hi, hj⟩
    obtain ⟨hilt, rfl⟩ := List.getElem?_eq_some_iff.mp hi
    obtain ⟨hjlt, rfl⟩ := List.getElem?_eq_some_iff.mp hj
    exact ⟨List.getElem_mem hilt, List.getElem_mem hjlt,
      List.pairwise_iff_getElem.mp hsorted i j hilt hjlt hij⟩
  · rintro ⟨hd, he, hlt⟩
    obtain ⟨i, hi, rfl⟩ := List.getElem_of_mem hd
    obtain ⟨j, hj, rfl⟩ := List.getElem_of_mem he
    refine ⟨i, j, ?_, List.getElem?_eq_getElem hi, List.getElem?_eq_getElem hj⟩
    rcases Nat.lt_trichotomy i j with hij | rfl | hij
    · exact hij
    · exact absurd hlt (lt_irrefl _)
    · exact absurd hlt (lt_asymm (List.pairwise_iff_getElem.mp hsorted j i hj hi hij))

end Fuse

/-! ## Better ranks -/

/-- The second rank is no worse than the first. -/
def Improved (i i' : Option ℕ) : Prop := ∀ r ∈ i, ∃ r' ∈ i', r' ≤ r

/-- A document is moved towards the front of a list. -/
def MovedForward (d : ℤ) (l l' : List Hit) : Prop :=
  ∃ a b c hit, hit.processedId = d ∧ l = a ++ (b ++ hit :: c) ∧ l' = a ++ (hit :: b ++ c)

section Improved

variable {k : ℚ} (hk : 0 ≤ k)

include hk

/-- A smaller rank contributes more. -/
theorem share_lt {i j : ℕ} (hi : 1 ≤ i) (hij : i < j) : share k (some j) < share k (some i) := by
  have hpos : (0 : ℚ) < k + i := by
    have hone : (1 : ℚ) ≤ i := by exact_mod_cast hi
    linarith
  have hlt : k + i < k + (j : ℚ) := by
    have hcast : (i : ℚ) < j := by exact_mod_cast hij
    linarith
  exact one_div_lt_one_div_of_lt hpos hlt

/-- A better rank is the same, or it contributes more. -/
theorem share_lt_of_improved {i i' : Option ℕ} (h : Improved i i') (hpos : ∀ r ∈ i', 1 ≤ r) :
    i = i' ∨ share k i < share k i' := by
  cases i with
  | none =>
      cases i' with
      | none => exact Or.inl rfl
      | some r' =>
          right
          have hone : (1 : ℚ) ≤ r' := by exact_mod_cast hpos r' rfl
          show (0 : ℚ) < 1 / (k + r')
          apply one_div_pos.mpr
          linarith
  | some r =>
      obtain ⟨r', hr', hle⟩ := h r rfl
      obtain rfl := Option.mem_def.mp hr'
      rcases Nat.lt_or_eq_of_le hle with hlt | rfl
      · exact Or.inr (share_lt hk (hpos r' rfl) hlt)
      · exact Or.inl rfl

/-- A better rank contributes no less. -/
theorem share_le_of_improved {i i' : Option ℕ} (h : Improved i i') (hpos : ∀ r ∈ i', 1 ≤ r) :
    share k i ≤ share k i' := by
  rcases share_lt_of_improved hk h hpos with rfl | hlt
  · exact le_rfl
  · exact hlt.le

omit hk in
/-- Ranks are positive. -/
theorem rank_pos (hits : List Hit) (d : ℤ) : ∀ r ∈ rank hits d, 1 ≤ r := fun _ hr =>
  le_of_rankFrom hr

/-- The score of a document whose ranks get no worse. -/
theorem scoreOf_le_of_improved {l v l' v' : List Hit} {d : ℤ}
    (hd : Improved (rank l d) (rank l' d)) (hd' : Improved (rank v d) (rank v' d)) :
    scoreOf k (rank l d) (rank v d) ≤ scoreOf k (rank l' d) (rank v' d) :=
  add_le_add (share_le_of_improved hk hd (rank_pos l' d))
    (share_le_of_improved hk hd' (rank_pos v' d))

/-- **A document whose ranks get no worse stays in front** of one whose ranks get no better. -/
theorem placeIn_lt_of_improved {l v l' v' : List Hit} {d e : ℤ}
    (hd : Improved (rank l d) (rank l' d)) (hd' : Improved (rank v d) (rank v' d))
    (he : Improved (rank l' e) (rank l e)) (he' : Improved (rank v' e) (rank v e))
    (hlt : placeIn k l v d < placeIn k l v e) : placeIn k l' v' d < placeIn k l' v' e := by
  have h₁ := share_lt_of_improved hk hd (rank_pos l' d)
  have h₂ := share_lt_of_improved hk hd' (rank_pos v' d)
  have h₃ := share_lt_of_improved hk he (rank_pos l e)
  have h₄ := share_lt_of_improved hk he' (rank_pos v e)
  have hscore := scoreOf_le_of_improved hk hd hd'
  have hscore' := scoreOf_le_of_improved hk he he'
  unfold placeIn placeOf at hlt ⊢
  rw [Prod.Lex.toLex_lt_toLex] at hlt
  have hbefore : scoreOf k (rank l e) (rank v e) ≤ scoreOf k (rank l d) (rank v d) := by
    rcases hlt with hlt | ⟨heq, -⟩
    · exact (neg_lt_neg_iff.mp hlt).le
    · exact (neg_inj.mp heq).ge
  -- unless all four ranks are the same, the scores are apart now
  have hapart : scoreOf k (rank l' e) (rank v' e) < scoreOf k (rank l' d) (rank v' d) ∨
      (rank l d = rank l' d ∧ rank v d = rank v' d) ∧
        rank l' e = rank l e ∧ rank v' e = rank v e := by
    rcases h₁ with h₁ | h₁
    · rcases h₂ with h₂ | h₂
      · rcases h₃ with h₃ | h₃
        · rcases h₄ with h₄ | h₄
          · exact Or.inr ⟨⟨h₁, h₂⟩, h₃, h₄⟩
          · have hstrict := add_lt_add_of_le_of_lt (share_le_of_improved hk he (rank_pos l e)) h₄
            exact Or.inl (hstrict.trans_le (hbefore.trans hscore))
        · have hstrict := add_lt_add_of_lt_of_le h₃ (share_le_of_improved hk he' (rank_pos v e))
          exact Or.inl (hstrict.trans_le (hbefore.trans hscore))
      · have hstrict := add_lt_add_of_le_of_lt (share_le_of_improved hk hd (rank_pos l' d)) h₂
        exact Or.inl ((hscore'.trans hbefore).trans_lt hstrict)
    · have hstrict := add_lt_add_of_lt_of_le h₁ (share_le_of_improved hk hd' (rank_pos v' d))
      exact Or.inl ((hscore'.trans hbefore).trans_lt hstrict)
  rcases hapart with hapart | ⟨⟨hd, hd'⟩, he, he'⟩
  · rw [Prod.Lex.toLex_lt_toLex]
    exact Or.inl (neg_lt_neg hapart)
  · rw [← hd, ← hd', he, he', Prod.Lex.toLex_lt_toLex]
    exact hlt

end Improved

/-- The rank behind one result more. -/
theorem rankFrom_succ (first : ℕ) (hits : List Hit) (d : ℤ) :
    rankFrom (first + 1) hits d = (rankFrom first hits d).map (· + 1) := by
  induction hits generalizing first with
  | nil => rfl
  | cons hit hits ih =>
      rw [rankFrom, rankFrom]
      split_ifs
      · rfl
      · exact ih (first + 1)

/-- **A move towards the front** makes the rank of the document no worse, and no other rank
better. -/
theorem MovedForward.improved {d : ℤ} {l l' : List Hit} (h : MovedForward d l l') (hl : Ranked l) :
    Improved (rank l d) (rank l' d) ∧ ∀ e, e ≠ d → Improved (rank l' e) (rank l e) := by
  obtain ⟨a, b, c, hit, rfl, rfl, rfl⟩ := h
  have hnodup : (documents a ++ (documents b ++ hit.processedId :: documents c)).Nodup := by
    have hnodup := hl
    rw [Ranked, documents, List.map_append, List.map_append, List.map_cons] at hnodup
    exact hnodup
  constructor
  · have ha : rankFrom 1 a hit.processedId = none := by
      refine rankFrom_eq_none_iff.mpr fun hmem => ?_
      refine (List.nodup_append.mp hnodup).2.2 _ hmem _ ?_ rfl
      exact List.mem_append_right _ List.mem_cons_self
    have hnew : rank (a ++ (hit :: b ++ c)) hit.processedId = some (1 + a.length) := by
      rw [rank, rankFrom_append, ha, Option.none_or]
      exact if_pos rfl
    rw [hnew]
    intro r hr
    refine ⟨_, rfl, ?_⟩
    rw [rank, rankFrom_append, ha, Option.none_or] at hr
    exact le_of_rankFrom hr
  · intro e he r hr
    rw [rank, rankFrom_append, List.cons_append, rankFrom, if_neg (Ne.symm he), rankFrom_append,
      rankFrom_succ (1 + a.length)] at hr
    rw [rank, rankFrom_append, rankFrom_append, rankFrom, if_neg (Ne.symm he)]
    have hindex : 1 + a.length + b.length + 1 = 1 + a.length + 1 + b.length := by omega
    rw [hindex]
    cases hfront : rankFrom 1 a e with
    | some i =>
        rw [hfront] at hr
        exact ⟨r, hr, le_rfl⟩
    | none =>
        rw [hfront, Option.none_or] at hr
        rw [Option.none_or]
        cases hmiddle : rankFrom (1 + a.length) b e with
        | none =>
            rw [hmiddle] at hr
            exact ⟨r, hr, le_rfl⟩
        | some i =>
            rw [hmiddle] at hr
            refine ⟨i, rfl, ?_⟩
            rw [← Option.some.inj hr]
            exact Nat.le_succ i

/-! ## The laws -/

section Laws

variable {k : ℚ}

/-- A list and an empty one, whatever their order. -/
theorem documents_fuse_of_score (hk : 0 ≤ k) {l v hits : List Hit} (hl : Ranked l) (hv : Ranked v)
    (hhits : Ranked hits) (hmem : ∀ d, d ∈ documents l ∨ d ∈ documents v ↔ d ∈ documents hits)
    (hscore : ∀ d, scoreOf k (rank l d) (rank v d) = share k (rank hits d)) :
    (fuse k l v).map (·.processedId) = documents hits := by
  have hsorted : (documents hits).Pairwise fun d e => placeIn k l v d < placeIn k l v e := by
    rw [documents, List.pairwise_map, List.pairwise_iff_getElem]
    intro i j hi hj hij
    have hlt := @share_lt k hk (1 + i) (1 + j) (Nat.le_add_right 1 i) (by omega)
    unfold placeIn placeOf
    rw [Prod.Lex.toLex_lt_toLex, hscore, hscore]
    have hi' : rank hits hits[i].processedId = some (1 + i) := rankFrom_getElem hhits 1 hi
    have hj' : rank hits hits[j].processedId = some (1 + j) := rankFrom_getElem hhits 1 hj
    rw [hi', hj']
    exact Or.inl (neg_lt_neg hlt)
  refine List.Perm.eq_of_pairwise (fun d e _ _ h h' => absurd h (lt_asymm h'))
    (List.pairwise_map.mpr (pairwise_fuse hl hv)) hsorted ?_
  rw [List.perm_ext_iff_of_nodup (nodup_fuse hl hv) hhits]
  intro d
  rw [mem_documents_fuse hl hv, hmem]

theorem Improved.refl (i : Option ℕ) : Improved i i := fun r hr => ⟨r, hr, le_rfl⟩

section Improved

variable (hk : 0 ≤ k) {l l' v v' : List Hit} (hl : Ranked l) (hl' : Ranked l') (hv : Ranked v)
  (hv' : Ranked v')
  (hmem : ∀ x, x ∈ documents l ∨ x ∈ documents v ↔ x ∈ documents l' ∨ x ∈ documents v') {d : ℤ}
  (hd : Improved (rank l d) (rank l' d)) (hd' : Improved (rank v d) (rank v' d))

include hk hl hl' hv hv' hmem hd hd'

/-- The score of a document whose ranks get no worse. -/
theorem exists_score_of_improved {s : ℚ} (h : ⟨d, s⟩ ∈ fuse k l v) :
    ∃ s', s ≤ s' ∧ ⟨d, s'⟩ ∈ fuse k l' v' := by
  obtain ⟨hin, hs⟩ := (mem_fuse_iff hl hv).mp h
  refine ⟨scoreOf k (rank l' d) (rank v' d), ?_, (mem_fuse_iff hl' hv').mpr ⟨?_, rfl⟩⟩
  · rw [show s = _ from hs]
    exact scoreOf_le_of_improved hk hd hd'
  · exact (hmem d).mp hin

/-- It stays in front of a document whose ranks get no better. -/
theorem before_of_improved {e : ℤ} (he : Improved (rank l' e) (rank l e))
    (he' : Improved (rank v' e) (rank v e)) (h : Before (fuse k l v) d e) :
    Before (fuse k l' v') d e := by
  rw [before_fuse_iff hl hv] at h
  rw [before_fuse_iff hl' hv', ← hmem, ← hmem]
  exact ⟨h.1, h.2.1, placeIn_lt_of_improved hk hd hd' he he' h.2.2⟩

end Improved

/-- The laws of rank fusion. -/
structure FusionLaws (k : ℚ) : Prop where
  /-- each document of either list once -/
  once : ∀ {l v}, Ranked l → Ranked v → ((fuse k l v).map (·.processedId)).Nodup ∧
    ∀ d, d ∈ (fuse k l v).map (·.processedId) ↔ d ∈ documents l ∨ d ∈ documents v
  scored : ∀ {l v}, Ranked l → Ranked v → ∀ hit ∈ fuse k l v,
    hit.score = share k (rank l hit.processedId) + share k (rank v hit.processedId)
  sorted : ∀ {l v}, Ranked l → Ranked v → (fuse k l v).Pairwise fun a b => b.score ≤ a.score
  /-- a linear order of what two ranks and an identifier determine -/
  ordered : ∀ {l v}, Ranked l → Ranked v → ∀ {d e},
    (d ∈ documents l ∨ d ∈ documents v) → (e ∈ documents l ∨ e ∈ documents v) →
      (Before (fuse k l v) d e ↔
        placeOf k (rank l d) (rank v d) d < placeOf k (rank l e) (rank v e) e)
  left : ∀ {l}, Ranked l → (fuse k l []).map (·.processedId) = documents l
  right : ∀ {l}, Ranked l → (fuse k [] l).map (·.processedId) = documents l
  moved : ∀ {l l' v d}, Ranked l → Ranked v → MovedForward d l l' →
    (∀ s, ⟨d, s⟩ ∈ fuse k l v → ∃ s', s ≤ s' ∧ ⟨d, s'⟩ ∈ fuse k l' v) ∧
      (∀ s, ⟨d, s⟩ ∈ fuse k v l → ∃ s', s ≤ s' ∧ ⟨d, s'⟩ ∈ fuse k v l') ∧
      ∀ e, Improved (rank l' e) (rank l e) →
        (Before (fuse k l v) d e → Before (fuse k l' v) d e) ∧
          (Before (fuse k v l) d e → Before (fuse k v l') d e)
  extended : ∀ {l v l' v'}, Ranked (l ++ l') → Ranked (v ++ v') → ∀ hit ∈ fuse k l v,
    hit.processedId ∉ documents l' → hit.processedId ∉ documents v' →
      hit ∈ fuse k (l ++ l') (v ++ v')

/-- A list after a move has the same documents, each once. -/
theorem MovedForward.perm {d : ℤ} {l l' : List Hit} (h : MovedForward d l l') : l.Perm l' := by
  obtain ⟨a, b, c, hit, -, rfl, rfl⟩ := h
  exact List.perm_middle.append_left a

theorem Ranked.of_append {l l' : List Hit} (h : Ranked (l ++ l')) : Ranked l := by
  rw [Ranked, documents, List.map_append] at h
  exact (List.nodup_append.mp h).1

/-- **The laws of rank fusion** hold for every nonnegative constant. -/
theorem fuse_laws (hk : 0 ≤ k) : FusionLaws k where
  once hl hv := ⟨nodup_fuse hl hv, fun _ => mem_documents_fuse hl hv⟩
  scored hl hv hit hhit := ((mem_fuse_iff hl hv).mp hhit).2
  sorted {l v} hl hv := by
    refine (pairwise_fuse hl hv).imp_of_mem fun {a b} ha hb hlt => ?_
    rw [((mem_fuse_iff hl hv).mp ha).2, ((mem_fuse_iff hl hv).mp hb).2]
    unfold placeIn placeOf at hlt
    rw [Prod.Lex.toLex_lt_toLex] at hlt
    rcases hlt with hlt | ⟨heq, -⟩
    · exact (neg_lt_neg_iff.mp hlt).le
    · exact (neg_inj.mp heq).ge
  ordered {l v} hl hv {d e} hd he := by
    rw [before_fuse_iff hl hv, and_iff_right hd, and_iff_right he]
    rfl
  left {l} hl := by
    refine documents_fuse_of_score hk hl List.nodup_nil hl (fun d => ?_) fun d => add_zero _
    exact or_iff_left List.not_mem_nil
  right {l} hl := by
    refine documents_fuse_of_score hk List.nodup_nil hl hl (fun d => ?_) fun d => zero_add _
    exact or_iff_right List.not_mem_nil
  moved {l l' v d} hl hv h := by
    have hl' : Ranked l' := (h.perm.map _).nodup_iff.mp hl
    have hmem : ∀ x, x ∈ documents l ↔ x ∈ documents l' := fun x => (h.perm.map _).mem_iff
    have hd := (h.improved hl).1
    refine ⟨fun s => exists_score_of_improved hk hl hl' hv hv (fun x => or_congr_left (hmem x)) hd
      (Improved.refl _), fun s => exists_score_of_improved hk hv hv hl hl'
      (fun x => or_congr_right (hmem x)) (Improved.refl _) hd, fun e he => ⟨?_, ?_⟩⟩
    · exact before_of_improved hk hl hl' hv hv (fun x => or_congr_left (hmem x)) hd
        (Improved.refl _) he (Improved.refl _)
    · exact before_of_improved hk hv hv hl hl' (fun x => or_congr_right (hmem x))
        (Improved.refl _) hd (Improved.refl _) he
  extended {l v l' v'} hl hv hit hhit hout hout' := by
    have hrank : ∀ {hits hits' : List Hit}, hit.processedId ∉ documents hits' →
        rank (hits ++ hits') hit.processedId = rank hits hit.processedId := by
      intro hits hits' hnot
      rw [rank, rankFrom_append, rankFrom_eq_none_iff.mpr hnot, Option.or_none]
      rfl
    obtain ⟨hmem, hscore⟩ := (mem_fuse_iff hl.of_append hv.of_append).mp hhit
    rw [mem_fuse_iff hl hv, hrank hout, hrank hout']
    refine ⟨?_, hscore⟩
    rw [documents, documents, List.map_append, List.map_append]
    exact hmem.imp (List.mem_append_left _) (List.mem_append_left _)

end Laws

/-- The laws hold for the constant of the source. -/
theorem fuse_laws_rrfK : FusionLaws rrfK := fuse_laws (by decide)

/-- Ranks one and three are worth more than two and two. -/
example : (fuse rrfK [⟨7, 0⟩, ⟨8, 0⟩, ⟨9, 0⟩] [⟨9, 0⟩, ⟨8, 0⟩]).map (·.processedId) =
    [9, 8, 7] := by
  decide +kernel

end ProcureSignal.Search
